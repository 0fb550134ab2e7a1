import VoWiFi.Ims.HeaderValue

/-!
# SIP messages of the IMS server

`init_sip_message` of `sip_controller.c` reads a SIP message line by line: the first line into its
fields, and the headers of a REGISTER request and of 401 and 200 responses into a list of keys and
values; other messages lose their headers. `serialize_sip_message` writes such a message.

The message is copied to a block of its own length before `strtok` cuts it into lines, so the byte
behind it need not be a NUL; it is taken to be one here.
-/

namespace Ims

/-- How the code stops instead of going on. -/
inductive Fault where
  | nullPointer
  /-- A variable is read that has not been set. -/
  | unsetVariable
  | assertion
  /-- A message does not fit into its buffer. -/
  | bufferOverflow
  deriving DecidableEq, Repr

/-- `SC_SIP_REQUEST` and `SC_SIP_RESPONSE`. -/
inductive MessageType where
  | request
  | response
  deriving DecidableEq, Repr

/-- A `kvp_t`: a header. -/
structure Kvp where
  key : Text
  vlst : List Val
  deriving DecidableEq, Repr

/-- A `sip_message_t`. -/
structure SipMessage where
  /-- The type, unless the first line has no space. -/
  mtype : Option MessageType
  /-- The method, or the reason phrase. -/
  mname : Text
  /-- The request URI, or the status code. -/
  additional : Text
  /-- The list from `head` to `tail`. -/
  kvps : List Kvp
  deriving DecidableEq, Repr

def scBufLength : ℕ := 16384

def sipVersionToken : Text := "SIP/2.0".toList

/-- The end of a line. -/
def crlf : Text := ['\r', '\n']

/-- `to_lower`, which changes the letters `A` to `Z` only. -/
def toLower (s : Text) : Text := s.map Char.toLower

/-- `parse_sip_first_line` for a line without NUL bytes. -/
def parseSipFirstLine (line : Text) : SipMessage :=
  let word := fun c : Char => c ≠ ' ' && c ≠ '\n'
  let p := line.dropWhile (· = ' ')
  let tok := p.takeWhile word
  let p := p.dropWhile word
  let mtype :=
    if p.head? = some ' ' then
      some (if tok = sipVersionToken then MessageType.response else .request)
    else none
  let p := p.dropWhile (· = ' ')
  let second := p.takeWhile word
  let p := p.dropWhile word
  { mtype := mtype
    mname := match mtype with
      | some .request => toLower tok
      | some .response =>
        toLower ((p.dropWhile (· = ' ')).takeWhile fun c => c ≠ '\r' && c ≠ '\n')
      | none => []
    additional := if p.head? = some ' ' then second else []
    kvps := [] }

/-- `parse_key_value_line`. A line without a colon, a key or a value is dropped. -/
def parseKeyValueLine (line : Text) : Option Kvp :=
  let key := line.takeWhile (· ≠ ':')
  match line.dropWhile (· ≠ ':') with
  | [] => none
  | _ :: rest =>
    let value := rest.dropWhile (· = ' ')
    if value ≠ [] ∧ key ≠ [] then some ⟨key, initVlst value⟩ else none

def SipMessage.isStatusCodeMessage (m : SipMessage) (code : Text) : Bool :=
  m.mtype = some .response && m.additional = code

/-- `is_register_message`, which does not look at the type. -/
def SipMessage.isRegisterMessage (m : SipMessage) : Bool := m.mname = "register".toList

def SipMessage.is401UnauthorizedMessage (m : SipMessage) : Bool :=
  m.isStatusCodeMessage "401".toList

def SipMessage.is200OkMessage (m : SipMessage) : Bool := m.isStatusCodeMessage "200".toList

/-- The headers of the message are read. -/
def SipMessage.readsHeaders (m : SipMessage) : Bool :=
  m.isRegisterMessage || m.is401UnauthorizedMessage || m.is200OkMessage

/-- A byte at which a line ends. -/
def lineEnd (c : Char) : Bool := c = '\r' || c = '\n'

def initSipMessage (buf : Text) : Except Fault SipMessage :=
  match Text.strtok lineEnd buf with
  | [] => .error .nullPointer
  | line :: lines =>
    let m := parseSipFirstLine line
    .ok (if m.readsHeaders then { m with kvps := lines.filterMap parseKeyValueLine } else m)

/-- The first line of a message. -/
def SipMessage.firstLine (m : SipMessage) : Text :=
  if m.mtype = some .request then m.mname ++ [' '] ++ m.additional ++ [' '] ++ sipVersionToken
  else sipVersionToken ++ [' '] ++ m.additional ++ [' '] ++ m.mname

/-- The line of a header. -/
def Kvp.line (kvp : Kvp) : Text := kvp.key ++ [':', ' '] ++ serializeValue kvp.vlst

/-- What `serialize_sip_message` writes into its buffer. -/
def SipMessage.written (m : SipMessage) : Text :=
  m.firstLine ++ crlf ++ m.kvps.flatMap (fun kvp => kvp.line ++ crlf) ++ crlf

def serializeSipMessage (m : SipMessage) : Except Fault Text :=
  if m.written.length ≤ scBufLength then .ok m.written else .error .bufferOverflow

end Ims

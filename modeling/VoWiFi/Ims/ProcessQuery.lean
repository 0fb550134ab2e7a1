import Mathlib.Data.List.Infix
import VoWiFi.Epdg.Query
import VoWiFi.Ims.Message

/-!
# Changing a SIP response

`tcp_send` of `tcp_main.c` takes every SIP response apart before it is sent, lets `process_query` of
`sip_controller.c` change the attributes that the current query names, and sends what
`serialize_sip_message` makes of the result. Requests are sent as they are.
-/

namespace Ims

open Epdg (OpType)

/-- The fields of a `query_t` of the IMS server, its links apart. -/
structure QNode where
  name : Text
  op : OpType
  /-- The number of the value type. -/
  vtype : ℤ
  value : Text
  deriving DecidableEq, Repr

/-- A query with everything below it. -/
abbrev Query := RoseTree QNode

def valTypeString : ℤ := 11

def getSubQueryByName (query : Query) (name : Text) : Option Query :=
  query.sub.find? (·.label.name = name)

/-- The part of a query for a 401 response that is about one attribute of a header. -/
def attributeQuery (query : Option Query) (header attr : Text) : Option QNode := do
  let q ← query
  guard (q.label.name = "401_unauthorized".toList)
  let q ← getSubQueryByName q header
  let q ← getSubQueryByName q attr
  return q.label

/-! ## Headers -/

/-- `get_kvp_from_sip_message` for the first header of a name. -/
def SipMessage.getKvp (m : SipMessage) (key : Text) : Option Kvp := m.kvps.find? (·.key = key)

/-- Change the list of attributes of the first header of a name. -/
def SipMessage.setVlst (m : SipMessage) (key : Text) (vlst : List Val) : SipMessage :=
  { m with kvps := m.kvps.replaceF fun kvp => if kvp.key = key then some ⟨key, vlst⟩ else none }

/-- `get_value_from_kvp_by_name`, as far as the length of the value is concerned; `none` if it is not
set. -/
def getValueLength (vlst : List Val) (attr : Text) : Option ℕ :=
  (vlst.find? (·.attr = some attr)).map fun v => (v.val.getD []).length

/-- `change_value_from_kvp_by_name`: all attributes of the name get the value. -/
def changeValueByName (vlst : List Val) (attr value : Text) : Except Fault (List Val) :=
  if value = [] then .error .assertion
  else .ok (vlst.map fun v => if v.attr = some attr then { v with val := some value } else v)

/-- `del_value_from_kvp_by_name`: the first attribute of the name is removed. -/
def delValueByName (vlst : List Val) (attr : Text) : Except Fault (List Val) :=
  if vlst.any (·.attr = some attr) then .ok (vlst.eraseP (·.attr = some attr))
  else .error .nullPointer

/-- Change the attributes of the first header of a name, if there is one. -/
def SipMessage.change (m : SipMessage) (key : Text) (f : List Val → Except Fault (List Val)) :
    Except Fault SipMessage :=
  match m.getKvp key with
  | none => .ok m
  | some kvp => do return m.setVlst key (← f kvp.vlst)

/-! ## Attributes -/

/-- A text occurs in another one (`strstr`). -/
def occurs (needle s : Text) : Bool := needle <:+: s

/-- The first of some words that occurs in a text, or else the default. -/
def choose (words : List String) (default : String) (s : Text) : Text :=
  ((words.find? fun w => occurs w.toList s).getD default).toList

/-- The change of one attribute: a string update sets the word chosen for the value of the query, a
drop removes the attribute. -/
def changeAttribute (query : Option Query) (section_ attr : String) (key : String)
    (value : Text → Text) (m : SipMessage) : Except Fault SipMessage :=
  match attributeQuery query section_.toList attr.toList with
  | none => .ok m
  | some q =>
    if q.vtype = valTypeString ∧ q.op = .update then
      m.change key.toList fun vlst => changeValueByName vlst attr.toList (value q.value)
    else if q.op = .drop then m.change key.toList fun vlst => delValueByName vlst attr.toList
    else .ok m

/-- The change of `alg` in `Security-Server`. -/
def changeAlg (query : Option Query) : SipMessage → Except Fault SipMessage :=
  changeAttribute query "security_server" "alg" "Security-Server"
    (choose ["hmac-md5-96", "hmac-sha-1-96"] "hmac-md5-96")

/-- The change of `ealg` in `Security-Server`. -/
def changeEalg (query : Option Query) : SipMessage → Except Fault SipMessage :=
  changeAttribute query "security_server" "ealg" "Security-Server"
    (choose ["des-ede3-cbc", "null", "aes256-cbc"] "null")

/-- The change of `prot` in `Security-Server`. -/
def changeProt (query : Option Query) : SipMessage → Except Fault SipMessage :=
  changeAttribute query "security_server" "prot" "Security-Server"
    (choose ["null", "esp", "ah", "trans"] "null")

/-- The change of `mod` in `Security-Server`. -/
def changeMod (query : Option Query) : SipMessage → Except Fault SipMessage :=
  changeAttribute query "security_server" "mod" "Security-Server"
    (choose ["trans", "null", "tun"] "null")

/-- The algorithm that is set for the value of a query. -/
def algorithmValue (s : Text) : Text :=
  if occurs "AKAv1".toList s then
    if occurs "sess".toList s then "AKAv1-MD5-sess".toList
    else if occurs "SHA-256".toList s then "AKAv1-SHA-256".toList
    else "AKAv1-MD5".toList
  else if occurs "SHA-256".toList s then "SHA-256".toList
  else "MD5".toList

/-- The change of `algorithm` in `WWW-Authenticate`. What was set is logged afterwards, also where
nothing was set. -/
def changeAlgorithm (query : Option Query) (m : SipMessage) : Except Fault SipMessage :=
  match attributeQuery query "www_authenticate".toList "algorithm".toList with
  | none => .ok m
  | some q =>
    if q.vtype = valTypeString ∧ q.op = .update then
      m.change "WWW-Authenticate".toList fun vlst =>
        changeValueByName vlst "algorithm".toList (algorithmValue q.value)
    else do
      if q.op = .drop then
        let _ ← m.change "WWW-Authenticate".toList fun vlst =>
          delValueByName vlst "algorithm".toList
      .error .unsetVariable

/-- A digit or a capital letter for a random number. -/
def randomChar (n : ℕ) : Char :=
  if n % 36 < 10 then Char.ofNat (n % 36 + 48) else Char.ofNat (n % 36 + 55)

/-- The nonce of a given length that is set for the value of a query, given the values of `rand`. -/
def nonceValue (rand : ℕ → ℕ) (length : ℕ) (s : Text) : Text :=
  let fill :=
    if s = "max".toList then List.replicate length 'F'
    else if s = "min".toList then List.replicate length '0'
    else if s = "median".toList ∨ s = "mean".toList then List.replicate length '8'
    else if s = "random".toList then (List.range length).map fun i => randomChar (rand i)
    else List.replicate length '0'
  fill.set (length - 1) '='

/-- The change of `nonce` in `WWW-Authenticate`. The length of the old nonce is looked up in any
case. -/
def changeNonce (query : Option Query) (rand : ℕ → ℕ) (m : SipMessage) :
    Except Fault SipMessage :=
  match attributeQuery query "www_authenticate".toList "nonce".toList with
  | none => .ok m
  | some q =>
    match m.getKvp "WWW-Authenticate".toList with
    | none => .error .assertion
    | some kvp =>
      if q.vtype = valTypeString ∧ q.op = .update then
        match getValueLength kvp.vlst "nonce".toList with
        | none => .error .unsetVariable
        | some length => m.change "WWW-Authenticate".toList fun vlst =>
          changeValueByName vlst "nonce".toList (nonceValue rand length q.value)
      else if q.op = .drop then
        m.change "WWW-Authenticate".toList fun vlst => delValueByName vlst "nonce".toList
      else .ok m

def processQuery (query : Option Query) (rand : ℕ → ℕ) (m : SipMessage) :
    Except Fault SipMessage := do
  let m ← changeNonce query rand m
  let m ← changeAlgorithm query m
  let m ← changeAlg query m
  let m ← changeEalg query m
  let m ← changeProt query m
  changeMod query m

/-- What `tcp_send` sends for a message of an attached session. -/
def tcpSend (query : Option Query) (rand : ℕ → ℕ) (buf : Text) : Except Fault Text := do
  let sip ← initSipMessage buf
  if sip.mtype = some .response then
    let sip ← processQuery query rand sip
    serializeSipMessage sip
  else return buf

end Ims

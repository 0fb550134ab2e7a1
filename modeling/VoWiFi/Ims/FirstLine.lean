import VoWiFi.Ims.Message

/-!
# First lines

The first line of a SIP message as its sender writes it, a status line or a request line with any number
of spaces where one is enough, and the fields that `parse_sip_first_line` is to read from it.
-/

namespace Ims

/-- A part of a line that the spaces around it set off. -/
structure Word (s : Text) : Prop where
  ne : s ≠ []
  space : ' ' ∉ s
  line : '\n' ∉ s

/-- At least one space. -/
def spaces (more : ℕ) : Text := List.replicate (more + 1) ' '

/-- A status line. -/
structure StatusLine where
  /-- The number of spaces the line starts with. -/
  indent : ℕ
  /-- The numbers of spaces beyond one before and after the code. -/
  before : ℕ
  after : ℕ
  code : Text
  reason : Text
  code_word : Word code
  reason_line : ∀ c ∈ reason, lineEnd c = false
  reason_space : reason.head? ≠ some ' '

/-- A request line. -/
structure RequestLine where
  /-- The number of spaces the line starts with. -/
  indent : ℕ
  /-- The numbers of spaces beyond one before and after the URI. -/
  before : ℕ
  after : ℕ
  method : Text
  uri : Text
  version : Text
  method_word : Word method
  method_ne : method ≠ sipVersionToken
  uri_word : Word uri

/-- The first line of a message. -/
inductive FirstLine where
  | status (l : StatusLine)
  | request (l : RequestLine)

/-- A line of two words and what follows them. -/
def lineText (indent : ℕ) (first : Text) (before : ℕ) (second : Text) (after : ℕ) (rest : Text) : Text :=
  List.replicate indent ' ' ++ (first ++ (spaces before ++ (second ++ (spaces after ++ rest))))

def FirstLine.text : FirstLine → Text
  | status l => lineText l.indent sipVersionToken l.before l.code l.after l.reason
  | request l => lineText l.indent l.method l.before l.uri l.after l.version

/-- The message with the fields of the line. -/
def FirstLine.message : FirstLine → SipMessage
  | status l => ⟨some .response, toLower l.reason, l.code, []⟩
  | request l => ⟨some .request, toLower l.method, l.uri, []⟩

/-- The text starts with a line from which the fields of the message are read again, with and without what
follows the line. -/
structure SipMessage.ReadFrom (m : SipMessage) (out : Text) : Prop where
  starts : m.firstLine ++ crlf <+: out
  line : parseSipFirstLine m.firstLine = m
  text : parseSipFirstLine out = m

end Ims

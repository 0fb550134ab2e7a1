import VoWiFi.Ims.ProcessQuery

/-!
# SIP responses that pass unchanged

A SIP response as its sender wrote it: a status line, headers and a body. If the current query asks for
no change, what `tcp_send` sends should be the same response, up to the case of the reason phrase and
the number of spaces after the colon of a header. This module says so, and for which responses it is
true.
-/

namespace Ims

/-- A header of a response. -/
structure HeaderField where
  name : Text
  /-- The number of spaces after the colon. -/
  spaces : ℕ
  value : Text
  name_ne : name ≠ []
  name_line : ∀ c ∈ name, lineEnd c = false
  name_colon : ':' ∉ name
  value_line : ∀ c ∈ value, lineEnd c = false
  value_space : value.head? ≠ some ' '

/-- The line of a header. -/
def HeaderField.line (h : HeaderField) : Text :=
  h.name ++ ':' :: (List.replicate h.spaces ' ' ++ h.value)

/-- The name and the value. -/
def HeaderField.pair (h : HeaderField) : Text × Text := (h.name, h.value)

/-- A SIP response. -/
structure Response where
  code : Text
  reason : Text
  headers : List HeaderField
  body : Text
  code_ne : code ≠ []
  code_word : ∀ c ∈ code, c ≠ ' ' ∧ lineEnd c = false
  reason_line : ∀ c ∈ reason, lineEnd c = false

def Response.statusLine (r : Response) : Text :=
  sipVersionToken ++ ' ' :: (r.code ++ ' ' :: r.reason)

/-- The lines up to the empty one. -/
def Response.lines (r : Response) : List Text := r.statusLine :: r.headers.map HeaderField.line

/-- The bytes of a response. -/
def Response.text (r : Response) : Text := Text.endLines '\r' '\n' r.lines ++ '\r' :: '\n' :: r.body

/-- The same response, up to the case of the reason phrase and spaces after a colon. -/
structure Response.Same (r r' : Response) : Prop where
  code : r'.code = r.code
  reason : toLower r'.reason = toLower r.reason
  headers : r'.headers.map HeaderField.pair = r.headers.map HeaderField.pair
  body : r'.body = r.body

/-- A response that fits into the buffer is sent unchanged whenever the current query has nothing to
change. -/
def Response.Transparent (r : Response) : Prop :=
  r.text.length < scBufLength → ∀ (query : Option Query) (rand : ℕ → ℕ),
    (∀ q, query = some q → q.sub = []) →
      ∃ r' : Response, r.Same r' ∧ tcpSend query rand r.text = .ok r'.text

/-- The length of a response with one space after each colon and without its body. -/
def Response.rewrittenLength (r : Response) : ℕ :=
  r.statusLine.length + 2 + (r.headers.map fun h => h.name.length + h.value.length + 4).sum + 2

/-- The conditions under which nothing of a response is lost. -/
structure Response.Survives (r : Response) : Prop where
  body : r.body = []
  /-- The headers are read, unless there are none. -/
  headers : r.headers = [] ∨ r.code = "401".toList ∨ r.code = "200".toList ∨
    toLower r.reason = "register".toList
  /-- No NUL byte ends the text early. -/
  nul : '\x00' ∉ r.text
  /-- The reason phrase does not start with a space. -/
  reason : r.reason.head? ≠ some ' '
  /-- No header is empty, and each is taken apart without loss. -/
  values : ∀ h ∈ r.headers, h.value ≠ [] ∧ Lossless h.value
  /-- What is written fits into the buffer. -/
  fits : r.rewrittenLength ≤ scBufLength

end Ims

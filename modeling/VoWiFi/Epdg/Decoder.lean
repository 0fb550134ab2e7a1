import VoWiFi.Epdg.Query

/-!
# The line decoder of the ePDG listener

`listener_run` rebuilds a query from the lines of the controller with three variables: a pointer to
the node added last, a block depth and the type of the previous line. When the depth returns to zero
the node the pointer is at becomes the current query.

The SPIs of a line are compared with those of the session, which only decides what is printed.
-/

namespace Epdg

/-- `MAX_MESSAGE_LEN`, the size of the line buffer. -/
def maxMessageLen : ℕ := 1514

/-- The variables of the decoder. -/
structure Decoder where
  /-- The node added last; `none` is a null pointer. -/
  query : Option (Cursor QNode)
  /-- The number of open blocks. -/
  depth : ℤ
  /-- The type of the previous line. -/
  ptype : ℕ

/-- The decoder before the first line. -/
def Decoder.init : Decoder := ⟨none, 0, 0⟩

/-- The type of a line, an eight-bit number read from its first character. -/
def lineType (line : Text) : ℕ := (charToInt 10 (line.take 1) % 256).toNat

/-- Where the name of a line begins: after its type and the two SPIs. -/
def nameOffset : ℕ := 33

/-- The tokens of a line. A line with nothing but a newline after the SPIs has none. -/
def lineTokens (line : Text) : List Text :=
  if nameOffset + 1 < line.length then Text.strtok (· = ':') (line.drop nameOffset) else []

/-- The effect of the type of a line on the pointer and the depth. -/
def Decoder.move (d : Decoder) (mtype : ℕ) : Except Fault (Option (Cursor QNode) × ℤ) :=
  if mtype = msgTypeAttribute then
    match d.query with
    | none => .error .nullPointer
    | some q => (addQuerySubMessage q d.ptype mtype).map (some ·, d.depth)
  else if mtype = msgTypeBlockStart then
    match d.query with
    | none => .ok (some (.single initQuery), d.depth + 1)
    | some q => (addQuerySubMessage q d.ptype mtype).map (some ·, d.depth + 1)
  else if mtype = msgTypeBlockEnd then
    match d.query with
    | none => .error .nullPointer
    | some q => .ok (some (q.parent?.getD q), d.depth - 1)
  else .ok (d.query, d.depth)

/-- Store the tokens of a line at the pointer. -/
def storeTokens (tokens : List Text) : Option (Cursor QNode) → Except Fault (Option (Cursor QNode))
  | some q => .ok (some (q.setLabel (q.label.setTokens tokens)))
  | none => if tokens = [] then .ok none else .error .nullPointer

/-- One line: the decoder after it, and the query it publishes, if it does. -/
def Decoder.decodeLine (d : Decoder) (line : Text) : Except Fault (Decoder × Option Query) := do
  if maxMessageLen ≤ line.length then throw .bufferOverflow
  let mtype := lineType line
  let (query, depth) ← d.move mtype
  let query ← storeTokens (lineTokens line) query
  if depth = 0 then
    match query with
    | none => throw .nullPointer
    | some q => return (⟨none, depth, mtype⟩, some q.tree)
  else return (⟨query, depth, mtype⟩, none)

/-- A sequence of lines: the decoder after them, and the queries they publish. -/
def Decoder.decodeLines (d : Decoder) : List Text → Except Fault (Decoder × List Query)
  | [] => .ok (d, [])
  | l :: ls => do
    let (d, q) ← d.decodeLine l
    let (d, qs) ← d.decodeLines ls
    return (d, q.toList ++ qs)

end Epdg

import VoWiFi.Lib.CString
import VoWiFi.Lib.RoseTree

/-!
# Testcases and how the controller sends them

A testcase is a list of messages; a message is a tree whose inner nodes are payloads and whose
leaves are attributes. The controller builds the trees from JSON objects (`Testcases.java`) and
writes a message to the ePDG or to the IMS line by line (`Controller.sendMessage`): one line for
each node and, for a message or a payload, one more line that closes it.

Every Java object holds an iterator over its own children, made once by the constructor, and sending
takes the children from it. The position of that iterator is part of the state of the node.
-/

namespace Control

inductive TestcaseType where
  | message
  | payload
  | attribute
  deriving DecidableEq, Repr

inductive ValueType where
  | none
  | integer
  | uint8
  | uint8h
  | uint16
  | uint16h
  | uint32
  | uint32h
  | uint64
  | uint64h
  | string
  deriving DecidableEq, Repr

/-- The number that stands for a value type in a line. -/
def ValueType.getValueTypeAsInteger : ValueType → ℕ
  | none => 1
  | integer => 2
  | uint8 => 3
  | uint8h => 4
  | uint16 => 5
  | uint16h => 6
  | uint32 => 7
  | uint32h => 8
  | uint64 => 9
  | uint64h => 10
  | string => 11

/-- The texts of the key `type` that name a value type. -/
def valueTypes : List (Text × ValueType) :=
  [("integer".toList, .integer), ("uint8".toList, .uint8), ("uint8h".toList, .uint8h),
    ("uint16".toList, .uint16), ("uint16h".toList, .uint16h), ("uint32".toList, .uint32),
    ("uint32h".toList, .uint32h), ("uint64".toList, .uint64), ("uint64h".toList, .uint64h),
    ("string".toList, .string)]

/-- The value type of an object with a value: a string unless the key `type` says otherwise. -/
def ValueType.ofKey (type : Option Text) : ValueType :=
  (type.bind fun t => valueTypes.lookup t).getD .string

/-- A JSON object that describes a testcase node: the keys the constructor reads, `none` for a
missing key. -/
inductive TestcaseObj where
  /-- The object with the given keys. -/
  | obj (name op type value : Option Text) (sub : Option (List TestcaseObj))

/-- The fields of a `Testcase`, its children apart. -/
structure Item where
  /-- Message, payload or attribute. -/
  type : TestcaseType
  /-- The name; `none` is a null reference. -/
  name : Option Text
  op : Option Text
  /-- The value and its type, which are set together. -/
  value : Option (ValueType × Text)
  /-- How many children the iterator has handed out; `none` when there is no iterator. -/
  iter : Option ℕ
  deriving DecidableEq, Repr

/-- A `Testcase`. The field `sub` is null exactly when the node has no children: the constructor
only makes the list when it adds the first child. -/
abbrev Testcase := RoseTree Item

mutual

/-- The constructor of `Testcase`, `type` being null for the children. An object whose key `sub`
holds an empty array leaves `sub` null and then asks it for an iterator. -/
def Testcase.ofObj (type : Option TestcaseType) : TestcaseObj → Option Testcase
  | .obj name op vt value none =>
    some (.node ⟨type.getD .attribute, name, op, value.map (ValueType.ofKey vt, ·), none⟩ [])
  | .obj _ _ _ _ (some []) => none
  | .obj name op vt value (some (o :: os)) => do
    let t ← Testcase.ofObj none o
    let ts ← Testcase.ofObjs os
    some (.node ⟨type.getD .payload, name, op, value.map (ValueType.ofKey vt, ·), some 0⟩ (t :: ts))

/-- The children of a `Testcase`. -/
def Testcase.ofObjs : List TestcaseObj → Option (List Testcase)
  | [] => some []
  | o :: os => do
    let t ← Testcase.ofObj none o
    let ts ← Testcase.ofObjs os
    some (t :: ts)

end

/-! ## The lines of a message -/

/-- A security parameter index as the controller holds it: the sixteen characters a report line
carries in its place. -/
def Spi := { s : Text // s.length = 16 ∧ '\n' ∉ s }

/-- The SPIs of a message, `none` as long as they are not known. Every node of a message asks the
message itself for them. -/
structure Spis where
  /-- The initiator's SPI. -/
  ispi : Option Spi
  /-- The responder's SPI. -/
  rspi : Option Spi

/-- An SPI in a line. -/
def spiText : Option Spi → Text
  | none => List.replicate 16 '0'
  | some s => s.1

/-- The two SPIs in a line. -/
def Spis.text (s : Spis) : Text := spiText s.ispi ++ spiText s.rspi

/-- A reference appended to a Java string. -/
def javaText (s : Option Text) : Text := s.getD "null".toList

/-- The operator, value type and value of a node as they follow its name. The value is only written
together with an operator. -/
def Item.suffix (it : Item) : Text :=
  match it.op, it.value with
  | none, _ => []
  | some op, none => ':' :: op
  | some op, some (vt, v) =>
    ':' :: op ++ ':' :: Nat.toDigits 10 vt.getValueTypeAsInteger ++ ':' :: v

/-- The first character of the line of a node. -/
def Item.mark (it : Item) : Char := if it.type ≠ .attribute then '2' else '1'

/-- The line of a node. -/
def Item.line (s : Spis) (it : Item) : Text :=
  it.mark :: s.text ++ javaText it.name ++ it.suffix ++ ['\n']

/-- The line that closes a message or a payload. -/
def endLine (s : Spis) : Text := '3' :: s.text ++ ['\n']

/-- The closing line, where there is one. -/
def Item.closing (s : Spis) (it : Item) : List Text :=
  if it.type ≠ .attribute then [endLine s] else []

mutual

/-- `Controller.sendMessage`: the lines that are written, and the testcase with its iterators moved
on. -/
def sendMessage (s : Spis) : Testcase → List Text × Testcase
  | .node it ts =>
    match it.iter with
    | none => (it.line s :: it.closing s, .node it ts)
    | some k =>
      let r := sendSub s k ts
      (it.line s :: r.1 ++ it.closing s, .node { it with iter := some (max k ts.length) } r.2)

/-- The loop over the children that the iterator has not handed out yet, `k` being the number of
those it has. -/
def sendSub (s : Spis) : ℕ → List Testcase → List Text × List Testcase
  | _, [] => ([], [])
  | k + 1, t :: ts =>
    let r := sendSub s k ts
    (r.1, t :: r.2)
  | 0, t :: ts =>
    let q := sendMessage s t
    let r := sendSub s 0 ts
    (q.1 ++ r.1, q.2 :: r.2)

end

mutual

/-- `Testcase.resetIterator`: put the iterators of a node and of everything below it back. -/
def Testcase.resetIterator : Testcase → Testcase
  | .node it ts =>
    .node (if ts = [] then it else { it with iter := some 0 }) (Testcase.resetIterators ts)

/-- The same for the children of a node. -/
def Testcase.resetIterators : List Testcase → List Testcase
  | [] => []
  | t :: ts => t.resetIterator :: Testcase.resetIterators ts

end

/-! ## Executing a testcase -/

/-- The peers that receive messages. -/
inductive Peer where
  | epdg
  | ims
  deriving DecidableEq, Repr

/-- A message with the name of its receiver. -/
structure Message where
  /-- The receiver the JSON object names. -/
  receiver : Text
  testcase : Testcase

/-- The peer a step of the controller sends a message to. For any other receiver it turns VoWiFi on
at the phone instead and does not send the message. -/
def Message.peer (m : Message) : Option Peer :=
  if "epdg".toList <+: m.receiver then some .epdg
  else if "ims".toList <+: m.receiver then some .ims
  else none

/-- Send a message to its peer. -/
def Message.send (s : Spis) (m : Message) : List (Peer × Text) × Message :=
  match m.peer with
  | none => ([], m)
  | some p =>
    let r := sendMessage s m.testcase
    (r.1.map (p, ·), { m with testcase := r.2 })

/-- A `Testcases` object: the messages and how many of them its iterator has handed out. -/
structure Testcases where
  messages : List Message
  /-- The position of the iterator. -/
  iter : ℕ

/-- `parseTestcases`: a message for each element of the array. -/
def parseTestcases : List (Text × TestcaseObj) → Option (List Message)
  | [] => some []
  | (receiver, o) :: os => do
    let t ← Testcase.ofObj (some .message) o
    let ms ← parseTestcases os
    some (⟨receiver, t⟩ :: ms)

/-- The constructor of `Testcases`, from the array under the key `testcase`. It asks the first
message for its identifier, so that there has to be one. -/
def Testcases.ofJson (os : List (Text × TestcaseObj)) : Option Testcases :=
  if os = [] then none else (parseTestcases os).map (⟨·, 0⟩)

/-- `Testcases.resetIterator`, which does not touch the messages. -/
def Testcases.resetIterator (t : Testcases) : Testcases := { t with iter := 0 }

/-- Send messages in order, the `i`-th message of the testcase with the SPIs `spi i`. -/
def sendAll (spi : ℕ → Spis) (i : ℕ) : List Message → List (Peer × Text) × List Message
  | [] => ([], [])
  | m :: ms =>
    let q := m.send (spi i)
    let r := sendAll spi (i + 1) ms
    (q.1 ++ r.1, q.2 :: r.2)

/-- Send every message the iterator still has. -/
def Testcases.execute (spi : ℕ → Spis) (t : Testcases) : List (Peer × Text) × Testcases :=
  let r := sendAll spi t.iter (t.messages.drop t.iter)
  (r.1, ⟨t.messages.take t.iter ++ r.2, max t.iter t.messages.length⟩)

/-- The testcase after `n` executions, each one followed by a reset. -/
def Testcases.rerun (spi : ℕ → Spis) (t : Testcases) : ℕ → Testcases
  | 0 => t
  | n + 1 => ((t.rerun spi n).execute spi).2.resetIterator

/-- The lines that an execution writes after `n` executions and resets. -/
def Testcases.linesOfRun (spi : ℕ → Spis) (t : Testcases) (n : ℕ) : List (Peer × Text) :=
  ((t.rerun spi n).execute spi).1

end Control

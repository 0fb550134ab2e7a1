import VoWiFi.Control.Testcase
import VoWiFi.Epdg.Decoder

/-!
# The query a message of a testcase asks for

The abstract side of the line codec: the query tree that a message of a testcase means, node by
node, and the conditions under which the lines of the controller carry it to the ePDG.
-/

namespace Epdg

open Control

/-- A name, operator or value as testcases use them: not empty, and without the two characters that
structure the stream of lines. -/
def PlainText (s : Text) : Prop := s ≠ [] ∧ ':' ∉ s ∧ '\n' ∉ s

instance (s : Text) : Decidable (PlainText s) := inferInstanceAs (Decidable (_ ∧ _))

/-- A node whose texts are plain and that has a value only together with an operator. -/
structure WellFormed (it : Item) : Prop where
  name : ∃ n, it.name = some n ∧ PlainText n
  op : ∀ o, it.op = some o → PlainText o
  /-- The value is plain and comes with an operator. -/
  value : ∀ vt v, it.value = some (vt, v) → PlainText v ∧ it.op ≠ none

instance (it : Item) : Decidable (WellFormed it) :=
  decidable_of_iff ((∃ n ∈ it.name, PlainText n) ∧ (∀ o ∈ it.op, PlainText o) ∧
      ∀ v ∈ it.value, PlainText v.2 ∧ it.op ≠ none)
    ⟨fun h => ⟨h.1, h.2.1, fun vt v => h.2.2 (vt, v)⟩,
      fun h => ⟨h.name, h.op, fun v => h.value v.1 v.2⟩⟩

/-- The operator a testcase asks for. -/
def requestedOp (op : Option Text) : OpType :=
  if op = some updateWord then .update
  else if op = some dropWord then .drop
  else .notSet

/-- The node of a query that a node of a testcase means. -/
def queryOf (it : Item) : QNode :=
  { name := it.name
    op := requestedOp it.op
    vtype := (it.value.map fun v => (v.1.getValueTypeAsInteger : ℤ)).getD 0
    value := it.value.map Prod.snd }

/-- An operator that the decoder takes for what it is: the two known words, or a text that begins
with neither of them. -/
def PlainOp (o : Text) : Prop :=
  (updateWord <+: o → o = updateWord) ∧ (dropWord <+: o → o = dropWord)

instance (o : Text) : Decidable (PlainOp o) := inferInstanceAs (Decidable (_ ∧ _))

/-- A node whose texts survive being read as C strings. -/
structure Readable (it : Item) : Prop where
  /-- No NUL byte in the name. -/
  name : ∀ n, it.name = some n → '\x00' ∉ n
  /-- No other operator looks like one of the two known ones. -/
  op : ∀ o, it.op = some o → PlainOp o
  /-- No NUL byte in a value, nor in the operator in front of it. -/
  value : ∀ o vt v, it.op = some o → it.value = some (vt, v) → '\x00' ∉ o ∧ '\x00' ∉ v

instance (it : Item) : Decidable (Readable it) :=
  decidable_of_iff ((∀ n ∈ it.name, '\x00' ∉ n) ∧ (∀ o ∈ it.op, PlainOp o) ∧
      ∀ o ∈ it.op, ∀ v ∈ it.value, '\x00' ∉ o ∧ '\x00' ∉ v.2)
    ⟨fun h => ⟨h.1, h.2.1, fun o vt v ho hv => h.2.2 o ho (vt, v) hv⟩,
      fun h => ⟨h.name, h.op, fun o ho v hv => h.value o v.1 v.2 ho hv⟩⟩

/-- A message or payload whose children are all attributes, or that has one child only. A tree of
such nodes is a chain of blocks with attributes at its end. -/
def ChainNode (t : Testcase) : Prop :=
  (∀ u ∈ t.sub, u.label.type = .attribute) ∨ t.sub.length = 1

instance (t : Testcase) : Decidable (ChainNode t) := inferInstanceAs (Decidable (_ ∨ _))

/-- The lines of a message that the decoder reads correctly: every one fits into the buffer with the
byte that ends it, the fields survive, and the tree is a chain. -/
structure Transparent (s : Spis) (t : Testcase) : Prop where
  chain : t.Every ChainNode
  readable : t.All Readable
  fits : t.All fun it => (it.line s).length < maxMessageLen

end Epdg

import VoWiFi.Epdg.QuerySpec

/-!
# Publications of the listener

The lines of several messages reach the listener as one stream of bytes. Each message should be
published once, when its last line has been read, and leave the decoder as it found it, whatever the
shape of its tree.
-/

namespace Epdg

open Control

/-- A sequence of lines: the decoder after them, and for each line what it publishes. -/
def Decoder.decodeEach (d : Decoder) : List Text → Except Fault (Decoder × List (Option Query))
  | [] => .ok (d, [])
  | l :: ls => do
    let (d, q) ← d.decodeLine l
    let (d, qs) ← d.decodeEach ls
    return (d, q :: qs)

/-- The texts of a node of a testcase: a name, and no newline in the operator and the value. -/
structure LineTexts (it : Item) : Prop where
  name : ∃ n, it.name = some n ∧ PlainText n
  op : ∀ o ∈ it.op, '\n' ∉ o
  value : ∀ v ∈ it.value, '\n' ∉ v.2

instance (it : Item) : Decidable (LineTexts it) :=
  decidable_of_iff ((∃ n ∈ it.name, PlainText n) ∧ (∀ o ∈ it.op, '\n' ∉ o) ∧
      ∀ v ∈ it.value, '\n' ∉ v.2)
    ⟨fun h => ⟨h.1, h.2.1, h.2.2⟩, fun h => ⟨h.name, h.op, h.value⟩⟩

/-- A message as it is sent: a tree of any shape, with its iterators in any position. -/
structure SentMessage where
  spis : Spis
  testcase : Testcase
  root : testcase.label.type = .message
  texts : testcase.All LineTexts

/-- The lines of a message. -/
def SentMessage.lines (m : SentMessage) : List Text := (sendMessage m.spis m.testcase).1

/-- What the lines of a message publish: a query at the last one, and nothing before. -/
def SentMessage.publications (m : SentMessage) (q : Query) : List (Option Query) :=
  List.replicate (m.lines.length - 1) none ++ [some q]

/-- The message alone publishes a query and leaves the decoder empty. -/
def SentMessage.Publishes (m : SentMessage) (q : Query) : Prop :=
  ∃ p, Decoder.init.decodeEach (Text.cutLines m.lines.flatten) =
    .ok (⟨none, 0, p⟩, m.publications q)

/-- One publication for each of several messages: each publishes a query of its own, and the stream of
their lines publishes the same queries at the same places. -/
def OncePerMessage (ms : List SentMessage) : Prop :=
  ∃ qs, List.Forall₂ SentMessage.Publishes ms qs ∧
    ∃ p, Decoder.init.decodeEach (Text.cutLines (ms.flatMap SentMessage.lines).flatten) =
      .ok (⟨none, 0, p⟩, (ms.zip qs).flatMap fun mq => mq.1.publications mq.2)

end Epdg

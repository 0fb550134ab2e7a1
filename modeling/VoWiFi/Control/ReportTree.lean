import VoWiFi.Control.MessageLog

/-!
# Reports as trees

What the lines of a report stand for: a tree of named blocks and attributes. The lines are those the
ePDG and the IMS server write, with any SPIs in them; the `MessageLog` is the one the controller should
build.
-/

namespace Control

/-- The two SPIs of a line. -/
structure LineSpis where
  ispi : Text
  rspi : Text
  length_ispi : ispi.length = 16
  length_rspi : rspi.length = 16
  line_ispi : Text.OneLine ispi
  line_rspi : Text.OneLine rspi

/-- A name or a value in a line: not empty, without a colon and without a line end. -/
def Word := { s : Text // s ≠ [] ∧ ':' ∉ s ∧ Text.OneLine s }

/-- A tree of reports. -/
inductive ReportTree where
  /-- An attribute, with or without a value. -/
  | attribute (spis : LineSpis) (name : Word) (value : Option (ValueType × Word))
  /-- A block, with the SPIs of its first and its last line. -/
  | block (spis : LineSpis) (name : Word) (sub : List ReportTree) (last : LineSpis)

/-- A line: the byte for its type, the SPIs and a text. -/
def reportLine (type : Char) (spis : LineSpis) (text : Text) : Text :=
  type :: spis.ispi ++ spis.rspi ++ text

/-- The text of a line for an attribute. -/
def attributeText (name : Word) : Option (ValueType × Word) → Text
  | none => name.1
  | some (vtype, value) =>
    name.1 ++ ':' :: Nat.toDigits 10 vtype.getValueTypeAsInteger ++ ':' :: value.1

mutual

/-- The lines of a tree. -/
def ReportTree.lines : ReportTree → List Text
  | .attribute spis name value => [reportLine '\x01' spis (attributeText name value)]
  | .block spis name sub last =>
    reportLine '\x02' spis name.1 :: ReportTree.linesAll sub ++ [reportLine '\x03' last []]

/-- The lines of a list of trees. -/
def ReportTree.linesAll : List ReportTree → List Text
  | [] => []
  | t :: ts => t.lines ++ ReportTree.linesAll ts

end

mutual

/-- The `MessageLog` for a tree, given the type for a block at its root. -/
def ReportTree.log (type : MessageLogType) : ReportTree → MessageLog
  | .attribute _ name none => .node ⟨.attribute, some name.1, .none, none⟩ []
  | .attribute _ name (some (vtype, value)) =>
    .node ⟨.attribute, some name.1, vtype, some value.1⟩ []
  | .block _ name sub _ => .node ⟨type, some name.1, .none, none⟩ (ReportTree.logAll sub)

/-- The children of a `MessageLog`. -/
def ReportTree.logAll : List ReportTree → List MessageLog
  | [] => []
  | t :: ts => t.log .payload :: ReportTree.logAll ts

end

/-- Lines that carry a tree: its own lines in order, with any lines of up to sixteen characters in front
of each of them. -/
structure Carries (ls : List Text) (t : ReportTree) : Prop where
  reports : ls.filter isReport = t.lines
  last : ∀ l ∈ ls.getLast?, isReport l
  oneLine : ∀ l ∈ ls, Text.OneLine l

end Control

import VoWiFi.Control.Testcase

/-!
# Loading a file of testcases

`Controller.main` makes a `Testcases` object for every entry of the array under the key `testcases`. An
exception in one of the constructors is caught outside the loop, so that it ends the loading: the
testcases before that entry are run, and those behind it are not.

What a file describes is said with trees of names, operators and value texts. The types of the nodes
follow from their places: the nodes on top are messages, those below are payloads if they have children
and attributes if they do not.
-/

namespace Control

/-- The loop of `main` over the entries of a file. -/
def loadTestcases : List (List (Text × TestcaseObj)) → List Testcases
  | [] => []
  | tc :: tcs =>
    match Testcases.ofJson tc with
    | none => []
    | some t => t :: loadTestcases tcs

/-- What is kept of a node: its type, name, operator and the text of its value. -/
structure NodeTexts where
  type : TestcaseType
  name : Option Text
  op : Option Text
  value : Option Text
  deriving DecidableEq, Repr

/-- The texts of a node of a testcase. -/
def Item.texts (it : Item) : NodeTexts := ⟨it.type, it.name, it.op, it.value.map Prod.snd⟩

/-- The objects in the array under the key `sub`. -/
def TestcaseObj.children : TestcaseObj → List TestcaseObj
  | .obj _ _ _ _ sub => sub.getD []

/-- The type of a node that is not a message. -/
def TestcaseObj.childType (o : TestcaseObj) : TestcaseType :=
  if o.children.isEmpty then .attribute else .payload

mutual

/-- The tree that an object describes, given the type of its root. -/
def TestcaseObj.tree (type : TestcaseType) : TestcaseObj → RoseTree NodeTexts
  | .obj name op _ value none => .node ⟨type, name, op, value⟩ []
  | .obj name op _ value (some os) => .node ⟨type, name, op, value⟩ (TestcaseObj.trees os)

/-- The trees below a node. -/
def TestcaseObj.trees : List TestcaseObj → List (RoseTree NodeTexts)
  | [] => []
  | o :: os => o.tree o.childType :: TestcaseObj.trees os

end

/-- The receivers and trees of the messages of a testcase. -/
def Testcases.trees (t : Testcases) : List (Text × RoseTree NodeTexts) :=
  t.messages.map fun m => (m.receiver, m.testcase.map Item.texts)

/-- The receivers and trees of the messages that an entry of a file describes. -/
def describedTrees (os : List (Text × TestcaseObj)) : List (Text × RoseTree NodeTexts) :=
  os.map fun o => (o.1, o.2.tree .message)

/-- A file is loaded as it is: the constructor succeeds for every entry and builds the trees the entry
describes, and there is one testcase for each entry, in the same order. -/
structure LoadsAsIs (file : List (List (Text × TestcaseObj))) : Prop where
  entries : ∀ tc ∈ file, ∃ t, Testcases.ofJson tc = some t ∧ t.trees = describedTrees tc
  loaded : (loadTestcases file).map Testcases.trees = file.map describedTrees

mutual

/-- No array under a key `sub` is empty. -/
def TestcaseObj.SubsFilled : TestcaseObj → Prop
  | .obj _ _ _ _ none => True
  | .obj _ _ _ _ (some os) => os ≠ [] ∧ TestcaseObj.AllFilled os

/-- The same for some objects. -/
def TestcaseObj.AllFilled : List TestcaseObj → Prop
  | [] => True
  | o :: os => o.SubsFilled ∧ TestcaseObj.AllFilled os

end

end Control

import VoWiFi.Lib.TreePath
import VoWiFi.Scripts.PropertyDoc

/-!
# Placeholders and their positions

A placeholder of a property file has a place in the tree of the file: the testcase it is in, and the node
of the testcase whose value it stands for. `update_values` knows nothing of this place. It has a name that
was noted for the placeholder, and looks it up in every testcase.
-/

namespace Scripts

open RoseTree (getList pathList modifyAtList)

/-! ## The place of a placeholder -/

/-- The key under which an object holds the objects of the next level. Levels 0 and 1 are those of the file
and of its testcases, the others are those of nodes. -/
def arrayKey : ℕ → Text
  | 0 => "testcases".toList
  | 1 => "testcase".toList
  | _ => "sub".toList

def Members.has (key : Text) : Members → Bool
  | .nil _ => false
  | .member _ k _ _ rest => k.name = key || rest.has key
  | .value _ _ _ _ rest => key = "value".toList || rest.has key

mutual

/-- The placeholders in an object, each with the way down to its node. If an object has a key more than
once, the last one counts. -/
def Doc.holes (level : ℕ) : Doc → List (List ℕ × Placeholder)
  | .obj members => members.holes level
  | _ => []

def Doc.itemHoles (level : ℕ) : Doc → List (List ℕ × Placeholder)
  | .arr items => items.holes level 0
  | _ => []

def Items.holes (level i : ℕ) : Items → List (List ℕ × Placeholder)
  | .nil _ => []
  | .cons _ d _ rest => (d.holes level).map (fun h => (i :: h.1, h.2)) ++ rest.holes level (i + 1)

def Members.holes (level : ℕ) : Members → List (List ℕ × Placeholder)
  | .nil _ => []
  | .member _ key d _ rest =>
    (if key.name = arrayKey level ∧ rest.has key.name = false then d.itemHoles (level + 1) else []) ++
      rest.holes level
  | .value _ _ p _ rest =>
    (if 2 ≤ level ∧ rest.has "value".toList = false then [([], p)] else []) ++ rest.holes level

end

/-- A node of a property file: the index of its testcase, its position in it, and its keys. -/
structure Node where
  index : ℕ
  pos : ℕ × List ℕ
  testcase : List Obj
  fields : Fields

/-- The node that the way down from the file leads to. -/
def Property.node? (p : Property) : List ℕ → Option Node
  | i :: j :: path => do
    let t ← p.testcases[i]?
    let o ← getList (j, path) t
    return ⟨i, (j, path), t, o⟩
  | _ => none

/-! ## Copies of a testcase -/

/-- The position of the object that is looked up by a name. -/
def targetPos (target : Text) (testcase : List Obj) : Option (ℕ × List ℕ) :=
  pathList (fun o : Fields => decide (o.name = target)) testcase

/-- The copies of a testcase for some updates, numbered through. -/
def copies (p : Property) (t : List Obj) (us : List (Text × Value)) (tnum : ℕ) : List Generated :=
  (us.zipIdx tnum).filterMap fun u => mutate p u.2 t u.1.1 (.update u.1.2)

/-- The copies that `update_values` makes, testcase by testcase. -/
def updateCopies (p : Property) (tnum : ℕ) : List (List Obj) → List (List Generated)
  | [] => []
  | t :: ts => copies p t (updates p t) tnum :: updateCopies p (tnum + (updates p t).length) ts

/-- The node has a value and is to be updated, and all other nodes are as before, apart from the identifier of
the first message. -/
def Generated.hits (g : Generated) (n : Node) (v : Value) : Bool :=
  setId [] g.testcase = setId [] (modifyAtList (Mutation.update v).apply n.pos n.testcase)

/-- Each placeholder has a node with one of its default values. If the node can be updated, exactly one copy
of the testcase has it updated to an adversarial value of the placeholder, for each of these values. -/
def Property.HitsOwn (p : Property) (d : Doc) : Prop :=
  ∀ hole ∈ d.holes 0, ∃ n ∈ p.node? hole.1, n.fields.value ∈ hole.2.defaults.map some ∧
    (n.fields.lists "update".toList = true → ∀ v ∈ hole.2.adversarial,
      ((updateCopies p 1 p.testcases).getD n.index []).countP (·.hits n v) = 1)

instance (p : Property) (d : Doc) : Decidable (p.HitsOwn d) := List.decidableBAll _ _

/-- A value is noted for the name of a node, which is noted once, and the name is found at the node. -/
def Property.Noted (p : Property) (n : Node) (v : Value) : Prop :=
  p.targets.count n.fields.name = 1 ∧ targetPos n.fields.name n.testcase = some n.pos ∧
    v ∈ p.possibleValues n.fields.name ∧ v ∉ p.correctValues n.fields.name

instance (p : Property) (n : Node) (v : Value) : Decidable (p.Noted n v) := instDecidableAnd

end Scripts

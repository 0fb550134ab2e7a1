import VoWiFi.Control.Testcase
import VoWiFi.Lib.JavaString
import VoWiFi.Lib.TreeSearch

/-!
# Generating testcases

`generate_testcases.py` makes testcases from property files. A property file holds testcases whose
attributes carry a list of allowed operators, and for some attributes the values they may take
(`VALUE`). `attribute_level_manipulation` makes copies of these testcases in which one attribute is
given another value (`update_values`) or dropped (`drop_payloads`). The controller reads what is
written (`Testcases.java`).
-/

namespace Scripts

open Control (TestcaseObj)

/-- The value of an attribute. -/
inductive Value where
  | int (n : ℤ)
  | str (s : Text)
  deriving DecidableEq, Repr

/-- The text of a value, as `format` writes it and as the controller reads it. -/
def Value.text : Value → Text
  | int n => (toString n).toList
  | str s => s

/-- What the key `op` holds: the allowed operators, or one operator. -/
inductive Op where
  | list (ops : List Text)
  | single (op : Text)
  deriving DecidableEq, Repr

/-- The keys of an object. If the object has no children, its key `sub` is missing or holds an empty
array. -/
structure Fields where
  name : Text
  id : Option Text
  op : Option Op
  type : Option Text
  value : Option Value
  emptySub : Bool
  deriving DecidableEq, Repr

/-- A JSON object: a message, a payload or an attribute, with those below it. -/
abbrev Obj := RoseTree Fields

/-! ## What the controller reads -/

/-- The operator of an object, which the constructor casts to a string. -/
def castOp : Option Op → Option (Option Text)
  | none => some none
  | some (.single op) => some (some op)
  | some (.list _) => none

mutual

/-- The object with its keys cast to the types that the constructor of `Testcase` expects. -/
def Obj.cast : Obj → Option TestcaseObj
  | .node o sub => do
    let op ← castOp o.op
    let objs ← castAll sub
    return .obj (some o.name) op o.type (o.value.map Value.text)
      (if sub.isEmpty && !o.emptySub then none else some objs)

/-- The objects of an array. -/
def castAll : List Obj → Option (List TestcaseObj)
  | [] => some []
  | o :: os => do
    let o ← Obj.cast o
    let os ← castAll os
    return o :: os

end

/-- The constructor of `Testcase` accepts a message. -/
def Obj.Accepted (o : Obj) : Prop :=
  ((Obj.cast o).bind (Control.Testcase.ofObj (some .message))).isSome = true

/-! ## Attributes -/

/-- `_find_target`: the first object of a name, in depth. -/
def findTarget (target : Text) (testcase : List Obj) : Option Fields :=
  RoseTree.findList (·.name = target) testcase

/-- Change the object that `_find_target` returns. -/
def changeTarget (target : Text) (f : Fields → Fields) (testcase : List Obj) : Option (List Obj) :=
  RoseTree.modifyList (·.name = target) f testcase

/-- An operator is in what the key `op` holds; for one operator this is a search in its text. -/
def Fields.allows (o : Fields) (op : Text) : Bool :=
  match o.op with
  | none => false
  | some (.list ops) => op ∈ ops
  | some (.single s) => Text.contains s op

/-- An operator is in a list under the key `op`. -/
def Fields.lists (o : Fields) (op : Text) : Bool :=
  match o.op with
  | some (.list ops) => op ∈ ops
  | _ => false

/-- Set the key `id` of the first message. -/
def setId (id : Text) : List Obj → List Obj
  | [] => []
  | .node o sub :: os => .node { o with id := some id } sub :: os

mutual

/-- The targets in the last message of an array and below it; an empty array has no last element. -/
def Obj.targets : Obj → Option (List Text)
  | .node o sub => do
    let ret ← if sub.isEmpty && !o.emptySub then some [] else makeTargets sub
    return ret ++ if o.value.isSome then [o.name] else []

def makeTargets : List Obj → Option (List Text)
  | [] => none
  | [o] => Obj.targets o
  | _ :: o :: os => makeTargets (o :: os)

end

/-! ## Mutations -/

/-- The messages testcases are generated for. -/
inductive Message where
  | ikeSaInitResponse
  | ikeAuth1Response
  | ikeAuth2Response
  | ikeAuth3Response
  | unauthorized401
  | ok200
  deriving DecidableEq, Repr

/-- A property file. -/
structure Property where
  id : Text
  message : Message
  /-- The arrays under the key `testcase`. -/
  testcases : List (List Obj)
  targets : List Text
  possibleValues : Text → List Value
  correctValues : Text → List Value

/-- What is done to an attribute. -/
inductive Mutation where
  | update (value : Value)
  | drop
  deriving DecidableEq, Repr

/-- The operator of a mutation. -/
def Mutation.op : Mutation → Text
  | update _ => "update".toList
  | drop => "drop".toList

/-- The keys of the attribute afterwards. -/
def Mutation.apply (m : Mutation) (o : Fields) : Fields :=
  match m with
  | update value => { o with value := some value, op := some (.single m.op) }
  | drop => { o with op := some (.single m.op) }

/-- The identifier of a generated testcase. -/
def Mutation.id (m : Mutation) (p : Property) (tnum : ℕ) : Text :=
  match m with
  | update value => "update-".toList ++ p.id ++ ['-'] ++ value.text ++ ['-'] ++ Nat.toDigits 10 tnum
  | drop => "drop-".toList ++ p.id ++ ['-'] ++ Nat.toDigits 10 tnum

/-- A generated testcase, with the attribute that was to be mutated and what was to be done. -/
structure Generated where
  target : Text
  mutation : Mutation
  testcase : List Obj

/-- A copy of a testcase with one attribute mutated. -/
def mutate (p : Property) (tnum : ℕ) (testcase : List Obj) (target : Text) (m : Mutation) :
    Option Generated :=
  (changeTarget target m.apply testcase).map fun t => ⟨target, m, setId (m.id p tnum) t⟩

/-- The attribute of a name in a testcase, if it is there and allows an operator. -/
def allowedTarget (op : Text) (testcase : List Obj) (target : Text) : Bool :=
  (findTarget target testcase).any (·.allows op)

/-- The updates that `update_values` makes of a testcase. -/
def updates (p : Property) (testcase : List Obj) : List (Text × Value) :=
  (p.targets.filter (allowedTarget "update".toList testcase)).flatMap fun target =>
    ((p.possibleValues target).filter (· ∉ p.correctValues target)).map (target, ·)

/-- `update_values` for one property file. The copies are numbered through. -/
def updateValues (p : Property) : List Generated :=
  ((p.testcases.flatMap fun t => (updates p t).map (t, ·)).zipIdx 1).filterMap
    fun ((testcase, target, value), tnum) => mutate p tnum testcase target (.update value)

/-- The loop of `drop_payloads` over the targets of a testcase. The operators of an attribute are
removed from the testcase itself once a copy without the attribute has been made. -/
def dropTargets (p : Property) (tnum : ℕ) (testcase : List Obj) : List Text → List Generated × ℕ
  | [] => ([], tnum)
  | target :: targets =>
    if allowedTarget "drop".toList testcase target then
      let popped := (changeTarget target (fun o => { o with op := none }) testcase).getD testcase
      let r := dropTargets p (tnum + 1) popped targets
      ((mutate p (tnum + 1) testcase target .drop).toList ++ r.1, r.2)
    else dropTargets p tnum testcase targets

/-- The loop of `drop_payloads` over the testcases of a property file. -/
def dropTestcases (p : Property) (tnum : ℕ) : List (List Obj) → Option (List Generated)
  | [] => some []
  | testcase :: testcases => do
    let targets ← makeTargets testcase
    let r := dropTargets p tnum testcase targets
    let rest ← dropTestcases p r.2 testcases
    return r.1 ++ rest

/-- `drop_payloads` for one property file. -/
def dropPayloads (p : Property) : Option (List Generated) := dropTestcases p 0 p.testcases

/-- `drop_payloads`, each testcase with the message it is generated for. -/
def dropAll : List Property → Option (List (Message × Generated))
  | [] => some []
  | p :: ptcs => do
    let generated ← dropPayloads p
    let rest ← dropAll ptcs
    return generated.map (p.message, ·) ++ rest

/-- `attribute_level_manipulation`: the testcases for each message, unless an exception is raised. -/
def attributeLevelManipulation (ptcs : List Property) : Option (Message → List Generated) := do
  let drops ← dropAll ptcs
  return fun key =>
    (ptcs.filter (·.message = key)).flatMap updateValues ++
      (drops.filter (·.1 = key)).map (·.2)

/-! ## Single mutations -/

/-- The nodes of a testcase that carry an operator, by their names. -/
def operators (testcase : List Obj) : List (Text × Op) :=
  (RoseTree.nodesList testcase).filterMap fun n => n.1.op.map (n.1.name, ·)

/-- The controller accepts the testcase, and the node that was to be mutated is the only one that
carries an operator, which is a single one. -/
structure Generated.Single (g : Generated) : Prop where
  accepted : ∀ o ∈ g.testcase, Obj.Accepted o
  operators : operators g.testcase = [(g.target, .single g.mutation.op)]

/-- Every generated testcase is a single mutation that the controller accepts. -/
def SingleMutations (ptcs : List Property) : Prop :=
  ∀ generated, attributeLevelManipulation ptcs = some generated →
    ∀ key, ∀ g ∈ generated key, g.Single

/-- Something is generated from a testcase of a property file. -/
def Property.Generates (p : Property) (testcase : List Obj) : Prop :=
  updates p testcase ≠ [] ∨
    ∃ targets ∈ makeTargets testcase, ∃ target ∈ targets,
      allowedTarget "drop".toList testcase target = true

/-- A testcase of a property file has one node with operators, and no array in it is empty. -/
structure Ready (testcase : List Obj) : Prop where
  operators : (operators testcase).length = 1
  arrays : ∀ n ∈ RoseTree.nodesList testcase, n.2 = true → n.1.emptySub = false

end Scripts

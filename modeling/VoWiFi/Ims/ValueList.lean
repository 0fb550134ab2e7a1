import VoWiFi.Ims.ProcessQuery

/-!
# The list of values of a header

A `vlst_t` holds the values of a header as a linked list together with their number, which `init_vlst`
counts. Values are changed and removed by their index or by the name of their attribute; the number is
read by `get_num_of_values_from_kvp` and by `get_value_from_kvp_by_idx`, which trusts it.
-/

namespace Ims

/-- A `vlst_t`. -/
structure Vlst where
  num : ℤ
  /-- The list from `head` on. -/
  vals : List Val
  deriving DecidableEq, Repr

/-- `add_val_to_vlst`, after which `init_vlst` counts the value. -/
def Vlst.addVal (v : Vlst) (val : Val) : Vlst := ⟨v.num + 1, v.vals ++ [val]⟩

/-- What `init_vlst` makes of a header value. -/
def Vlst.parse (value : Text) : Vlst :=
  (tokens value).foldl (fun v t => v.addVal (initVal t.text t.delimiter t.space)) ⟨0, []⟩

def Vlst.getNumOfValues (v : Vlst) : ℤ := v.num

/-- `get_value_from_kvp_by_idx`, with a null pointer for an index that is not below the number. -/
def Vlst.getValueByIdx (v : Vlst) (idx : ℕ) : Except Fault (Option Text) :=
  if v.num ≤ idx then .ok none
  else
    match v.vals[idx]? with
    | none => .error .nullPointer
    | some val => .ok (some (val.val.getD []))

/-- `change_value_from_kvp_by_idx`. The walk to an index right behind the last value ends at the null
pointer, which is left alone. -/
def Vlst.changeValueByIdx (v : Vlst) (idx : ℕ) (value : Text) : Except Fault Vlst :=
  if value = [] then .error .assertion
  else if v.vals.length < idx then .error .nullPointer
  else .ok { v with vals := v.vals.modify idx fun val => { val with val := some value } }

/-- The name of an attribute has the given length, and `strncmp` finds no difference. -/
def sameAttr (attr : Text) (val : Val) : Bool :=
  val.attr.any fun a => a.length = attr.length && Text.cstr a = Text.cstr attr

/-- `change_value_from_kvp_by_name`. -/
def Vlst.changeValueByName (v : Vlst) (attr value : Text) : Except Fault Vlst :=
  if attr = [] ∨ value = [] then .error .assertion
  else .ok { v with
    vals := v.vals.map fun val => if sameAttr attr val then { val with val := some value } else val }

/-- `del_value_from_kvp_by_idx`, which does not count. -/
def Vlst.delValueByIdx (v : Vlst) (idx : ℕ) : Except Fault Vlst :=
  if idx < v.vals.length then .ok { v with vals := v.vals.eraseIdx idx } else .error .nullPointer

/-- `del_value_from_kvp_by_name`, which does not count either. -/
def Vlst.delValueByName (v : Vlst) (attr : Text) : Except Fault Vlst :=
  if attr = [] then .error .assertion
  else if v.vals.any (sameAttr attr) then .ok { v with vals := v.vals.eraseP (sameAttr attr) }
  else .error .nullPointer

/-- The calls that change a list of values. -/
inductive ValueCall where
  | changeByIdx (idx : ℕ) (value : Text)
  | changeByName (attr value : Text)
  | delByIdx (idx : ℕ)
  | delByName (attr : Text)
  deriving DecidableEq, Repr

def Vlst.call (v : Vlst) : ValueCall → Except Fault Vlst
  | .changeByIdx idx value => v.changeValueByIdx idx value
  | .changeByName attr value => v.changeValueByName attr value
  | .delByIdx idx => v.delValueByIdx idx
  | .delByName attr => v.delValueByName attr

/-- A sequence of calls. -/
def Vlst.run (v : Vlst) (calls : List ValueCall) : Except Fault Vlst := calls.foldlM Vlst.call v

/-- The call is about an index or an attribute that exists, and does not set an empty value. -/
def ValueCall.Exists (v : Vlst) : ValueCall → Prop
  | .changeByIdx idx value => idx < v.vals.length ∧ value ≠ []
  | .changeByName attr value => attr ≠ [] ∧ value ≠ [] ∧ v.vals.any (sameAttr attr) = true
  | .delByIdx idx => idx < v.vals.length
  | .delByName attr => attr ≠ [] ∧ v.vals.any (sameAttr attr) = true

/-- Every call of a sequence is about something that exists at that time. -/
def Vlst.AllExist (v : Vlst) : List ValueCall → Prop
  | [] => True
  | c :: cs => c.Exists v ∧ ∀ v', v.call c = .ok v' → v'.AllExist cs

/-- The call removes a value. -/
def ValueCall.isDel : ValueCall → Bool
  | .delByIdx _ | .delByName _ => true
  | _ => false

/-- The number is that of the values, and the values are found by their indices. -/
structure Vlst.Exact (v : Vlst) : Prop where
  num : v.getNumOfValues = v.vals.length
  below : ∀ idx val, v.vals[idx]? = some val → v.getValueByIdx idx = .ok (some (val.val.getD []))
  beyond : ∀ idx, v.vals.length ≤ idx → v.getValueByIdx idx = .ok none

end Ims

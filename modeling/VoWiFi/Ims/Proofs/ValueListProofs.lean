import VoWiFi.Ims.ValueList
import Mathlib.Tactic.Common

/-!
# The number of values of a header

Every call either changes values or removes one, and none of them changes the number. After some calls
the number therefore is that of the values and of the removals together.
-/

namespace Ims

theorem foldl_addVal (ts : List Token) (v : Vlst) :
    ts.foldl (fun v t => v.addVal (initVal t.text t.delimiter t.space)) v =
      ⟨v.num + ts.length, v.vals ++ ts.map fun t => initVal t.text t.delimiter t.space⟩ := by
  induction ts generalizing v with
  | nil => simp
  | cons t ts ih =>
    rw [List.foldl_cons, ih]
    simp only [Vlst.addVal, List.length_cons, List.map_cons, List.append_assoc, List.singleton_append,
      Vlst.mk.injEq, and_true]
    push_cast
    omega

/-- The list that `init_vlst` makes is counted. -/
theorem parse_eq (value : Text) : Vlst.parse value = ⟨(initVlst value).length, initVlst value⟩ := by
  rw [Vlst.parse, foldl_addVal]
  simp [initVlst]

variable {v v' : Vlst} {c : ValueCall}

/-- How many values a call removes. -/
def ValueCall.removed (c : ValueCall) : ℕ := if c.isDel then 1 else 0

/-- A call for something that exists returns, keeps the number, and removes as many values as it
should. -/
theorem call_spec (h : c.Exists v) :
    ∃ v', v.call c = .ok v' ∧ v'.num = v.num ∧ v'.vals.length + c.removed = v.vals.length := by
  cases c with
  | changeByIdx idx value =>
    obtain ⟨hidx, hvalue⟩ := h
    refine ⟨_, (if_neg hvalue).trans (if_neg (by omega)), rfl, ?_⟩
    simp [ValueCall.removed, ValueCall.isDel]
  | changeByName attr value =>
    obtain ⟨hattr, hvalue, -⟩ := h
    refine ⟨_, if_neg (not_or.2 ⟨hattr, hvalue⟩), rfl, ?_⟩
    simp [ValueCall.removed, ValueCall.isDel]
  | delByIdx idx =>
    have hidx : idx < v.vals.length := h
    refine ⟨_, if_pos hidx, rfl, ?_⟩
    simp only [ValueCall.removed, ValueCall.isDel, if_true, List.length_eraseIdx_of_lt hidx]
    omega
  | delByName attr =>
    obtain ⟨hattr, hany⟩ := h
    obtain ⟨val, hval, hsame⟩ := List.any_eq_true.1 hany
    have hpos : 0 < v.vals.length := List.length_pos_of_mem hval
    refine ⟨_, (if_neg hattr).trans (if_pos hany), rfl, ?_⟩
    simp only [ValueCall.removed, ValueCall.isDel, if_true, List.length_eraseP_of_mem hval hsame]
    omega

/-- How many values some calls remove. -/
def removals (calls : List ValueCall) : ℕ := (calls.map ValueCall.removed).sum

/-- A sequence of calls: the number falls behind by the number of removals. -/
theorem run_spec {calls : List ValueCall} (h : v.AllExist calls) :
    ∃ v', v.run calls = .ok v' ∧ v'.num = v.num ∧ v'.vals.length + removals calls = v.vals.length := by
  induction calls generalizing v with
  | nil => exact ⟨v, rfl, rfl, rfl⟩
  | cons c calls ih =>
    obtain ⟨hexists, hrest⟩ := h
    obtain ⟨v₁, hcall, hnum, hlen⟩ := call_spec hexists
    obtain ⟨v', hrun, hnum', hlen'⟩ := ih (hrest v₁ hcall)
    refine ⟨v', ?_, hnum'.trans hnum, ?_⟩
    · rw [Vlst.run, List.foldlM_cons, hcall]
      exact hrun
    · rw [removals, List.map_cons, List.sum_cons, ← removals]
      omega

theorem removals_eq_zero_iff {calls : List ValueCall} :
    removals calls = 0 ↔ ∀ c ∈ calls, c.isDel = false := by
  induction calls with
  | nil => exact iff_of_true rfl (List.forall_mem_nil _)
  | cons c calls ih =>
    rw [removals, List.map_cons, List.sum_cons, ← removals, List.forall_mem_cons, ← ih,
      ValueCall.removed]
    cases c.isDel <;> simp

theorem exact_of_num (h : v.num = v.vals.length) : v.Exact where
  num := h
  below idx val hval := by
    have hidx := (List.getElem?_eq_some_iff.1 hval).1
    rw [Vlst.getValueByIdx, if_neg (by omega), hval]
  beyond idx hidx := by
    rw [Vlst.getValueByIdx, if_pos (by omega)]

/-- After calls for indices and attributes that exist, the number of values is right exactly if none of
the calls has removed a value. -/
theorem exact_run_iff (value : Text) (calls : List ValueCall)
    (h : (Vlst.parse value).AllExist calls) :
    (∃ v, (Vlst.parse value).run calls = .ok v ∧ v.Exact) ↔ ∀ c ∈ calls, c.isDel = false := by
  obtain ⟨v, hrun, hnum, hlen⟩ := run_spec h
  rw [parse_eq] at hnum hlen
  rw [← removals_eq_zero_iff]
  constructor
  · rintro ⟨v', hrun', hexact⟩
    obtain rfl := Except.ok.inj (hrun.symm.trans hrun')
    have hcount : v.num = v.vals.length := hexact.num
    dsimp only at hnum hlen
    omega
  · intro hzero
    refine ⟨v, hrun, exact_of_num ?_⟩
    dsimp only at hnum hlen
    omega

theorem exact_run_change :
    (Vlst.parse "alg=md5;q=1".toList).AllExist [.changeByIdx 1 "2".toList] ∧
      ∃ v, (Vlst.parse "alg=md5;q=1".toList).run [.changeByIdx 1 "2".toList] = .ok v ∧ v.Exact := by
  have hexist : (Vlst.parse "alg=md5;q=1".toList).AllExist [.changeByIdx 1 "2".toList] :=
    ⟨⟨by decide +kernel, by decide⟩, fun _ _ => trivial⟩
  exact ⟨hexist, (exact_run_iff _ _ hexist).2 (by decide)⟩

/-- The only value is removed; the number stays one, and the value with index zero is looked for behind
the end of the list. -/
theorem not_exact_of_del :
    (Vlst.parse "alg=md5".toList).run [.delByIdx 0] = .ok ⟨1, []⟩ ∧
      Vlst.getValueByIdx ⟨1, []⟩ 0 = .error .nullPointer ∧ ¬ Vlst.Exact ⟨1, []⟩ := by
  refine ⟨by decide +kernel, rfl, fun h => ?_⟩
  have hnum := h.num
  cases hnum

/-! ## Calls by name in `process_query` -/

theorem sameAttr_eq {attr : Text} {val : Val} (hattr : '\x00' ∉ attr)
    (hval : ∀ a ∈ val.attr, '\x00' ∉ a) : sameAttr attr val = decide (val.attr = some attr) := by
  rw [sameAttr]
  cases ha : val.attr with
  | none => rfl
  | some a =>
    have hnul := hval a ha
    rw [Option.any_some, Text.cstr_of_nul_free hattr, Text.cstr_of_nul_free hnul, Bool.eq_iff_iff,
      Bool.and_eq_true]
    simp only [decide_eq_true_eq, Option.some.injEq]
    exact ⟨fun h => h.2, fun h => ⟨congrArg List.length h, h⟩⟩

/-- The values after a change by name, for names without NUL bytes. -/
theorem changeValueByName_vals {attr value : Text} (hne : attr ≠ []) (hattr : '\x00' ∉ attr)
    (hvals : ∀ val ∈ v.vals, ∀ a ∈ val.attr, '\x00' ∉ a) :
    (v.changeValueByName attr value).map Vlst.vals = changeValueByName v.vals attr value := by
  rw [Vlst.changeValueByName, changeValueByName]
  by_cases hvalue : value = []
  · rw [if_pos (.inr hvalue), if_pos hvalue]
    rfl
  · rw [if_neg (not_or.2 ⟨hne, hvalue⟩), if_neg hvalue]
    refine congrArg Except.ok (List.map_congr_left fun val hval => ?_)
    rw [sameAttr_eq hattr (hvals val hval)]
    simp only [decide_eq_true_eq]

theorem eraseP_congr {p q : Val → Bool} {vals : List Val} (h : ∀ val ∈ vals, p val = q val) :
    vals.eraseP p = vals.eraseP q := by
  induction vals with
  | nil => rfl
  | cons val vals ih =>
    rw [List.forall_mem_cons] at h
    rw [List.eraseP_cons, List.eraseP_cons, h.1, ih h.2]

/-- The values after a removal by name, for names without NUL bytes. -/
theorem delValueByName_vals {attr : Text} (hne : attr ≠ []) (hattr : '\x00' ∉ attr)
    (hvals : ∀ val ∈ v.vals, ∀ a ∈ val.attr, '\x00' ∉ a) :
    (v.delValueByName attr).map Vlst.vals = delValueByName v.vals attr := by
  have hsame : ∀ val ∈ v.vals, sameAttr attr val = decide (val.attr = some attr) :=
    fun val hval => sameAttr_eq hattr (hvals val hval)
  have hany : v.vals.any (sameAttr attr) = v.vals.any (·.attr = some attr) := by
    rw [Bool.eq_iff_iff, List.any_eq_true, List.any_eq_true]
    exact exists_congr fun val => and_congr_right fun hval => by rw [hsame val hval]
  rw [Vlst.delValueByName, if_neg hne, delValueByName, hany]
  split_ifs
  · exact congrArg Except.ok (eraseP_congr hsame)
  · rfl

end Ims

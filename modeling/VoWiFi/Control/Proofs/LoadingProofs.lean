import VoWiFi.Control.Loading
import VoWiFi.Control.Proofs.TestcaseProofs

/-!
# Which files are loaded as they are

The constructor of `Testcase` makes the list of children when it meets the first child, and asks it for
an iterator whenever there is an array under the key `sub`. An empty array is therefore the one thing
that it does not survive; everything else it copies.
-/

namespace Control

mutual

/-- The constructor copies an object without empty arrays. -/
theorem ofObj_of_filled (type : Option TestcaseType) : ∀ {o : TestcaseObj}, o.SubsFilled →
    ∃ t, Testcase.ofObj type o = some t ∧ t.map Item.texts = o.tree (type.getD o.childType)
  | .obj name op vt value none, _ => by
    refine ⟨_, rfl, ?_⟩
    rw [TestcaseObj.tree, RoseTree.map_node, List.map_nil, Item.texts, Option.map_map]
    simp [TestcaseObj.childType, TestcaseObj.children, Function.comp_def]
  | .obj _ _ _ _ (some []), h => absurd rfl h.1
  | .obj name op vt value (some (o :: os)), h => by
    obtain ⟨-, hall⟩ := h
    obtain ⟨ts, hts, htrees⟩ := ofObjs_of_filled hall
    simp only [Testcase.ofObjs, Option.bind_eq_bind, Option.bind_eq_some_iff, Option.some.injEq] at hts
    obtain ⟨u, hu, us, hus, rfl⟩ := hts
    refine ⟨.node ⟨type.getD .payload, name, op, value.map (ValueType.ofKey vt, ·), some 0⟩ (u :: us),
      by simp [Testcase.ofObj, hu, hus], ?_⟩
    rw [TestcaseObj.tree, RoseTree.map_node, htrees, Item.texts, Option.map_map]
    simp [TestcaseObj.childType, TestcaseObj.children, Function.comp_def]

/-- The same for the children of a node. -/
theorem ofObjs_of_filled : ∀ {os : List TestcaseObj}, TestcaseObj.AllFilled os →
    ∃ ts, Testcase.ofObjs os = some ts ∧ ts.map (RoseTree.map Item.texts) = TestcaseObj.trees os
  | [], _ => ⟨[], rfl, rfl⟩
  | o :: os, h => by
    obtain ⟨ho, hos⟩ := h
    obtain ⟨t, ht, htree⟩ := ofObj_of_filled none ho
    obtain ⟨ts, hts, htrees⟩ := ofObjs_of_filled hos
    refine ⟨t :: ts, by simp [Testcase.ofObjs, ht, hts], ?_⟩
    rw [List.map_cons, htree, htrees, TestcaseObj.trees]
    rfl

end

mutual

/-- An object that the constructor accepts has no empty array. -/
theorem filled_of_ofObj (type : Option TestcaseType) : ∀ {o : TestcaseObj} {t : Testcase},
    Testcase.ofObj type o = some t → o.SubsFilled
  | .obj _ _ _ _ none, _, _ => trivial
  | .obj _ _ _ _ (some []), _, h => by simp [Testcase.ofObj] at h
  | .obj _ _ _ _ (some (o :: os)), _, h => by
    simp only [Testcase.ofObj, Option.bind_eq_bind, Option.bind_eq_some_iff] at h
    obtain ⟨u, hu, us, hus, -⟩ := h
    exact ⟨List.cons_ne_nil _ _, filled_of_ofObj none hu, filled_of_ofObjs hus⟩

/-- The same for the children of a node. -/
theorem filled_of_ofObjs : ∀ {os : List TestcaseObj} {ts : List Testcase},
    Testcase.ofObjs os = some ts → TestcaseObj.AllFilled os
  | [], _, _ => trivial
  | o :: os, _, h => by
    simp only [Testcase.ofObjs, Option.bind_eq_bind, Option.bind_eq_some_iff] at h
    obtain ⟨u, hu, us, hus, -⟩ := h
    exact ⟨filled_of_ofObj none hu, filled_of_ofObjs hus⟩

end

/-! ## Entries -/

theorem parseTestcases_of_filled {os : List (Text × TestcaseObj)} (h : ∀ o ∈ os, o.2.SubsFilled) :
    ∃ ms, parseTestcases os = some ms ∧
      (ms.map fun m => (m.receiver, m.testcase.map Item.texts)) = describedTrees os := by
  induction os with
  | nil => exact ⟨[], rfl, rfl⟩
  | cons o os ih =>
    rw [List.forall_mem_cons] at h
    obtain ⟨t, ht, htree⟩ := ofObj_of_filled (some .message) h.1
    obtain ⟨ms, hms, htrees⟩ := ih h.2
    refine ⟨⟨o.1, t⟩ :: ms, by simp [parseTestcases, ht, hms], ?_⟩
    rw [List.map_cons, htree, htrees]
    rfl

theorem filled_of_parseTestcases {os : List (Text × TestcaseObj)} {ms : List Message}
    (h : parseTestcases os = some ms) : ∀ o ∈ os, o.2.SubsFilled := by
  induction os generalizing ms with
  | nil => exact List.forall_mem_nil _
  | cons o os ih =>
    simp only [parseTestcases, Option.bind_eq_bind, Option.bind_eq_some_iff] at h
    obtain ⟨t, ht, us, hus, -⟩ := h
    exact List.forall_mem_cons.2 ⟨filled_of_ofObj _ ht, ih hus⟩

theorem ofJson_of_filled {os : List (Text × TestcaseObj)} (hne : os ≠ [])
    (h : ∀ o ∈ os, o.2.SubsFilled) :
    ∃ t, Testcases.ofJson os = some t ∧ t.trees = describedTrees os := by
  obtain ⟨ms, hms, htrees⟩ := parseTestcases_of_filled h
  refine ⟨⟨ms, 0⟩, ?_, htrees⟩
  rw [Testcases.ofJson, if_neg (by simpa using hne), hms]
  rfl

theorem filled_of_ofJson {os : List (Text × TestcaseObj)} {t : Testcases}
    (h : Testcases.ofJson os = some t) : ∀ o ∈ os, o.2.SubsFilled := by
  rw [Testcases.ofJson] at h
  split at h
  · cases h
  · obtain ⟨ms, hms, -⟩ := Option.map_eq_some_iff.1 h
    exact filled_of_parseTestcases hms

/-! ## Files -/

theorem loadTestcases_of_entries {file : List (List (Text × TestcaseObj))}
    (h : ∀ tc ∈ file, ∃ t, Testcases.ofJson tc = some t ∧ t.trees = describedTrees tc) :
    (loadTestcases file).map Testcases.trees = file.map describedTrees := by
  induction file with
  | nil => rfl
  | cons tc file ih =>
    rw [List.forall_mem_cons] at h
    obtain ⟨⟨t, ht, htrees⟩, hrest⟩ := h
    rw [loadTestcases, ht, List.map_cons, List.map_cons, htrees, ih hrest]

/-- A file of testcases with at least one message each is loaded as it is exactly if no array under a
key `sub` is empty. -/
theorem loadsAsIs_iff (file : List (List (Text × TestcaseObj))) (hne : ∀ tc ∈ file, tc ≠ []) :
    LoadsAsIs file ↔ ∀ tc ∈ file, ∀ o ∈ tc, o.2.SubsFilled := by
  constructor
  · intro h tc htc
    obtain ⟨t, ht, -⟩ := h.entries tc htc
    exact filled_of_ofJson ht
  · intro h
    have hentries : ∀ tc ∈ file, ∃ t, Testcases.ofJson tc = some t ∧ t.trees = describedTrees tc :=
      fun tc htc => ofJson_of_filled (hne tc htc) (h tc htc)
    exact ⟨hentries, loadTestcases_of_entries hentries⟩

/-- A file with a message that has children, and one that has none. -/
theorem loadsAsIs_sample : (∀ tc ∈ [nestedTestcase, flatTestcase], tc ≠ []) ∧
    LoadsAsIs [nestedTestcase, flatTestcase] := by
  have hne : ∀ tc ∈ [nestedTestcase, flatTestcase], tc ≠ [] := by
    simp [nestedTestcase, flatTestcase]
  refine ⟨hne, (loadsAsIs_iff _ hne).2 ?_⟩
  simp [nestedTestcase, flatTestcase, TestcaseObj.SubsFilled, TestcaseObj.AllFilled]

/-- A message whose list of children is there and empty. -/
def emptySub : List (Text × TestcaseObj) :=
  [("epdg".toList, .obj (some "ike_sa_init_response".toList) none none none (some []))]

/-- The constructor fails, and the testcase behind it in the file is lost as well. -/
theorem not_loadsAsIs_emptySub :
    (Testcases.ofJson emptySub).isNone = true ∧ (loadTestcases [emptySub, flatTestcase]).length = 0 ∧
      ¬ LoadsAsIs [emptySub, flatTestcase] := by
  refine ⟨rfl, rfl, fun h => ?_⟩
  obtain ⟨t, ht, -⟩ := h.entries emptySub List.mem_cons_self
  cases ht

end Control

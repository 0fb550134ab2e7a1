import VoWiFi.Scripts.Substitution

/-!
# When substitutions cover the testcases

The loops of `substitution` change the testcases and the error messages that they go through. What they
file depends on the error messages only as they are once their keys have been deleted, and deleting them
twice is deleting them once. So the testcases that are filed can be written down as a list, and the number
and the place of each of them can be read off it.
-/

namespace Scripts

/-! ## Error messages -/

/-- The error messages with their keys deleted. -/
def Errors.taken (errors : Errors) : Errors := ⟨errors.ike.map takeError, errors.sip.map takeError⟩

theorem takeError_takeError (emsg : MessageObj) : takeError (takeError emsg) = takeError emsg := by
  simp only [takeError, MessageObj.del, PyDict.erase, List.filter_filter, MessageObj.mk.injEq, true_and]
  refine List.filter_congr fun p _ => ?_
  cases decide (p.1 ≠ "receiver".toList) <;> cases decide (p.1 ≠ "reporter".toList) <;> rfl

theorem map_takeError_map_takeError (emsgs : List MessageObj) :
    (emsgs.map takeError).map takeError = emsgs.map takeError := by
  rw [List.map_map]
  exact List.map_congr_left fun emsg _ => takeError_takeError emsg

theorem errors_taken (tc : Sequence) (errors : Errors) :
    tc.errors errors.taken = (tc.errors errors).map takeError := by
  rw [Sequence.errors, Sequence.errors]
  split
  · rfl
  · split
    · rfl
    · split <;> rfl

/-! ## What the loops file -/

/-- The message that the testcases of a file are filed for, if there is one. -/
def PropertyTestcases.key (ptc : PropertyTestcases) : Message :=
  match ptc.message with
  | some (.response m) => m
  | _ => .ok200

/-- The testcase with the operator set. -/
def Sequence.marked (tc : Sequence) : Sequence := { tc with last := markSubstitution tc.last }

def filedErrors (ptc : PropertyTestcases) (origin : ℕ × ℕ) (tc : Sequence) (tnum : ℕ)
    (emsgs : List MessageObj) : List Filed :=
  (emsgs.zipIdx (tnum + 1)).map fun (emsg, n) =>
    ⟨ptc.key, origin, substitutionId ptc.id emsg.name n,
      substitute tc.marked emsg (substitutionId ptc.id emsg.name n)⟩

def filedTestcases (ptc : PropertyTestcases) (file : ℕ) (errors : Errors) :
    (index tnum : ℕ) → List Sequence → List Filed
  | _, _, [] => []
  | index, tnum, tc :: tcs =>
    filedErrors ptc (file, index) tc tnum (tc.errors errors) ++
      filedTestcases ptc file errors (index + 1) (tnum + (tc.errors errors).length) tcs

def filedFiles (errors : Errors) : (file : ℕ) → List PropertyTestcases → List Filed
  | _, [] => []
  | file, ptc :: ptcs => filedTestcases ptc file errors 0 0 ptc.testcases ++ filedFiles errors (file + 1) ptcs

theorem errorLoop_eq {ptc : PropertyTestcases} {emsgs : List MessageObj}
    (h : emsgs ≠ [] → ∃ m, ptc.message = some (.response m)) (origin : ℕ × ℕ) (tc : Sequence) (tnum : ℕ) :
    errorLoop ptc origin tc.marked tnum emsgs =
      .ok (filedErrors ptc origin tc tnum (emsgs.map takeError), emsgs.map takeError,
        tnum + emsgs.length) := by
  induction emsgs generalizing tnum with
  | nil => rfl
  | cons emsg emsgs ih =>
    obtain ⟨m, hm⟩ := h (List.cons_ne_nil _ _)
    have hkey : ptc.key = m := by rw [PropertyTestcases.key, hm]
    rw [errorLoop, hm]
    simp only [ih (fun _ => ⟨m, hm⟩) (tnum + 1), bind, Except.bind, pure, Except.pure, filedErrors,
      List.map_cons, List.zipIdx_cons, hkey, List.length_cons, Nat.add_assoc, Nat.add_comm 1]

theorem errorLoop_error {ptc : PropertyTestcases} {emsgs : List MessageObj} (hne : emsgs ≠ [])
    (h : ∀ m, ptc.message ≠ some (.response m)) (origin : ℕ × ℕ) (tc : Sequence) (tnum : ℕ) :
    errorLoop ptc origin tc tnum emsgs = .error .keyError := by
  cases emsgs with
  | nil => exact absurd rfl hne
  | cons emsg emsgs =>
    rw [errorLoop]
    split
    · rename_i m hm
      exact absurd hm (h m)
    · rfl

/-- A testcase is the loop over the error messages that it calls for. -/
theorem substituteTestcase_eq_bind (ptc : PropertyTestcases) (origin : ℕ × ℕ) (tnum : ℕ) (errors : Errors)
    (tc : Sequence) : ∃ (tc' : Sequence) (put : List MessageObj → Errors),
      (put ((tc.errors errors).map takeError)).taken = errors.taken ∧
      substituteTestcase ptc origin tnum errors tc =
        (errorLoop ptc origin tc.marked tnum (tc.errors errors)).bind fun r =>
          .ok (r.1, tc', put r.2.1, r.2.2) := by
  rw [Sequence.errors, substituteTestcase]
  by_cases hsub : (tc.last.keys.get? "sub".toList).isSome
  · rw [if_pos hsub, if_pos hsub]
    exact ⟨tc, fun _ => errors, rfl, rfl⟩
  · rw [if_neg hsub, if_neg hsub]
    by_cases hike : Text.contains tc.last.name "ike".toList
    · rw [if_pos hike]
      refine ⟨tc.marked, fun ike => { errors with ike := ike }, ?_, if_pos hike⟩
      rw [Errors.taken, map_takeError_map_takeError]
      rfl
    · rw [if_neg hike]
      by_cases hsip : Text.contains tc.last.name "sip".toList
      · rw [if_pos hsip]
        refine ⟨tc.marked, fun sip => { errors with sip := sip }, ?_, (if_neg hike).trans (if_pos hsip)⟩
        rw [Errors.taken, map_takeError_map_takeError]
        rfl
      · rw [if_neg hsip]
        exact ⟨tc.marked, fun _ => errors, rfl, (if_neg hike).trans (if_neg hsip)⟩

theorem substituteTestcase_eq {ptc : PropertyTestcases} {errors : Errors} {tc : Sequence}
    (h : tc.errors errors ≠ [] → ∃ m, ptc.message = some (.response m)) (origin : ℕ × ℕ) (tnum : ℕ) :
    ∃ tc' errors', errors'.taken = errors.taken ∧
      substituteTestcase ptc origin tnum errors tc =
        .ok (filedErrors ptc origin tc tnum (tc.errors errors.taken), tc', errors',
          tnum + (tc.errors errors.taken).length) := by
  obtain ⟨tc', put, hput, heq⟩ := substituteTestcase_eq_bind ptc origin tnum errors tc
  refine ⟨tc', _, hput, ?_⟩
  rw [heq, errorLoop_eq h, errors_taken, List.length_map]
  rfl

theorem substituteTestcase_error {ptc : PropertyTestcases} {errors : Errors} {tc : Sequence}
    (hne : tc.errors errors ≠ []) (h : ∀ m, ptc.message ≠ some (.response m)) (origin : ℕ × ℕ) (tnum : ℕ) :
    substituteTestcase ptc origin tnum errors tc = .error .keyError := by
  obtain ⟨tc', put, hput, heq⟩ := substituteTestcase_eq_bind ptc origin tnum errors tc
  rw [heq, errorLoop_error hne h]
  rfl

theorem errors_taken_eq_nil {tc : Sequence} {errors : Errors} :
    tc.errors errors.taken = [] ↔ tc.errors errors = [] := by
  rw [errors_taken, List.map_eq_nil_iff]

theorem testcaseLoop_eq {ptc : PropertyTestcases} {errors : Errors} {tcs : List Sequence}
    (h : ∀ tc ∈ tcs, tc.errors errors.taken ≠ [] → ∃ m, ptc.message = some (.response m))
    (file index tnum : ℕ) : ∃ tcs' errors', errors'.taken = errors.taken ∧
      testcaseLoop ptc file index tnum errors tcs =
        .ok (filedTestcases ptc file errors.taken index tnum tcs, tcs', errors') := by
  induction tcs generalizing errors index tnum with
  | nil => exact ⟨[], errors, rfl, rfl⟩
  | cons tc tcs ih =>
    have hhead : tc.errors errors ≠ [] → ∃ m, ptc.message = some (.response m) := fun hne =>
      h tc List.mem_cons_self fun hnil => hne (errors_taken_eq_nil.1 hnil)
    obtain ⟨tc', errors₁, hsame, heq⟩ := substituteTestcase_eq hhead (file, index) tnum
    have htail : ∀ tc ∈ tcs, tc.errors errors₁.taken ≠ [] → ∃ m, ptc.message = some (.response m) := by
      rw [hsame]
      exact fun tc htc => h tc (List.mem_cons_of_mem _ htc)
    obtain ⟨tcs', errors₂, hsame₂, heq₂⟩ := ih htail (index + 1) (tnum + (tc.errors errors.taken).length)
    refine ⟨tc' :: tcs', errors₂, hsame₂.trans hsame, ?_⟩
    rw [testcaseLoop, heq]
    change Except.bind (testcaseLoop ptc file (index + 1) _ errors₁ tcs) _ = _
    rw [heq₂, hsame]
    rfl

theorem testcaseLoop_error {ptc : PropertyTestcases} {errors : Errors} {tcs : List Sequence}
    (hne : ∃ tc ∈ tcs, tc.errors errors.taken ≠ []) (h : ∀ m, ptc.message ≠ some (.response m))
    (file index tnum : ℕ) : testcaseLoop ptc file index tnum errors tcs = .error .keyError := by
  induction tcs generalizing errors index tnum with
  | nil =>
    obtain ⟨tc, htc, -⟩ := hne
    exact absurd htc List.not_mem_nil
  | cons tc tcs ih =>
    rw [testcaseLoop]
    by_cases hnil : tc.errors errors = []
    · have hnone : tc.errors errors ≠ [] → ∃ m, ptc.message = some (.response m) := absurd hnil
      obtain ⟨tc', errors₁, hsame, heq⟩ := substituteTestcase_eq hnone (file, index) tnum
      rw [heq]
      change Except.bind (testcaseLoop ptc file (index + 1) _ errors₁ tcs) _ = _
      -- it is a later testcase that is filed first
      rw [ih]
      · rfl
      · rw [hsame]
        obtain ⟨tc₁, htc₁, hne₁⟩ := hne
        rcases List.mem_cons.1 htc₁ with rfl | htc₁
        · exact absurd (errors_taken_eq_nil.2 hnil) hne₁
        · exact ⟨tc₁, htc₁, hne₁⟩
    · rw [substituteTestcase_error hnil h]
      rfl

/-- The files that nothing has to be filed for, or that are files for a response. -/
def Fileable (errors : Errors) (ptc : PropertyTestcases) : Prop :=
  ∀ tc ∈ ptc.testcases, tc.errors errors ≠ [] → ∃ m, ptc.message = some (.response m)

theorem fileLoop_eq {errors : Errors} {ptcs : List PropertyTestcases}
    (h : ∀ ptc ∈ ptcs, Fileable errors.taken ptc) (file : ℕ) : ∃ ptcs' errors',
      fileLoop file errors ptcs = .ok (filedFiles errors.taken file ptcs, ptcs', errors') := by
  induction ptcs generalizing errors file with
  | nil => exact ⟨[], errors, rfl⟩
  | cons ptc ptcs ih =>
    obtain ⟨tcs', errors₁, hsame, heq⟩ := testcaseLoop_eq (h ptc List.mem_cons_self) file 0 0
    have htail : ∀ ptc ∈ ptcs, Fileable errors₁.taken ptc := by
      rw [hsame]
      exact fun ptc hptc => h ptc (List.mem_cons_of_mem _ hptc)
    obtain ⟨ptcs', errors₂, heq₂⟩ := ih htail (file + 1)
    refine ⟨{ ptc with testcases := tcs' } :: ptcs', errors₂, ?_⟩
    rw [fileLoop, heq]
    change Except.bind (fileLoop (file + 1) errors₁ ptcs) _ = _
    rw [heq₂, hsame]
    rfl

theorem fileLoop_error {errors : Errors} {ptcs : List PropertyTestcases}
    (h : ∃ ptc ∈ ptcs, ¬ Fileable errors.taken ptc) (file : ℕ) :
    fileLoop file errors ptcs = .error .keyError := by
  induction ptcs generalizing errors file with
  | nil =>
    obtain ⟨ptc, hptc, -⟩ := h
    exact absurd hptc List.not_mem_nil
  | cons ptc ptcs ih =>
    rw [fileLoop]
    by_cases hfile : Fileable errors.taken ptc
    · obtain ⟨tcs', errors₁, hsame, heq⟩ := testcaseLoop_eq hfile file 0 0
      rw [heq]
      change Except.bind (fileLoop (file + 1) errors₁ ptcs) _ = _
      rw [ih]
      · rfl
      · rw [hsame]
        obtain ⟨ptc₁, hptc₁, hnot⟩ := h
        rcases List.mem_cons.1 hptc₁ with rfl | hptc₁
        · exact absurd hfile hnot
        · exact ⟨ptc₁, hptc₁, hnot⟩
    · have hother : ∀ m, ptc.message ≠ some (.response m) := fun m hm =>
        hfile fun _ _ _ => ⟨m, hm⟩
      have hne : ∃ tc ∈ ptc.testcases, tc.errors errors.taken ≠ [] := by
        by_contra hnone
        push Not at hnone
        exact hfile fun tc htc hne => absurd (hnone tc htc) hne
      rw [testcaseLoop_error hne hother]
      rfl

/-! ## Places -/

theorem mem_filedErrors {ptc : PropertyTestcases} {origin : ℕ × ℕ} {tc : Sequence} {tnum : ℕ}
    {emsgs : List MessageObj} {f : Filed} (h : f ∈ filedErrors ptc origin tc tnum emsgs) :
    f.key = ptc.key ∧ f.origin = origin := by
  obtain ⟨p, -, rfl⟩ := List.mem_map.1 h
  exact ⟨rfl, rfl⟩

theorem mem_filedTestcases {ptc : PropertyTestcases} {file : ℕ} {errors : Errors} {index tnum : ℕ}
    {tcs : List Sequence} {f : Filed} (h : f ∈ filedTestcases ptc file errors index tnum tcs) :
    f.origin.1 = file ∧ index ≤ f.origin.2 := by
  induction tcs generalizing index tnum with
  | nil => exact absurd h List.not_mem_nil
  | cons tc tcs ih =>
    rw [filedTestcases, List.mem_append] at h
    rcases h with h | h
    · rw [(mem_filedErrors h).2]
      exact ⟨rfl, Nat.le_refl _⟩
    · obtain ⟨hfile, hindex⟩ := ih h
      exact ⟨hfile, by omega⟩

theorem mem_filedFiles {errors : Errors} {file : ℕ} {ptcs : List PropertyTestcases} {f : Filed}
    (h : f ∈ filedFiles errors file ptcs) : file ≤ f.origin.1 := by
  induction ptcs generalizing file with
  | nil => exact absurd h List.not_mem_nil
  | cons ptc ptcs ih =>
    rw [filedFiles, List.mem_append] at h
    rcases h with h | h
    · exact (mem_filedTestcases h).1.ge
    · have := ih h
      omega

theorem filter_origin_eq_nil {fs : List Filed} {origin : ℕ × ℕ} (h : ∀ f ∈ fs, f.origin ≠ origin) :
    fs.filter (·.origin = origin) = [] :=
  List.filter_eq_nil_iff.2 fun f hf => by simpa using h f hf

/-- What is filed for one testcase. -/
theorem filter_filedTestcases (ptc : PropertyTestcases) (file : ℕ) (errors : Errors) {tcs : List Sequence}
    {j : ℕ} {tc : Sequence} (h : tcs[j]? = some tc) (index tnum : ℕ) :
    ∃ n, (filedTestcases ptc file errors index tnum tcs).filter (·.origin = (file, index + j)) =
      filedErrors ptc (file, index + j) tc n (tc.errors errors) := by
  induction tcs generalizing j index tnum with
  | nil => cases h
  | cons tc₀ tcs ih =>
    rw [filedTestcases, List.filter_append]
    cases j with
    | zero =>
      obtain rfl : tc₀ = tc := Option.some.inj h
      refine ⟨tnum, ?_⟩
      rw [Nat.add_zero, List.filter_eq_self.2 fun f hf => decide_eq_true (mem_filedErrors hf).2,
        filter_origin_eq_nil, List.append_nil]
      intro f hf horigin
      have := (mem_filedTestcases hf).2
      rw [horigin] at this
      exact Nat.not_succ_le_self _ this
    | succ j =>
      obtain ⟨n, hn⟩ := ih h (index + 1) (tnum + (tc₀.errors errors).length)
      rw [Nat.add_right_comm] at hn
      refine ⟨n, ?_⟩
      rw [filter_origin_eq_nil, List.nil_append]
      · exact hn
      · intro f hf horigin
        rw [(mem_filedErrors hf).2, Prod.mk.injEq] at horigin
        omega

theorem filter_filedFiles (errors : Errors) {ptcs : List PropertyTestcases} {i j : ℕ}
    {ptc : PropertyTestcases} {tc : Sequence} (hptc : ptcs[i]? = some ptc)
    (htc : ptc.testcases[j]? = some tc) (file : ℕ) :
    ∃ n, (filedFiles errors file ptcs).filter (·.origin = (file + i, j)) =
      filedErrors ptc (file + i, j) tc n (tc.errors errors) := by
  induction ptcs generalizing i file with
  | nil => cases hptc
  | cons ptc₀ ptcs ih =>
    rw [filedFiles, List.filter_append]
    cases i with
    | zero =>
      obtain rfl : ptc₀ = ptc := Option.some.inj hptc
      obtain ⟨n, hn⟩ := filter_filedTestcases ptc₀ file errors htc 0 0
      rw [Nat.zero_add] at hn
      refine ⟨n, ?_⟩
      rw [Nat.add_zero, hn, filter_origin_eq_nil, List.append_nil]
      intro f hf horigin
      have := mem_filedFiles hf
      rw [horigin] at this
      exact Nat.not_succ_le_self _ this
    | succ i =>
      obtain ⟨n, hn⟩ := ih hptc (file + 1)
      rw [Nat.add_right_comm] at hn
      refine ⟨n, ?_⟩
      rw [filter_origin_eq_nil, List.nil_append]
      · exact hn
      · intro f hf horigin
        have := (mem_filedTestcases hf).1
        rw [horigin] at this
        omega

/-! ## Messages -/

theorem MessageObj.Same.refl (m : MessageObj) : m.Same m := ⟨rfl, fun _ => rfl⟩

/-- Deleting the operator first makes no difference. -/
theorem get?_markSubstitution (lc : MessageObj) (key : Text) : (markSubstitution lc).keys.get? key =
    (lc.set "op".toList (.str "substitution".toList)).keys.get? key := by
  simp only [markSubstitution, MessageObj.set, MessageObj.del, PyDict.get?_set, PyDict.get?_erase]
  split
  · rfl
  · rfl

/-- The last message is the right one exactly if it has the right error message in it. -/
theorem same_last_iff (lc : MessageObj) {j j' : Json} :
    ((markSubstitution lc).set "sub".toList (.arr [j])).Same
      ((lc.set "op".toList (.str "substitution".toList)).set "sub".toList (.arr [j'])) ↔ j = j' := by
  constructor
  · intro h
    have hsub := h.2 "sub".toList
    simp only [MessageObj.set, PyDict.get?_set, if_true, Option.some.injEq, Json.arr.injEq,
      List.cons.injEq, and_true] at hsub
    exact hsub
  · rintro rfl
    refine ⟨rfl, fun key => ?_⟩
    show (PyDict.set _ _ (markSubstitution lc).keys).get? key = (PyDict.set _ _ _).get? key
    rw [PyDict.get?_set, PyDict.get?_set, get?_markSubstitution]

/-- Setting the same identifier neither hides nor makes a difference in the key `sub`. -/
theorem same_set_id_iff {lc : MessageObj} {j j' : Json} (id : Text) :
    (((markSubstitution lc).set "sub".toList (.arr [j])).set "id".toList (.str id)).Same
      (((lc.set "op".toList (.str "substitution".toList)).set "sub".toList (.arr [j'])).set
        "id".toList (.str id)) ↔ j = j' := by
  constructor
  · intro h
    have hsub := h.2 "sub".toList
    have hne : ¬ "id".toList = "sub".toList := by decide
    simp only [MessageObj.set, PyDict.get?_set, if_true, if_neg hne, Option.some.injEq, Json.arr.injEq,
      List.cons.injEq, and_true] at hsub
    exact hsub
  · intro h
    have hsame := (same_last_iff lc).2 h
    refine ⟨rfl, fun key => ?_⟩
    show (PyDict.set _ _ _).get? key = (PyDict.set _ _ _).get? key
    rw [PyDict.get?_set, PyDict.get?_set, hsame.2]

theorem forall₂_same_append_iff (ms : List MessageObj) {m m' : MessageObj} :
    List.Forall₂ MessageObj.Same (ms ++ [m]) (ms ++ [m']) ↔ m.Same m' := by
  induction ms with
  | nil => rw [List.nil_append, List.nil_append, List.forall₂_cons, and_iff_left List.Forall₂.nil]
  | cons m₀ ms ih =>
    rw [List.cons_append, List.cons_append, List.forall₂_cons, and_iff_right (MessageObj.Same.refl m₀), ih]

theorem isSubstituted_iff {origin : ℕ × ℕ} {tc : Sequence} {id : Text} {key : Message}
    {emsg emsg' : MessageObj} :
    IsSubstituted tc ⟨key, origin, id, substitute tc.marked emsg id⟩ emsg' ↔ emsg.toJson = emsg'.toJson := by
  rw [IsSubstituted]
  show List.Forall₂ _ (setFirstId id (tc.init ++ [_])) _ ↔ _
  cases tc.init with
  | nil =>
    -- the first message is the last one
    rw [List.nil_append, List.nil_append, setFirstId, setFirstId, List.forall₂_cons,
      and_iff_left List.Forall₂.nil]
    exact same_set_id_iff id
  | cons m ms =>
    rw [List.cons_append, List.cons_append, setFirstId, setFirstId, List.forall₂_cons,
      and_iff_right (MessageObj.Same.refl _), forall₂_same_append_iff]
    exact same_last_iff tc.last

theorem forall₂_filedErrors_iff {ptc : PropertyTestcases} {origin : ℕ × ℕ} {tc : Sequence}
    {emsgs : List MessageObj} (n : ℕ) :
    List.Forall₂ (IsSubstituted tc) (filedErrors ptc origin tc n (emsgs.map takeError)) emsgs ↔
      ∀ emsg ∈ emsgs, (takeError emsg).toJson = emsg.toJson := by
  induction emsgs generalizing n with
  | nil => exact iff_of_true List.Forall₂.nil (List.forall_mem_nil _)
  | cons emsg emsgs ih =>
    rw [filedErrors, List.map_cons, List.zipIdx_cons, List.map_cons, List.forall₂_cons, isSubstituted_iff,
      List.forall_mem_cons, ← ih (n + 1)]
    rfl

/-- Nothing is deleted exactly if the keys are not there. -/
theorem toJson_takeError_eq_iff {emsg : MessageObj} : (takeError emsg).toJson = emsg.toJson ↔
    emsg.keys.get? "receiver".toList = none ∧ emsg.keys.get? "reporter".toList = none := by
  have hkeys : (takeError emsg).keys = (emsg.keys.erase "receiver".toList).erase "reporter".toList := rfl
  constructor
  · intro h
    have heq : (takeError emsg).keys = emsg.keys := by
      simpa only [MessageObj.toJson, Json.obj.injEq, List.cons.injEq, takeError, MessageObj.del,
        true_and] using h
    rw [← heq, hkeys, PyDict.get?_erase, PyDict.get?_erase, PyDict.get?_erase]
    exact ⟨by simp, by simp⟩
  · rintro ⟨hreceiver, hreporter⟩
    have heq : (takeError emsg).keys = emsg.keys := by
      rw [hkeys, PyDict.erase_eq_self hreceiver, PyDict.erase_eq_self hreporter]
    rw [MessageObj.toJson, heq]
    rfl

/-! ## Protocols -/

theorem errors_of_endsIn {tc : Sequence} {m : Message} (h : tc.EndsIn m) (errors : Errors) :
    tc.errors errors = if m.isIke then errors.ike else [] := by
  rw [Sequence.errors, h.2, h.1]
  cases m <;> rfl

/-- What is filed for a testcase that ends in a response, and when it is what has to be. -/
theorem forall₂_filed_iff {ptcs : List PropertyTestcases} {errors : Errors} {i j : ℕ}
    {ptc : PropertyTestcases} {tc : Sequence} {m : Message} (hptc : ptcs[i]? = some ptc)
    (htc : ptc.testcases[j]? = some tc) (hend : tc.EndsIn m) (hfile : Fileable errors.taken ptc) :
    List.Forall₂ (IsSubstituted tc)
        (((filedFiles errors.taken 0 ptcs).filter (·.key = m)).filter (·.origin = (i, j)))
        (m.errors errors) ↔
      (m.isIke = false → errors.sip = []) ∧
        (m.isIke = true → ∀ emsg ∈ errors.ike, ptc.message = some (.response m) ∧
          emsg.keys.get? "receiver".toList = none ∧ emsg.keys.get? "reporter".toList = none) := by
  obtain ⟨n, hn⟩ := filter_filedFiles errors.taken hptc htc 0
  rw [Nat.zero_add] at hn
  rw [List.filter_comm, hn, errors_taken, errors_of_endsIn hend, Message.errors]
  cases hike : m.isIke with
  | false => simp [filedErrors]
  | true =>
    rw [if_pos rfl, if_pos rfl]
    have hresponse : ∀ emsg ∈ errors.ike, ∃ k, ptc.message = some (.response k) := by
      intro emsg hemsg
      refine hfile tc (List.mem_of_getElem? htc) ?_
      rw [errors_taken, errors_of_endsIn hend, hike, if_pos rfl]
      exact List.ne_nil_of_mem (List.mem_map_of_mem hemsg)
    by_cases hkey : ptc.key = m
    · rw [List.filter_eq_self.2 fun f hf => decide_eq_true ((mem_filedErrors hf).1.trans hkey),
        forall₂_filedErrors_iff]
      simp only [reduceCtorEq, false_implies, true_and, forall_const]
      refine forall₂_congr fun emsg hemsg => ?_
      obtain ⟨k, hk⟩ := hresponse emsg hemsg
      have hm : ptc.message = some (.response m) := by
        rw [hk, ← hkey, PropertyTestcases.key, hk]
      rw [toJson_takeError_eq_iff, and_iff_right hm]
    · have hnil : (filedErrors ptc (i, j) tc n (errors.ike.map takeError)).filter (·.key = m) = [] :=
        List.filter_eq_nil_iff.2 fun f hf => by
          simpa [(mem_filedErrors hf).1] using hkey
      rw [hnil, List.forall₂_nil_left_iff]
      constructor
      · intro h
        rw [h]
        exact ⟨nofun, fun _ => List.forall_mem_nil _⟩
      · intro h
        refine List.eq_nil_iff_forall_not_mem.2 fun emsg hemsg => hkey ?_
        rw [PropertyTestcases.key, (h.2 rfl emsg hemsg).1]

/-! ## Identifiers -/

/-- The identifier of a label and a number. -/
def numbered (label : Text) (n : ℕ) : Text :=
  "substitution-".toList ++ (label ++ '-' :: Nat.toDigits 10 n)

theorem substitutionId_eq (id : Option Text) (ename : Text) (n : ℕ) :
    substitutionId id ename n = numbered (id.getD "None".toList ++ ['-'] ++ ename) n := by
  have hassoc : ∀ a b c d : Text, a ++ b ++ ['-'] ++ c ++ ['-'] ++ d = a ++ (b ++ ['-'] ++ c ++ '-' :: d) := by
    simp
  exact hassoc _ _ _ _

/-- The number has no hyphen in it, so that both parts can be told. -/
theorem numbered_inj {label label' : Text} {n n' : ℕ} (h : numbered label n = numbered label' n') :
    label = label' ∧ n = n' := by
  have hdigits : ∀ k, '-' ∉ (Nat.toDigits 10 k).reverse := by
    intro k hk
    have hdigit := Nat.isDigit_of_mem_toDigits (by omega) (by omega) (List.mem_reverse.1 hk)
    exact absurd hdigit (by decide)
  have hrev := congrArg List.reverse (List.append_cancel_left h)
  rw [List.reverse_append, List.reverse_append, List.reverse_cons, List.reverse_cons, List.append_assoc,
    List.append_assoc] at hrev
  obtain ⟨hn, hlabel⟩ := Text.append_cons_inj (hdigits n) (hdigits n') hrev
  refine ⟨List.reverse_inj.1 hlabel, ?_⟩
  rw [← Nat.ofDigitChars_ten_toDigits (n := n), List.reverse_inj.1 hn, Nat.ofDigitChars_ten_toDigits]

/-- The identifiers of a file are its labels, numbered through. -/
def ids (labels : List Text) : List Text := (labels.zipIdx 1).map fun p => numbered p.1 p.2

theorem mem_ids {labels : List Text} {x : Text} :
    x ∈ ids labels ↔ ∃ n label, labels[n]? = some label ∧ x = numbered label (n + 1) := by
  rw [ids, List.mem_map]
  constructor
  · rintro ⟨⟨label, k⟩, hmem, rfl⟩
    obtain ⟨n, hn⟩ := List.mem_iff_getElem?.1 hmem
    rw [List.getElem?_zipIdx, Option.map_eq_some_iff] at hn
    obtain ⟨label', hlabel, heq⟩ := hn
    cases heq
    exact ⟨n, label, hlabel, by rw [Nat.add_comm]⟩
  · rintro ⟨n, label, hlabel, rfl⟩
    refine ⟨(label, 1 + n), List.mem_iff_getElem?.2 ⟨n, ?_⟩, by rw [Nat.add_comm]⟩
    rw [List.getElem?_zipIdx, hlabel, Option.map_some]

theorem nodup_ids (labels : List Text) : (ids labels).Nodup := by
  rw [ids]
  have hnumbers : ((labels.zipIdx 1).map Prod.snd).Nodup := by
    rw [List.zipIdx_map_snd]
    exact List.nodup_range'
  refine List.Nodup.map_on ?_ (List.Nodup.of_map _ hnumbers)
  intro p _ q _ h
  exact Prod.ext (numbered_inj h).1 (numbered_inj h).2

theorem disjoint_ids_iff {labels labels' : List Text} : (ids labels).Disjoint (ids labels') ↔
    ∀ (n : ℕ) label, labels[n]? = some label → labels'[n]? ≠ some label := by
  constructor
  · intro h n label hlabel hlabel'
    exact h (mem_ids.2 ⟨n, label, hlabel, rfl⟩) (mem_ids.2 ⟨n, label, hlabel', rfl⟩)
  · intro h x hx hx'
    obtain ⟨n, label, hlabel, rfl⟩ := mem_ids.1 hx
    obtain ⟨n', label', hlabel', heq⟩ := mem_ids.1 hx'
    obtain ⟨rfl, hn⟩ := numbered_inj heq
    obtain rfl : n = n' := Nat.succ_inj.1 hn
    exact h n label hlabel hlabel'

theorem map_id_filedErrors (ptc : PropertyTestcases) (origin : ℕ × ℕ) (tc : Sequence) (tnum : ℕ)
    (emsgs : List MessageObj) : (filedErrors ptc origin tc tnum emsgs).map (·.id) =
      (emsgs.zipIdx (tnum + 1)).map fun p => substitutionId ptc.id p.1.name p.2 := by
  rw [filedErrors, List.map_map]
  rfl

theorem map_id_filedTestcases (ptc : PropertyTestcases) (file : ℕ) (errors : Errors) (index tnum : ℕ)
    (tcs : List Sequence) : (filedTestcases ptc file errors index tnum tcs).map (·.id) =
      ((tcs.flatMap (·.errors errors)).zipIdx (tnum + 1)).map fun p =>
        substitutionId ptc.id p.1.name p.2 := by
  induction tcs generalizing index tnum with
  | nil => rfl
  | cons tc tcs ih =>
    rw [filedTestcases, List.map_append, ih, map_id_filedErrors, List.flatMap_cons, List.zipIdx_append,
      List.map_append, Nat.add_right_comm]

theorem labels_taken (ptc : PropertyTestcases) (errors : Errors) :
    ptc.labels errors.taken = ptc.labels errors := by
  have herrors : ptc.testcases.flatMap (·.errors errors.taken) =
      (ptc.testcases.flatMap (·.errors errors)).map takeError := by
    rw [List.map_flatMap]
    exact List.flatMap_congr fun tc _ => errors_taken tc errors
  rw [PropertyTestcases.labels, herrors, List.map_map]
  rfl

theorem map_id_filed (ptc : PropertyTestcases) (file : ℕ) (errors : Errors) :
    (filedTestcases ptc file errors.taken 0 0 ptc.testcases).map (·.id) = ids (ptc.labels errors) := by
  rw [map_id_filedTestcases, ids, ← labels_taken, PropertyTestcases.labels, List.zipIdx_map, List.map_map]
  exact List.map_congr_left fun p _ => substitutionId_eq _ _ _

theorem mem_map_id_filedFiles {errors : Errors} {file : ℕ} {ptcs : List PropertyTestcases} {x : Text} :
    x ∈ (filedFiles errors.taken file ptcs).map (·.id) ↔ ∃ ptc ∈ ptcs, x ∈ ids (ptc.labels errors) := by
  induction ptcs generalizing file with
  | nil => simp [filedFiles]
  | cons ptc ptcs ih =>
    rw [filedFiles, List.map_append, List.mem_append, map_id_filed, ih, List.exists_mem_cons_iff]

theorem nodup_ids_filedFiles_iff {errors : Errors} {ptcs : List PropertyTestcases} (file : ℕ) :
    ((filedFiles errors.taken file ptcs).map (·.id)).Nodup ↔
      ptcs.Pairwise fun ptc ptc' =>
        ∀ (n : ℕ) label, (ptc.labels errors)[n]? = some label → (ptc'.labels errors)[n]? ≠ some label := by
  induction ptcs generalizing file with
  | nil => exact iff_of_true List.nodup_nil List.Pairwise.nil
  | cons ptc ptcs ih =>
    rw [filedFiles, List.map_append, List.nodup_append', ih, map_id_filed, List.pairwise_cons,
      and_iff_right (nodup_ids _), and_comm]
    refine and_congr_left fun _ => ?_
    constructor
    · intro h ptc' hptc'
      exact disjoint_ids_iff.1 fun x hx hx' => h hx (mem_map_id_filedFiles.2 ⟨ptc', hptc', hx'⟩)
    · intro h x hx hx'
      obtain ⟨ptc', hptc', hx'⟩ := mem_map_id_filedFiles.1 hx'
      exact disjoint_ids_iff.2 (h ptc' hptc') hx hx'

/-- The testcases filed for the messages are all testcases that are filed. -/
theorem flatMap_filter_key_perm {keys : List Message} (hkeys : keys.Nodup) {fs : List Filed}
    (hfs : ∀ f ∈ fs, f.key ∈ keys) :
    (keys.flatMap fun key => fs.filter (·.key = key)).Perm fs := by
  induction keys generalizing fs with
  | nil =>
    rw [List.eq_nil_iff_forall_not_mem.2 fun f hf => List.not_mem_nil (hfs f hf)]
    exact List.Perm.nil
  | cons key keys ih =>
    obtain ⟨hkey, hkeys⟩ := List.nodup_cons.1 hkeys
    -- the other messages only see the testcases that are not filed for this one
    have hrest : keys.flatMap (fun k => fs.filter (·.key = k)) =
        keys.flatMap fun k => (fs.filter fun f => !decide (f.key = key)).filter (·.key = k) := by
      refine List.flatMap_congr fun k hk => ?_
      rw [List.filter_filter]
      refine List.filter_congr fun f _ => ?_
      have hne : k ≠ key := fun h => hkey (h ▸ hk)
      by_cases hf : f.key = k
      · simp [hf, hne]
      · simp [hf]
    rw [List.flatMap_cons, hrest]
    refine List.Perm.trans (List.Perm.append_left _ (ih hkeys fun f hf => ?_))
      (List.filter_append_perm _ fs)
    obtain ⟨hf, hne⟩ := List.mem_filter.1 hf
    rcases List.mem_cons.1 (hfs f hf) with h | h
    · simp [h] at hne
    · exact h

theorem Message.mem_all (m : Message) : m ∈ Message.all := by
  cases m <;> decide

/-! ## Coverage -/

theorem fileable_taken_iff {errors : Errors} {ptc : PropertyTestcases} : Fileable errors.taken ptc ↔
    (ptc.labels errors ≠ [] → ∃ m, ptc.message = some (.response m)) := by
  have hlabels : ptc.labels errors ≠ [] ↔ ∃ tc ∈ ptc.testcases, tc.errors errors ≠ [] := by
    rw [PropertyTestcases.labels, ne_eq, List.map_eq_nil_iff, List.flatMap_eq_nil_iff]
    push Not
    rfl
  rw [hlabels, Fileable]
  simp only [ne_eq, errors_taken_eq_nil]
  exact ⟨fun h ⟨tc, htc, hne⟩ => h tc htc hne, fun h tc htc hne => h ⟨tc, htc, hne⟩⟩

/-- The testcases are covered exactly if every file that something is generated from is for a response,
no testcase ends in a response of SIP for which there are errors, every testcase that ends in a response of
IKE is in a file for this response, the errors lack the keys that are deleted, and no two files have the
same identifiers. -/
theorem messageLevelManipulation_covered_iff (ptcs : List PropertyTestcases) (errors : Errors) :
    (∃ filed, messageLevelManipulation ptcs errors = .ok filed ∧ Covered ptcs errors filed) ↔
      Coverable ptcs errors := by
  by_cases hfile : ∀ ptc ∈ ptcs, Fileable errors.taken ptc
  · obtain ⟨ptcs', errors', heq⟩ := fileLoop_eq hfile 0
    have hfiled : messageLevelManipulation ptcs errors =
        .ok fun key => (filedFiles errors.taken 0 ptcs).filter (·.key = key) := by
      rw [messageLevelManipulation, substitution, heq]
      rfl
    have hids : ((Message.all.flatMap fun key =>
          (filedFiles errors.taken 0 ptcs).filter (·.key = key)).map (·.id)).Nodup ↔
        ((filedFiles errors.taken 0 ptcs).map (·.id)).Nodup :=
      List.Perm.nodup_iff ((flatMap_filter_key_perm (by decide) fun f _ => f.key.mem_all).map _)
    rw [hfiled]
    constructor
    · rintro ⟨filed, hok, hcovered⟩
      cases hok
      have heach : ∀ ptc ∈ ptcs, ∀ tc ∈ ptc.testcases, ∀ m, tc.EndsIn m →
          (m.isIke = false → errors.sip = []) ∧
            (m.isIke = true → ∀ emsg ∈ errors.ike, ptc.message = some (.response m) ∧
              emsg.keys.get? "receiver".toList = none ∧ emsg.keys.get? "reporter".toList = none) := by
        intro ptc hptc tc htc m hend
        obtain ⟨i, hi⟩ := List.mem_iff_getElem?.1 hptc
        obtain ⟨j, hj⟩ := List.mem_iff_getElem?.1 htc
        exact (forall₂_filed_iff hi hj hend (hfile ptc hptc)).1 (hcovered.each i ptc hi j tc hj m hend)
      exact {
        filed := fun ptc hptc => fileable_taken_iff.1 (hfile ptc hptc)
        sip := fun ptc hptc tc htc m hend => (heach ptc hptc tc htc m hend).1
        ike := fun ptc hptc tc htc m hend => (heach ptc hptc tc htc m hend).2
        labels := (nodup_ids_filedFiles_iff 0).1 (hids.1 hcovered.ids) }
    · intro h
      refine ⟨_, rfl, ?_, hids.2 ((nodup_ids_filedFiles_iff 0).2 h.labels)⟩
      intro i ptc hi j tc hj m hend
      have hptc := List.mem_of_getElem? hi
      have htc := List.mem_of_getElem? hj
      exact (forall₂_filed_iff hi hj hend (hfile ptc hptc)).2
        ⟨h.sip ptc hptc tc htc m hend, h.ike ptc hptc tc htc m hend⟩
  · -- some file cannot be filed, and the exception ends the function
    push Not at hfile
    have herror : messageLevelManipulation ptcs errors = .error .keyError := by
      rw [messageLevelManipulation, substitution, fileLoop_error hfile]
      rfl
    obtain ⟨ptc, hptc, hnot⟩ := hfile
    refine iff_of_false ?_ fun h => hnot (fileable_taken_iff.2 (h.filed ptc hptc))
    rintro ⟨filed, hok, -⟩
    rw [herror] at hok
    cases hok

/-- A file for `401_unauthorized` with one testcase, which ends in this response. -/
def unauthorizedFile : PropertyTestcases :=
  ⟨some "401_unauthorized".toList, some (.response .unauthorized401),
    [⟨[⟨"enable_vowifi".toList, []⟩], ⟨"401_unauthorized".toList, []⟩⟩]⟩

def forbiddenError : MessageObj := ⟨"403_forbidden".toList, []⟩

/-- The name of the response has neither protocol in it, and nothing is generated for an error of SIP. -/
theorem unauthorized_not_covered :
    messageLevelManipulation [unauthorizedFile] ⟨[], [forbiddenError]⟩ = .ok (fun _ => []) ∧
      ¬ ∃ filed, messageLevelManipulation [unauthorizedFile] ⟨[], [forbiddenError]⟩ = .ok filed ∧
        Covered [unauthorizedFile] ⟨[], [forbiddenError]⟩ filed := by
  have heq : messageLevelManipulation [unauthorizedFile] ⟨[], [forbiddenError]⟩ = .ok (fun _ => []) := rfl
  refine ⟨heq, ?_⟩
  rintro ⟨filed, hok, hcovered⟩
  rw [heq] at hok
  cases hok
  have heach := hcovered.each 0 unauthorizedFile rfl 0 _ rfl .unauthorized401 ⟨rfl, rfl⟩
  cases heach

end Scripts

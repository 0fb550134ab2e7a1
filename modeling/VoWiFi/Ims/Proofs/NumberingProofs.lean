import VoWiFi.Ims.Numbering

/-!
# When REGISTER requests are numbered

As long as all requests come in order, the label of the last one tells whether it was the command
`init`, the first REGISTER request or something else (`Tells`).
-/

namespace Ims

theorem head_eq_of_startsWith {a b : Char} {u v s : Text} (h : startsWith s (a :: u) = true)
    (h' : startsWith s (b :: v) = true) : a = b := by
  cases s with
  | nil => cases h
  | cons c s =>
    simp only [startsWith, List.isPrefixOf, Bool.and_eq_true, beq_iff_eq] at h h'
    rw [h.1, h'.1]

theorem not_startsWith_register {s : Text} (h : startsWith s "ike_auth_3_request".toList = true) :
    ¬ startsWith s "register".toList = true ∧ ¬ startsWith s "register_1".toList = true := by
  constructor <;> intro h'
  · exact absurd (head_eq_of_startsWith h h') (by decide)
  · exact absurd (head_eq_of_startsWith h h') (by decide)

/-! ## The label of a request -/

section Request

variable {l : Labels} {mname : Text}

theorem request_first (hname : startsWith mname "register".toList = true)
    (hprev : startsWith l.rprev "ike_auth_3_request".toList = true) :
    l.request mname = "register_1".toList := by
  rw [Labels.request, hname, hprev]
  rfl

theorem request_second (hname : startsWith mname "register".toList = true)
    (hprev : startsWith l.rprev "register_1".toList = true) :
    l.request mname = "register_2".toList := by
  have hinit : startsWith l.rprev "ike_auth_3_request".toList = false := by
    rw [Bool.eq_false_iff]
    intro h
    exact (not_startsWith_register h).2 hprev
  rw [Labels.request, hname, hprev, hinit]
  rfl

theorem request_other (h : startsWith mname "register".toList = true →
    ¬ startsWith l.rprev "ike_auth_3_request".toList = true ∧
      ¬ startsWith l.rprev "register_1".toList = true) : l.request mname = mname := by
  rw [Labels.request]
  by_cases hname : startsWith mname "register".toList = true
  · obtain ⟨hinit, hfirst⟩ := h hname
    rw [Bool.eq_false_iff.2 hinit, Bool.eq_false_iff.2 hfirst, Bool.and_false]
    rfl
  · rw [Bool.eq_false_iff.2 hname, Bool.false_and, Bool.false_and]
    rfl

end Request

/-! ## Sequences of requests -/

section Sequence

variable {before : List Request} {m : Request}

theorem reportedAs_eq : reportedAs before m = some ((labelsAfter before).request m.mname) := by
  rw [reportedAs, Labels.symbol, m.isRequest]
  rfl

theorem rprev_labelsAfter_append :
    (labelsAfter (before ++ [m])).rprev = (labelsAfter before).request m.mname := by
  rw [labelsAfter, Run.after_append, Run.after_cons, Run.after_nil, Labels.symbol, m.isRequest]
  rfl

theorem registers_append :
    registers (before ++ [m]) = registers before + if m.isRegister then 1 else 0 := by
  rw [registers, List.countP_append, List.countP_singleton]
  rfl

theorem isRegister_iff : m.isRegister = true ↔ m.mname = "register".toList := decide_eq_true_iff

theorem startsWith_of_isRegister (h : m.isRegister = true) :
    startsWith m.mname "register".toList = true := by
  rw [isRegister_iff.1 h]
  decide

theorem afterInit_append :
    AfterInit (before ++ [m]) ↔ startsWith m.mname "ike_auth_3_request".toList = true := by
  simp [AfterInit]

theorem afterFirst_append : AfterFirst (before ++ [m]) ↔
    m.isRegister = true ∧ registers before = 0 ∨ startsWith m.mname "register_1".toList = true := by
  have hlast : (before ++ [m]).getLast? = some m := by simp
  have hcount : m.isRegister = true → (registers (before ++ [m]) = 1 ↔ registers before = 0) := by
    intro hm
    rw [registers_append, if_pos hm]
    omega
  rw [AfterFirst, hlast]
  constructor
  · rintro ⟨m', hm', h⟩
    obtain rfl := Option.some.inj hm'
    exact h.imp_left fun h => ⟨h.1, (hcount h.1).1 h.2⟩
  · intro h
    exact ⟨m, rfl, h.imp_left fun h => ⟨h.1, (hcount h.1).2 h.2⟩⟩

/-- The label reported last tells where in the sequence the next request comes. -/
def Tells (before : List Request) : Prop :=
  (startsWith (labelsAfter before).rprev "ike_auth_3_request".toList = true ↔ AfterInit before) ∧
    (startsWith (labelsAfter before).rprev "register_1".toList = true ↔ AfterFirst before)

theorem Tells.not_both (h : Tells before) (hinit : AfterInit before) : ¬ AfterFirst before := by
  intro hfirst
  exact (not_startsWith_register (h.1.2 hinit)).2 (h.2.2 hfirst)

theorem tells_nil : Tells [] := by
  refine ⟨iff_of_true (by decide) nofun, iff_of_false (by decide) ?_⟩
  rintro ⟨m, hm, -⟩
  cases hm

/-- A request is numbered as it should be exactly if it comes in order. -/
theorem numbered_iff_inOrder (h : Tells before) : Numbered before m ↔ InOrder before m := by
  rw [Numbered, reportedAs_eq, InOrder]
  by_cases hreg : m.isRegister = true
  · have hname := startsWith_of_isRegister hreg
    simp only [hreg, if_true, true_and, Option.some.injEq]
    by_cases hinit : AfterInit before
    · rw [request_first hname (h.1.2 hinit)]
      have hfirst := h.not_both hinit
      have hne : ¬ "register_1".toList = "register_2".toList := by decide
      simp only [hinit, hfirst, hne, true_iff, false_iff, imp_true_iff, imp_false, not_true_eq_false,
        false_and, true_and]
      omega
    · by_cases hfirst : AfterFirst before
      · rw [request_second hname (h.2.2 hfirst)]
        have hne : ¬ "register_2".toList = "register_1".toList := by decide
        simp only [hinit, hfirst, hne, true_iff, false_iff, imp_true_iff, imp_false,
          not_true_eq_false, and_false, true_and]
        omega
      · rw [request_other fun _ => ⟨fun h' => hinit (h.1.1 h'), fun h' => hfirst (h.2.1 h')⟩,
          isRegister_iff.1 hreg]
        have hne₁ : ¬ "register".toList = "register_1".toList := by decide
        have hne₂ : ¬ "register".toList = "register_2".toList := by decide
        simp only [hinit, hfirst, hne₁, hne₂, false_iff, imp_true_iff, imp_false,
          not_false_eq_true, and_true]
  · simp only [hreg, Bool.false_eq_true, if_false, false_and, iff_false, Option.some.injEq]
    by_cases hname : startsWith m.mname "register".toList = true
    · by_cases hinit : AfterInit before
      · rw [request_first hname (h.1.2 hinit)]
        simp only [hname, hinit, not_true_eq_false, false_and, and_false, forall_const]
      · by_cases hfirst : AfterFirst before
        · rw [request_second hname (h.2.2 hfirst)]
          simp only [hname, hfirst, not_true_eq_false, and_false, forall_const]
        · rw [request_other fun _ => ⟨fun h' => hinit (h.1.1 h'), fun h' => hfirst (h.2.1 h')⟩]
          simp only [hname, hinit, hfirst, not_false_eq_true, and_true, forall_const, ne_eq]
    · -- a name that does not start with `register` is not the name of a label either
      rw [request_other fun h' => absurd h' hname]
      refine iff_of_true ⟨?_, ?_⟩ fun h' => absurd h' hname
      · rintro heq
        rw [heq] at hname
        exact hname (by decide)
      · rintro heq
        rw [heq] at hname
        exact hname (by decide)

/-- After a request in order the label still tells. -/
theorem tells_append (h : Tells before) (hm : InOrder before m) : Tells (before ++ [m]) := by
  rw [Tells, afterInit_append, afterFirst_append, rprev_labelsAfter_append]
  rw [InOrder] at hm
  by_cases hreg : m.isRegister = true
  · rw [if_pos hreg] at hm
    obtain ⟨hzero, hone, hmore⟩ := hm
    have hname := startsWith_of_isRegister hreg
    simp only [hreg, true_and, isRegister_iff.1 hreg]
    rw [isRegister_iff.1 hreg] at hname
    rcases Nat.lt_or_ge (registers before) 2 with hlt | hge
    · by_cases hr : registers before = 0
      · rw [request_first hname (h.1.2 (hzero hr)), hr]
        decide
      · have hr' : registers before = 1 := by omega
        rw [request_second hname (h.2.2 (hone hr')), hr']
        decide
    · obtain ⟨hinit, hfirst⟩ := hmore hge
      rw [request_other fun _ => ⟨fun h' => hinit (h.1.1 h'), fun h' => hfirst (h.2.1 h')⟩]
      have hr : ¬ registers before = 0 := by omega
      simp only [hr]
      decide
  · rw [if_neg hreg] at hm
    rw [request_other fun hname => ⟨fun h' => (hm hname).2.2.1 (h.1.1 h'),
      fun h' => (hm hname).2.2.2 (h.2.1 h')⟩]
    refine ⟨Iff.rfl, ?_⟩
    simp [hreg]

end Sequence

/-- The requests since an `init` are numbered as they should be exactly if each comes in order. -/
theorem numbered_iff (ms : List Request) :
    Run.Along (fun before m => before ++ [m]) Numbered [] ms ↔
      Run.Along (fun before m => before ++ [m]) InOrder [] ms :=
  Run.along_iff_of_invariant (I := Tells) (fun _ _ => tells_append) tells_nil
    fun _ _ => numbered_iff_inOrder

/-- A request with a method. -/
def request (method : String) : Request :=
  ⟨{ mtype := some .request, mname := method.toList, additional := "sip:ims".toList, kvps := [] }, rfl⟩

/-- A REGISTER request that follows an OPTIONS request is reported without a number. -/
theorem not_numbered_options_register :
    ¬ Run.Along (fun before m => before ++ [m]) Numbered [] [request "options", request "register"] := by
  rintro ⟨-, ⟨hfirst, -⟩, -⟩
  exact absurd (hfirst.2 (by decide)) (by decide)

end Ims

import VoWiFi.Control.Testcase
import Mathlib.Tactic.Common

/-!
# Sending a testcase once and again

What the constructor guarantees about the trees it builds, the lines that a freshly built message
produces, and what remains of them once the iterators inside the message have been used up:
`Testcases.resetIterator` puts the iterator over the messages back, not the ones inside them.
-/

namespace Control

/-- The iterator of the root stands before its first child, if there is one. -/
def Rewound (t : Testcase) : Prop := t.label.iter = if t.sub = [] then none else some 0

/-- The root has the type the constructor gives to a child. -/
def IsSub (t : Testcase) : Prop :=
  t.label.type = if t.sub = [] then .attribute else .payload

mutual

/-- What the constructor builds: the type of the root, the types of the nodes below it, and every
iterator at its start. -/
theorem ofObj_spec {type : Option TestcaseType} : ∀ {o : TestcaseObj} {t : Testcase},
    Testcase.ofObj type o = some t →
    t.label.type = type.getD (if t.sub = [] then .attribute else .payload) ∧
      (∀ u ∈ t.sub, u.Every IsSub) ∧ t.Every Rewound
  | .obj name op vt value none, t, h => by
    rw [Testcase.ofObj, Option.some.injEq] at h
    subst h
    simp [Rewound]
  | .obj _ _ _ _ (some []), t, h => by simp [Testcase.ofObj] at h
  | .obj name op vt value (some (o :: os)), t, h => by
    simp only [Testcase.ofObj, Option.bind_eq_bind, Option.bind_eq_some_iff,
      Option.some.injEq] at h
    obtain ⟨u, hu, us, hus, rfl⟩ := h
    have hall : Testcase.ofObjs (o :: os) = some (u :: us) := by simp [Testcase.ofObjs, hu, hus]
    obtain ⟨hsub, hrew⟩ := ofObjs_spec hall
    exact ⟨by simp, by simpa using hsub, by simpa [Rewound] using hrew⟩

/-- The same for the children of a node. -/
theorem ofObjs_spec : ∀ {os : List TestcaseObj} {ts : List Testcase},
    Testcase.ofObjs os = some ts →
    (∀ t ∈ ts, t.Every IsSub) ∧ ∀ t ∈ ts, t.Every Rewound
  | [], ts, h => by
    rw [Testcase.ofObjs, Option.some.injEq] at h
    subst h
    simp
  | o :: os, ts, h => by
    simp only [Testcase.ofObjs, Option.bind_eq_bind, Option.bind_eq_some_iff,
      Option.some.injEq] at h
    obtain ⟨⟨a, us⟩, hu, vs, hvs, rfl⟩ := h
    obtain ⟨htype, hsub, hrew⟩ := ofObj_spec hu
    obtain ⟨hsubs, hrews⟩ := ofObjs_spec hvs
    refine ⟨List.forall_mem_cons.2 ⟨?_, hsubs⟩, List.forall_mem_cons.2 ⟨hrew, hrews⟩⟩
    exact (RoseTree.every_node _ _ _).2 ⟨by simpa [IsSub] using htype, hsub⟩

end

/-- The messages of a testcase built from JSON are rewound, and so is the testcase itself. -/
theorem ofJson_spec {os : List (Text × TestcaseObj)} {t : Testcases}
    (h : Testcases.ofJson os = some t) :
    t.iter = 0 ∧ ∀ m ∈ t.messages, m.testcase.Every Rewound := by
  have hparse : ∀ {os ms}, parseTestcases os = some ms → ∀ m ∈ ms, m.testcase.Every Rewound := by
    intro os
    induction os with
    | nil => rintro ms ⟨⟩; simp
    | cons o os ih =>
      intro ms hms
      simp only [parseTestcases, Option.bind_eq_bind, Option.bind_eq_some_iff,
        Option.some.injEq] at hms
      obtain ⟨u, hu, us, hus, rfl⟩ := hms
      exact List.forall_mem_cons.2 ⟨(ofObj_spec hu).2.2, ih hus⟩
  simp only [Testcases.ofJson] at h
  split at h
  · cases h
  · obtain ⟨ms, hms, rfl⟩ := Option.map_eq_some_iff.1 h
    exact ⟨rfl, hparse hms⟩

/-! ## Sending one message -/

/-- A rewound list of children is sent in full. -/
theorem sendSub_zero (s : Spis) (ts : List Testcase) :
    sendSub s 0 ts =
      (ts.flatMap fun t => (sendMessage s t).1, ts.map fun t => (sendMessage s t).2) := by
  induction ts with
  | nil => rfl
  | cons t ts ih => simp [sendSub, ih]

/-- An exhausted iterator hands out nothing. -/
theorem sendSub_of_length_le (s : Spis) {k : ℕ} {ts : List Testcase} (h : ts.length ≤ k) :
    sendSub s k ts = ([], ts) := by
  induction ts generalizing k with
  | nil => rfl
  | cons t ts ih =>
    obtain ⟨k, rfl⟩ := Nat.exists_eq_add_one.2 (Nat.lt_of_lt_of_le ts.length.succ_pos h)
    rw [sendSub, ih (Nat.le_of_succ_le_succ h)]

/-- The lines of a rewound node: its own, those of its children in order, the closing one. -/
theorem sendMessage_lines (s : Spis) {it : Item} {ts : List Testcase}
    (h : Rewound (.node it ts)) :
    (sendMessage s (.node it ts)).1 =
      it.line s :: (ts.flatMap fun t => (sendMessage s t).1) ++ it.closing s := by
  simp only [Rewound, RoseTree.label_node, RoseTree.sub_node] at h
  by_cases hts : ts = []
  · simp [sendMessage, h, hts]
  · simp [sendMessage, h, hts, sendSub_zero]

theorem sendSub_lines (s : Spis) (k : ℕ) (ts : List Testcase) :
    (sendSub s k ts).1 = (ts.drop k).flatMap fun t => (sendMessage s t).1 := by
  induction ts generalizing k with
  | nil => simp [sendSub]
  | cons t ts ih =>
    cases k with
    | zero => rw [List.drop_zero, sendSub, ih, List.drop_zero, List.flatMap_cons]
    | succ k => rw [List.drop_succ_cons, sendSub, ih]

/-- The lines of any node: its own, those of the last children, the closing one. -/
theorem exists_sendMessage_lines (s : Spis) (it : Item) (ts : List Testcase) :
    ∃ us, us <:+ ts ∧ (sendMessage s (.node it ts)).1 =
      it.line s :: (us.flatMap fun t => (sendMessage s t).1) ++ it.closing s := by
  cases hiter : it.iter with
  | none => exact ⟨[], List.nil_suffix, by simp [sendMessage, hiter]⟩
  | some k => exact ⟨ts.drop k, List.drop_suffix k ts, by simp [sendMessage, hiter, sendSub_lines]⟩

/-- A line of a message belongs to one of its nodes or closes one. -/
theorem mem_lines {P : Item → Prop} (s : Spis) {t : Testcase} (h : t.All P) {l : Text}
    (hl : l ∈ (sendMessage s t).1) : (∃ it, P it ∧ l = it.line s) ∨ l = endLine s := by
  induction t using RoseTree.induction with
  | h it ts ih =>
    obtain ⟨hit, hts⟩ := (RoseTree.all_node _ _ _).1 h
    obtain ⟨us, hus, hlines⟩ := exists_sendMessage_lines s it ts
    rw [hlines, List.cons_append, List.mem_cons, List.mem_append, List.mem_flatMap] at hl
    rcases hl with rfl | ⟨t, ht, hl⟩ | hl
    · exact .inl ⟨it, hit, rfl⟩
    · exact ih t (hus.subset ht) (hts t (hus.subset ht)) hl
    · rw [Item.closing] at hl
      split at hl
      · exact .inr (List.mem_singleton.1 hl)
      · cases hl

/-- Every node is announced by a line of its own. -/
theorem sendMessage_lines_pos (s : Spis) (t : Testcase) : 0 < (sendMessage s t).1.length := by
  obtain ⟨it, ts⟩ := t
  cases h : it.iter <;> simp [sendMessage, h]

@[simp] theorem line_iter (s : Spis) (it : Item) (k : Option ℕ) :
    { it with iter := k }.line s = it.line s := rfl

@[simp] theorem closing_iter (s : Spis) (it : Item) (k : Option ℕ) :
    { it with iter := k }.closing s = it.closing s := rfl

/-- The second time only the root's own lines are written, and the message stays as it is. -/
theorem sendMessage_again (s s' : Spis) {t : Testcase} (h : Rewound t) :
    sendMessage s' (sendMessage s t).2 =
      (t.label.line s' :: t.label.closing s', (sendMessage s t).2) := by
  obtain ⟨it, ts⟩ := t
  simp only [Rewound, RoseTree.label_node, RoseTree.sub_node] at h
  by_cases hts : ts = []
  · simp [sendMessage, h, hts]
  · have hdrained : sendSub s' ts.length (ts.map fun t => (sendMessage s t).2) = ([], _) :=
      sendSub_of_length_le s' (by simp)
    simp [sendMessage, h, hts, sendSub_zero, hdrained]

/-! ## Sending one message to its peer -/

theorem send_peer (s : Spis) (m : Message) : (m.send s).2.peer = m.peer := by
  rw [Message.send]
  split <;> rfl

/-- A message is sent alike the second time only if it is not sent at all or has no children. -/
theorem send_again_length (s : Spis) {m : Message} (h : Rewound m.testcase) :
    ((m.send s).2.send s).1.length ≤ (m.send s).1.length ∧
      (((m.send s).2.send s).1.length = (m.send s).1.length → m.peer ≠ none →
        m.testcase.sub = []) := by
  cases hp : m.peer with
  | none => simp [Message.send, hp]
  | some p =>
    have hp' := (send_peer s m).trans hp
    simp only [Message.send, hp] at hp' ⊢
    obtain ⟨r, it, ts⟩ := m
    simp only [hp', sendMessage_again s s h, sendMessage_lines s h, RoseTree.label_node,
      RoseTree.sub_node, List.length_map, List.length_cons, List.length_append]
    cases ts with
    | nil => simp [Nat.add_comm]
    | cons t ts =>
      have := sendMessage_lines_pos s t
      simp only [List.flatMap_cons, List.length_append]
      exact ⟨by omega, fun hlen => by omega⟩

/-- A message without children can be sent any number of times. -/
theorem send_of_childless (s : Spis) {m : Message} (h : Rewound m.testcase)
    (hsub : m.peer ≠ none → m.testcase.sub = []) : (m.send s).2 = m := by
  cases hp : m.peer with
  | none => simp [Message.send, hp]
  | some p =>
    obtain ⟨r, it, ts⟩ := m
    have hts : ts = [] := hsub (by simp [hp])
    have hit : it.iter = none := by simpa [Rewound, hts] using h
    simp [Message.send, hp, sendMessage, hit]

/-! ## Executing a testcase -/

/-- Messages that do not change when they are sent stay as they are in an execution. -/
theorem sendAll_snd_eq (spi : ℕ → Spis) (i : ℕ) {ms : List Message}
    (h : ∀ m ∈ ms, ∀ s, (m.send s).2 = m) : (sendAll spi i ms).2 = ms := by
  induction ms generalizing i with
  | nil => rfl
  | cons m ms ih =>
    rw [List.forall_mem_cons] at h
    simp [sendAll, h.1, ih (i + 1) h.2]

/-- An execution that writes as much as the one before it has nothing but messages without
children to send. -/
theorem sendAll_again_length (spi : ℕ → Spis) (i : ℕ) {ms : List Message}
    (h : ∀ m ∈ ms, Rewound m.testcase) :
    (sendAll spi i (sendAll spi i ms).2).1.length ≤ (sendAll spi i ms).1.length ∧
      ((sendAll spi i (sendAll spi i ms).2).1.length = (sendAll spi i ms).1.length →
        ∀ m ∈ ms, m.peer ≠ none → m.testcase.sub = []) := by
  induction ms generalizing i with
  | nil => simp [sendAll]
  | cons m ms ih =>
    rw [List.forall_mem_cons] at h
    obtain ⟨hle, heq⟩ := send_again_length (spi i) h.1
    obtain ⟨hles, heqs⟩ := ih (i + 1) h.2
    simp only [sendAll, List.length_append]
    refine ⟨by omega, fun hlen => List.forall_mem_cons.2 ⟨heq (by omega), heqs (by omega)⟩⟩

/-- Executing a testcase from its first message on. -/
theorem execute_of_iter_eq_zero (spi : ℕ → Spis) {t : Testcases} (h : t.iter = 0) :
    t.execute spi =
      ((sendAll spi 0 t.messages).1, ⟨(sendAll spi 0 t.messages).2, t.messages.length⟩) := by
  simp [Testcases.execute, h]

/-- A testcase whose messages do not change when they are sent is the same after every reset. -/
theorem rerun_eq (spi : ℕ → Spis) {t : Testcases} (ht : t.iter = 0)
    (h : ∀ m ∈ t.messages, ∀ s, (m.send s).2 = m) (n : ℕ) : t.rerun spi n = t := by
  induction n with
  | zero => rfl
  | succ n ih =>
    rw [Testcases.rerun, ih, execute_of_iter_eq_zero spi ht, sendAll_snd_eq spi 0 h,
      Testcases.resetIterator, ← ht]

/-- A testcase that has been built from JSON writes the same lines in every execution exactly if
no message it sends has children: the iterators inside a message are never put back. -/
theorem linesOfRun_eq_iff {os : List (Text × TestcaseObj)} {t : Testcases}
    (h : Testcases.ofJson os = some t) (spi : ℕ → Spis) :
    (∀ n, t.linesOfRun spi n = t.linesOfRun spi 0) ↔
      ∀ m ∈ t.messages, m.peer ≠ none → m.testcase.sub = [] := by
  obtain ⟨hiter, hrew⟩ := ofJson_spec h
  have hroot : ∀ m ∈ t.messages, Rewound m.testcase := fun m hm => (hrew m hm).root
  constructor
  · intro hall
    have hone := congrArg List.length (hall 1)
    simp only [Testcases.linesOfRun, Testcases.rerun, execute_of_iter_eq_zero spi hiter] at hone
    rw [execute_of_iter_eq_zero spi rfl] at hone
    exact (sendAll_again_length spi 0 hroot).2 hone
  · intro hsub n
    have hfixed : ∀ m ∈ t.messages, ∀ s, (m.send s).2 = m :=
      fun m hm s => send_of_childless s (hroot m hm) (hsub m hm)
    rw [Testcases.linesOfRun, rerun_eq spi hiter hfixed, Testcases.linesOfRun, Testcases.rerun]

/-- One message for the ePDG that has no children. -/
def flatTestcase : List (Text × TestcaseObj) :=
  [("epdg".toList, .obj (some "ike_sa_init_response".toList) none none none none)]

theorem linesOfRun_flatTestcase : ∃ t, Testcases.ofJson flatTestcase = some t ∧
    ∀ n, t.linesOfRun (fun _ => ⟨none, none⟩) n = t.linesOfRun (fun _ => ⟨none, none⟩) 0 :=
  ⟨_, rfl, (@linesOfRun_eq_iff flatTestcase _ rfl _).2 (by simp)⟩

/-- One message for the ePDG that sets the SPI of the responder in its header. -/
def nestedTestcase : List (Text × TestcaseObj) :=
  [("epdg".toList, .obj (some "ike_sa_init_response".toList) none none none (some
    [.obj (some "rspi".toList) (some "update".toList) (some "integer".toList)
      (some "0".toList) none]))]

/-- The second execution of the testcase announces the message and leaves out the attribute. -/
theorem linesOfRun_nestedTestcase : ∃ t, Testcases.ofJson nestedTestcase = some t ∧
    t.linesOfRun (fun _ => ⟨none, none⟩) 1 ≠ t.linesOfRun (fun _ => ⟨none, none⟩) 0 :=
  ⟨_, rfl, by decide⟩

/-! ## Putting the iterators inside a message back -/

mutual

/-- What `Testcases.resetIterator` leaves undone: `Testcase.resetIterator` restores a message that
has been sent to what it was. -/
theorem resetIterator_sendMessage (s : Spis) : ∀ {t : Testcase}, t.Every Rewound →
    Testcase.resetIterator (sendMessage s t).2 = t
  | .node it ts, h => by
    obtain ⟨hroot, hsub⟩ := (RoseTree.every_node _ _ _).1 h
    obtain ⟨type, name, op, value, iter⟩ := it
    cases ts with
    | nil =>
      obtain rfl : iter = none := by simpa [Rewound] using hroot
      rfl
    | cons t ts =>
      obtain rfl : iter = some 0 := by simpa [Rewound] using hroot
      have hlist := resetIterators_sendSub s hsub
      simp only [sendMessage, Testcase.resetIterator, hlist]
      simp [sendSub]

/-- The same for the children of a node. -/
theorem resetIterators_sendSub (s : Spis) : ∀ {ts : List Testcase},
    (∀ t ∈ ts, t.Every Rewound) → Testcase.resetIterators (sendSub s 0 ts).2 = ts
  | [], _ => rfl
  | t :: ts, h => by
    rw [List.forall_mem_cons] at h
    simp [sendSub, Testcase.resetIterators, resetIterator_sendMessage s h.1,
      resetIterators_sendSub s h.2]

end

end Control

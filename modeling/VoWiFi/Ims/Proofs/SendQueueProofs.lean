import VoWiFi.Ims.SendQueue

/-!
# Pairs of lines in the send queue

In a steady run at most one accepted call has its end to come. The lines the queue has taken are then
the pairs of the accepted calls, or all of them but for the end of that call (`Settled`).
-/

namespace Ims

open Report (MsgType Server)

/-! ## Single steps -/

section Steps

variable {s : Reports} {w : ℕ} {query : Option Query} {m : SipMessage}

theorem next_start_room {symbol : Text} (hidle : s.calls w = none)
    (hsymbol : (s.labels.symbol query m).1 = some symbol) (hroom : s.Room) :
    (s.next (.start w query m)).lines = s.lines ++ [⟨w, blockStart symbol⟩] ∧
      (s.next (.start w query m)).calls = Function.update s.calls w (some true) ∧
      (s.next (.start w query m)).accepted = s.accepted ++ [(w, symbol)] := by
  rcases hs : s.labels.symbol query m with ⟨o, labels⟩
  obtain rfl : o = some symbol := by rw [hs] at hsymbol; exact hsymbol
  obtain ⟨hadd, hitems⟩ := BoundedQueue.add_of_lt hroom (⟨w, blockStart symbol⟩ : Queued)
  simp only [Reports.next, hidle, hs, Reports.lines, hadd, hitems, if_true, List.append_assoc, and_self]

theorem next_start_full {symbol : Text} (hidle : s.calls w = none)
    (hsymbol : (s.labels.symbol query m).1 = some symbol) (hfull : ¬ s.Room) :
    (s.next (.start w query m)).lines = s.lines ∧
      (s.next (.start w query m)).calls = Function.update s.calls w (some false) ∧
      (s.next (.start w query m)).accepted = s.accepted := by
  rcases hs : s.labels.symbol query m with ⟨o, labels⟩
  obtain rfl : o = some symbol := by rw [hs] at hsymbol; exact hsymbol
  have hadd := BoundedQueue.add_of_not_lt hfull (⟨w, blockStart symbol⟩ : Queued)
  simp [Reports.next, hidle, hs, Reports.lines, hadd]

/-- A start that adds nothing: the worker is busy or the message has no label. -/
theorem next_start_idle (h : s.calls w = none → (s.labels.symbol query m).1 = none) :
    (s.next (.start w query m)).lines = s.lines ∧ (s.next (.start w query m)).calls = s.calls ∧
      (s.next (.start w query m)).accepted = s.accepted := by
  rcases hs : s.labels.symbol query m with ⟨o, labels⟩
  rw [hs] at h
  cases hcall : s.calls w with
  | some b => simp [Reports.next, hcall]
  | none =>
    obtain rfl : o = none := h hcall
    simp [Reports.next, hcall, hs, Reports.lines]

theorem next_finish_room {started : Bool} (hcall : s.calls w = some started) (hroom : s.Room) :
    (s.next (.finish w)).lines = s.lines ++ [⟨w, blockEnd⟩] ∧
      (s.next (.finish w)).calls = Function.update s.calls w none ∧
      (s.next (.finish w)).accepted = s.accepted := by
  have hitems := (BoundedQueue.add_of_lt hroom (⟨w, blockEnd⟩ : Queued)).2
  simp only [Reports.next, hcall, Reports.lines, hitems, List.append_assoc, and_self]

theorem next_finish_full {started : Bool} (hcall : s.calls w = some started) (hfull : ¬ s.Room) :
    (s.next (.finish w)).lines = s.lines ∧
      (s.next (.finish w)).calls = Function.update s.calls w none ∧
      (s.next (.finish w)).accepted = s.accepted := by
  have hadd := BoundedQueue.add_of_not_lt hfull (⟨w, blockEnd⟩ : Queued)
  simp only [Reports.next, hcall, Reports.lines, hadd, and_self]

/-- Fetching moves a line from the queue to the sender. -/
theorem next_fetch : (s.next .fetch).lines = s.lines ∧ (s.next .fetch).calls = s.calls ∧
    (s.next .fetch).accepted = s.accepted := by
  cases hfetch : s.sendq.fetch with
  | none => simp [Reports.next, hfetch]
  | some r =>
    have hitems := BoundedQueue.items_of_fetch hfetch
    simp [Reports.next, hfetch, Reports.lines, hitems]

end Steps

/-! ## Steady runs -/

/-- No accepted call has its end to come, and the lines are complete pairs. -/
def Reports.Closed (s : Reports) : Prop :=
  (∀ w, s.calls w ≠ some true) ∧ s.lines = s.accepted.flatMap pair

/-- One accepted call has its end to come, and nothing but this end is missing. -/
def Reports.Awaits (s : Reports) (w : ℕ) : Prop :=
  (∀ w', s.calls w' = some true ↔ w' = w) ∧ s.lines ++ [⟨w, blockEnd⟩] = s.accepted.flatMap pair

/-- The states of a steady run. -/
def Reports.Settled (s : Reports) : Prop := s.Closed ∨ ∃ w, s.Awaits w

/-- Settled and paired are properties of these three components. -/
theorem Reports.Settled.of_eq {s s' : Reports} (h : s.Settled) (hlines : s'.lines = s.lines)
    (hcalls : ∀ w, s'.calls w = some true ↔ s.calls w = some true)
    (haccepted : s'.accepted = s.accepted) : s'.Settled := by
  rcases h with ⟨hnone, heq⟩ | ⟨w, hw, heq⟩
  · exact .inl ⟨fun w hw => hnone w ((hcalls w).1 hw), by rw [hlines, haccepted, heq]⟩
  · exact .inr ⟨w, fun w' => (hcalls w').trans (hw w'), by rw [hlines, haccepted, heq]⟩

theorem Reports.Settled.paired {s : Reports} (h : s.Settled) : s.Paired := by
  rcases h with ⟨hnone, heq⟩ | ⟨w, hw, heq⟩
  · exact ⟨by rw [heq], fun _ => heq⟩
  · exact ⟨⟨_, heq⟩, fun hnone => absurd ((hw w).2 rfl) (hnone w)⟩

theorem update_eq_some_true {calls : ℕ → Option Bool} {w : ℕ} {o : Option Bool}
    (hw : calls w ≠ some true) (ho : o ≠ some true) (w' : ℕ) :
    Function.update calls w o w' = some true ↔ calls w' = some true := by
  by_cases h : w' = w
  · subst h
    rw [Function.update_self]
    exact iff_of_false ho hw
  · rw [Function.update_of_ne h]

theorem update_none_ne {calls : ℕ → Option Bool} {w : ℕ}
    (h : ∀ w', calls w' = some true ↔ w' = w) (w' : ℕ) :
    Function.update calls w none w' ≠ some true := by
  by_cases hw : w' = w
  · simp [hw]
  · rw [Function.update_of_ne hw]
    exact fun hw' => hw ((h w').1 hw')

theorem steady_finish_iff {s : Reports} {w : ℕ} {started : Bool} (hcall : s.calls w = some started) :
    s.Steady (.finish w) ↔ (s.Room ↔ started = true) := by
  constructor
  · intro h
    exact h started hcall
  · rintro h b hb
    obtain rfl := Option.some.inj (hcall.symm.trans hb)
    exact h

/-- A steady step leads from a settled state to a settled one. -/
theorem settled_next {s : Reports} {e : ReportEvent} (hs : s.Settled) (hsteady : s.Steady e) :
    (s.next e).Settled := by
  cases e with
  | init => exact hs.of_eq rfl (fun _ => Iff.rfl) rfl
  | fetch =>
    obtain ⟨hlines, hcalls, haccepted⟩ := next_fetch (s := s)
    exact hs.of_eq hlines (fun _ => by rw [hcalls]) haccepted
  | start w query m =>
    by_cases hidle : s.calls w = none → (s.labels.symbol query m).1 = none
    · obtain ⟨hlines, hcalls, haccepted⟩ := next_start_idle hidle
      exact hs.of_eq hlines (fun _ => by rw [hcalls]) haccepted
    obtain ⟨hcall, hne⟩ := Classical.not_imp.1 hidle
    obtain ⟨symbol, hsymbol⟩ := Option.ne_none_iff_exists'.1 hne
    by_cases hroom : s.Room
    · obtain ⟨hlines, hcalls, haccepted⟩ := next_start_room hcall hsymbol hroom
      have hnone := hsteady hcall hne hroom
      have heq : s.lines = s.accepted.flatMap pair := by
        rcases hs with ⟨-, heq⟩ | ⟨w', hw', -⟩
        · exact heq
        · exact absurd ((hw' w').2 rfl) (hnone w')
      refine .inr ⟨w, fun w' => ?_, ?_⟩
      · rw [hcalls]
        by_cases h : w' = w
        · simp [h]
        · rw [Function.update_of_ne h]
          exact iff_of_false (hnone w') h
      · rw [hlines, haccepted, heq, List.flatMap_append, List.append_assoc]
        rfl
    · obtain ⟨hlines, hcalls, haccepted⟩ := next_start_full hcall hsymbol hroom
      refine hs.of_eq hlines (fun w' => ?_) haccepted
      rw [hcalls]
      exact update_eq_some_true (by rw [hcall]; nofun) (by decide) w'
  | finish w =>
    cases hcall : s.calls w with
    | none =>
      rw [Reports.next, hcall]
      exact hs
    | some started =>
      rw [steady_finish_iff hcall] at hsteady
      by_cases hroom : s.Room
      · obtain rfl := hsteady.1 hroom
        obtain ⟨hlines, hcalls, haccepted⟩ := next_finish_room hcall hroom
        rcases hs with ⟨hnone, -⟩ | ⟨v, hv, heq⟩
        · exact absurd hcall (hnone w)
        · obtain rfl := (hv w).1 hcall
          refine .inl ⟨?_, by rw [hlines, haccepted, heq]⟩
          rw [hcalls]
          exact update_none_ne hv
      · obtain ⟨hlines, hcalls, haccepted⟩ := next_finish_full hcall hroom
        have hstarted : some started ≠ some true := fun h =>
          hroom (hsteady.2 (Option.some.inj h))
        refine hs.of_eq hlines (fun w' => ?_) haccepted
        rw [hcalls]
        exact update_eq_some_true (by rw [hcall]; exact hstarted) (by decide) w'

/-- A step of a settled state that leaves the lines paired is steady. -/
theorem steady_of_paired {s : Reports} {e : ReportEvent} (hs : s.Settled)
    (hpaired : (s.next e).Paired) : s.Steady e := by
  cases e with
  | init | fetch => trivial
  | start w query m =>
    intro hcall hne hroom w' hw'
    obtain ⟨symbol, hsymbol⟩ := Option.ne_none_iff_exists'.1 hne
    obtain ⟨hlines, -, haccepted⟩ := next_start_room hcall hsymbol hroom
    rcases hs with ⟨hnone, -⟩ | ⟨v, hv, heq⟩
    · exact hnone w' hw'
    · -- the start stands where the end of the other call belongs
      have hordered := hpaired.ordered
      rw [hlines, haccepted, List.flatMap_append, ← heq, List.append_assoc,
        List.prefix_append_right_inj, List.singleton_append, List.cons_prefix_cons] at hordered
      have htype : MsgType.blockStart = .blockEnd := congrArg (fun l => l.msg.mtype) hordered.1
      cases htype
  | finish w =>
    cases hcall : s.calls w with
    | none =>
      intro started h
      rw [hcall] at h
      cases h
    | some started =>
      rw [steady_finish_iff hcall]
      by_cases hroom : s.Room
      · refine iff_of_true hroom ?_
        by_contra hstarted
        obtain ⟨hlines, -, haccepted⟩ := next_finish_room hcall hroom
        have hordered := hpaired.ordered
        rw [hlines, haccepted] at hordered
        rcases hs with ⟨-, heq⟩ | ⟨v, hv, heq⟩
        · -- an end without a start
          have hlen := hordered.length_le
          rw [heq, List.length_append, List.length_singleton] at hlen
          omega
        · -- the end of another call than the one that is open
          rw [← heq, List.prefix_append_right_inj, List.cons_prefix_cons] at hordered
          have hwv : w = v := congrArg Queued.worker hordered.1
          have htrue := (hv w).2 hwv
          rw [hcall] at htrue
          exact hstarted (Option.some.inj htrue)
      · refine iff_of_false hroom ?_
        rintro rfl
        obtain ⟨hlines, hcalls, haccepted⟩ := next_finish_full hcall hroom
        rcases hs with ⟨hnone, -⟩ | ⟨v, hv, heq⟩
        · exact hnone w hcall
        · -- the end is lost, and no other call is open
          obtain rfl := (hv w).1 hcall
          have hcomplete := hpaired.complete (by rw [hcalls]; exact update_none_ne hv)
          have hlen := congrArg List.length heq
          rw [← haccepted, ← hcomplete, hlines, List.length_append, List.length_singleton] at hlen
          omega

/-- The lines of the reports stay paired in exactly the steady runs. -/
theorem paired_iff_steady (es : List ReportEvent) :
    Run.Along Reports.next (fun s e => (s.next e).Paired) .start es ↔
      Run.Along Reports.next Reports.Steady .start es :=
  Run.along_iff_of_invariant (I := Reports.Settled) (fun _ _ => settled_next)
    (.inl ⟨fun _ => nofun, rfl⟩)
    fun _ _ hs => ⟨steady_of_paired hs, fun h => (settled_next hs h).paired⟩

/-- A request of the UE. -/
def optionsRequest : SipMessage :=
  { mtype := some .request, mname := "options".toList, additional := "sip:ims".toList, kvps := [] }

/-- A call of the only worker. -/
def call : List ReportEvent := [.start 0 none optionsRequest, .finish 0]

/-- Four calls fill the queue. The sender fetches one line, so that the start of the fifth call takes
the last place; its end is refused. When the sender has caught up, there is a sixth call. -/
def lostEnd : List ReportEvent :=
  call ++ call ++ call ++ call ++ [.fetch] ++ call ++ List.replicate 8 .fetch ++ call ++ [.fetch]

/-- The sender gets the start of the sixth call right after the start of the fifth one. -/
theorem not_paired_lostEnd :
    ¬ (Run.after Reports.next .start lostEnd).fetched <+:
        (Run.after Reports.next .start lostEnd).accepted.flatMap pair ∧
      ¬ Run.Along Reports.next (fun s e => (s.next e).Paired) .start lostEnd := by
  have hfetched : ¬ (Run.after Reports.next .start lostEnd).fetched <+:
      (Run.after Reports.next .start lostEnd).accepted.flatMap pair := by decide +kernel
  refine ⟨hfetched, fun h => hfetched ?_⟩
  have hlast : (Run.after Reports.next .start lostEnd).Paired := by
    rw [lostEnd, Run.along_append] at h
    rw [lostEnd, Run.after_append]
    exact h.2.1
  exact (List.prefix_append _ _).trans hlast.ordered

end Ims

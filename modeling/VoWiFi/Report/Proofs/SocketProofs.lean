import VoWiFi.Report.Socket

/-!
# Reports and acknowledgements on the socket

The reset handler of the listener leaves the queue of reports and the line of the sender thread as
they are. Whether reports of the old session follow the acknowledgement therefore depends on whether
any of them are left when it is written, and on nothing else.
-/

namespace Report

variable {server : Server} {s : Socket server} {p : Pending} {w : Write} {n k : ℕ}

/-! ## One call of `write` -/

theorem mem_write (h : w ∈ (p.write n).2) :
    w.origin = p.origin ∧ n ≠ 0 ∧ (w.last = true → p.rest.length ≤ n) := by
  unfold Pending.write at h
  split at h
  · cases h
  · rename_i hn
    split at h
    · rename_i hlen
      rw [List.mem_singleton] at h
      subst h
      exact ⟨rfl, hn, fun _ => hlen⟩
    · rw [List.mem_singleton] at h
      subst h
      exact ⟨rfl, hn, nofun⟩

theorem origin_write {p' : Pending} (h : p' ∈ (p.write n).1) : p'.origin = p.origin := by
  unfold Pending.write at h
  split at h
  · cases h
    rfl
  · split at h
    · cases h
    · cases h
      rfl

/-- A line that is gone has been written to its end. -/
theorem write_of_none (h : (p.write n).1 = none) : (p.write n).2 = [⟨p.origin, p.rest, true⟩] := by
  unfold Pending.write at h ⊢
  split at h
  · cases h
  · rename_i hn
    split at h
    · rename_i hlen
      rw [if_neg hn, if_pos hlen]
    · cases h

theorem write_all (p : Pending) : (p.write (p.rest.length + 1)).1 = none := by
  unfold Pending.write
  rw [if_neg (Nat.succ_ne_zero _), if_pos (Nat.le_succ _)]

/-! ## What an event can do -/

/-- The cases of `Socket.next`. -/
theorem next_cases (s : Socket server) (e : SocketEvent) :
    s.next e = s ∨
    (∃ msg, s.next e = { s with sendq := (s.sendq.add ⟨s.inits, msg⟩).2 }) ∨
    (∃ r q, s.sender = none ∧ s.sendq.items = r :: q.items ∧
      s.next e = { s with sendq := q, sender := some ⟨.report r.inits, server.line r.msg⟩ }) ∨
    (∃ p n, s.sender = some p ∧
      s.next e = { s with sender := (p.write n).1, sent := s.sent ++ (p.write n).2 }) ∨
    s.next e = { s with listener := some ⟨.ack none, ackResponse⟩ } ∨
    s.next e = { s with
      inits := s.inits + 1, listener := some ⟨.ack (some (s.inits + 1)), ackResponse⟩ } ∨
    (∃ p n, e = .listenerWrite n ∧ s.listener = some p ∧
      s.next e = { s with listener := (p.write n).1, sent := s.sent ++ (p.write n).2 }) := by
  cases e with
  | add msg => exact .inr (.inl ⟨msg, rfl⟩)
  | fetch =>
    cases hs : s.sender with
    | some p => exact .inl (by simp only [Socket.next, hs])
    | none =>
      cases hf : s.sendq.fetch with
      | none => exact .inl (by simp only [Socket.next, hs, hf])
      | some rq =>
        exact .inr (.inr (.inl ⟨rq.1, rq.2, rfl, BoundedQueue.items_of_fetch hf,
          by simp only [Socket.next, hs, hf]⟩))
  | senderWrite n =>
    cases hs : s.sender with
    | none => exact .inl (by simp only [Socket.next, hs])
    | some p => exact .inr (.inr (.inr (.inl ⟨p, n, rfl, by simp only [Socket.next, hs]⟩)))
  | command c =>
    cases hl : s.listener with
    | some p => exact .inl (by simp only [Socket.next, hl])
    | none =>
      cases c with
      | hello => exact .inr (.inr (.inr (.inr (.inl (by simp only [Socket.next, hl])))))
      | init => exact .inr (.inr (.inr (.inr (.inr (.inl (by simp only [Socket.next, hl]))))))
      | fin => exact .inl (by simp only [Socket.next, hl])
      | line => exact .inl (by simp only [Socket.next, hl])
  | listenerWrite n =>
    cases hl : s.listener with
    | none => exact .inl (by simp only [Socket.next, hl])
    | some p =>
      exact .inr (.inr (.inr (.inr (.inr (.inr ⟨p, n, rfl, rfl, by simp only [Socket.next, hl]⟩)))))

/-! ## Runs in which the queue is drained in time -/

/-- The write completes the acknowledgement of `init` number `k`. -/
def Write.Acks (w : Write) (k : ℕ) : Prop := w.origin = .ack (some k) ∧ w.last = true

/-- What holds as long as every acknowledgement finds the queue drained. -/
structure Fresh (s : Socket server) : Prop where
  noStale : NoStale s.sent
  since : ∀ w ∈ s.sent, ∀ k, w.Acks k → k ≤ s.inits ∧ s.Since k
  sender : ∀ p ∈ s.sender, ∃ i, p.origin = .report i
  listener : ∀ p ∈ s.listener, ∃ k, p.origin = .ack k ∧ ∀ j ∈ k, j ≤ s.inits

theorem fresh_start : Fresh (Socket.start server) :=
  ⟨.nil, nofun, nofun, nofun⟩

theorem noStale_append {sent new : List Write} (hsent : NoStale sent) (hnew : NoStale new)
    (h : ∀ w ∈ sent, ∀ k, w.Acks k → ∀ w' ∈ new, ∀ i, w'.origin = .report i → k ≤ i) :
    NoStale (sent ++ new) := by
  refine List.pairwise_append.2 ⟨hsent, hnew, ?_⟩
  intro w hw w' hw' k i horigin hlast hreport
  exact h w hw k ⟨horigin, hlast⟩ w' hw' i hreport

theorem noStale_write (p : Pending) (n : ℕ) : NoStale (p.write n).2 := by
  unfold Pending.write
  split
  · exact .nil
  · split
    · exact List.pairwise_singleton _ _
    · exact List.pairwise_singleton _ _

theorem fresh_next {e : SocketEvent} (h : Fresh s) (hd : Drained s e) : Fresh (s.next e) := by
  rcases next_cases s e with heq | ⟨msg, heq⟩ | ⟨r, q, hnone, hitems, heq⟩ | ⟨p, n, hp, heq⟩ | heq |
    heq | ⟨p, n, rfl, hp, heq⟩
  · rw [heq]
    exact h
  · rw [heq]
    refine ⟨h.noStale, fun w hw k hk => ?_, h.sender, h.listener⟩
    obtain ⟨hle, hq, hs⟩ := h.since w hw k hk
    refine ⟨hle, fun r hr => ?_, hs⟩
    rcases BoundedQueue.mem_add hr with hr | rfl
    · exact hq r hr
    · exact hle
  · rw [heq]
    refine ⟨h.noStale, fun w hw k hk => ?_, ?_, h.listener⟩
    · obtain ⟨hle, hq, -⟩ := h.since w hw k hk
      rw [hitems] at hq
      refine ⟨hle, fun r' hr' => hq r' (List.mem_cons_of_mem _ hr'), ?_⟩
      rintro p ⟨⟩ i ⟨⟩
      exact hq r List.mem_cons_self
    · rintro p ⟨⟩
      exact ⟨_, rfl⟩
  · -- the sender writes: all bytes belong to a report from after every acknowledged `init`
    rw [heq]
    obtain ⟨i, hi⟩ := h.sender p hp
    refine ⟨noStale_append h.noStale (noStale_write p n) ?_, fun w hw k hk => ?_, ?_, h.listener⟩
    · intro w hw k hk w' hw' j hj
      refine (h.since w hw k hk).2.2 p hp j ?_
      rw [← (mem_write hw').1, hj]
    · rcases List.mem_append.1 hw with hw | hw
      · obtain ⟨hle, hq, hs⟩ := h.since w hw k hk
        refine ⟨hle, hq, fun p' hp' j hj => hs p hp j ?_⟩
        rw [← origin_write hp', hj]
      · have horigin := (mem_write hw).1
        rw [hk.1, hi] at horigin
        cases horigin
    · intro p' hp'
      exact ⟨i, (origin_write hp').trans hi⟩
  · rw [heq]
    refine ⟨h.noStale, h.since, h.sender, ?_⟩
    rintro p ⟨⟩
    exact ⟨none, rfl, nofun⟩
  · rw [heq]
    refine ⟨h.noStale, fun w hw k hk => ?_, h.sender, ?_⟩
    · exact ⟨(h.since w hw k hk).1.trans (Nat.le_succ _), (h.since w hw k hk).2⟩
    · rintro p ⟨⟩
      refine ⟨_, rfl, ?_⟩
      rintro j ⟨⟩
      exact le_rfl
  · -- the listener writes: if that completes an acknowledgement, the condition applies
    rw [heq]
    obtain ⟨j, hj, hle⟩ := h.listener p hp
    refine ⟨noStale_append h.noStale (noStale_write p n) ?_, fun w hw k hk => ?_, h.sender, ?_⟩
    · intro w _ k _ w' hw' i hi
      have horigin := (mem_write hw').1
      rw [hi, hj] at horigin
      cases horigin
    · rcases List.mem_append.1 hw with hw | hw
      · exact h.since w hw k hk
      · obtain ⟨horigin, hn, hlast⟩ := mem_write hw
        rw [hk.1] at horigin
        refine ⟨hle k ?_, hd p hp k horigin.symm hn (hlast hk.2)⟩
        rw [hj] at horigin
        cases horigin
        rfl
    · intro p' hp'
      exact ⟨j, (origin_write hp').trans hj, hle⟩

/-! ## Runs in which it is not -/

/-- An old report has been written after an acknowledgement, or is still to be written. -/
def Doomed (s : Socket server) : Prop :=
  ¬ NoStale s.sent ∨ ∃ w ∈ s.sent, ∃ k, w.Acks k ∧ ¬ s.Since k

/-- An old report stays in the way until it is written. -/
theorem not_since_next {e : SocketEvent} (hw : w ∈ s.sent) (hk : w.Acks k) (h : ¬ s.Since k) :
    Doomed (s.next e) := by
  rcases next_cases s e with heq | ⟨msg, heq⟩ | ⟨r, q, hnone, hitems, heq⟩ | ⟨p, n, hp, heq⟩ | heq |
    heq | ⟨p, n, rfl, hp, heq⟩
  · exact .inr ⟨w, by rwa [heq], k, hk, by rwa [heq]⟩
  · rw [heq]
    refine .inr ⟨w, hw, k, hk, fun hsince => h ⟨fun r hr => ?_, hsince.2⟩⟩
    exact hsince.1 r (BoundedQueue.mem_add_of_mem hr)
  · rw [heq]
    refine .inr ⟨w, hw, k, hk, fun hsince => h ⟨fun r' hr' => ?_, ?_⟩⟩
    · rw [hitems] at hr'
      rcases List.mem_cons.1 hr' with rfl | hr'
      · exact hsince.2 _ rfl _ rfl
      · exact hsince.1 r' hr'
    · rw [hnone]
      nofun
  · -- the sender writes: its line stays the same, or has been written to the end
    rw [heq]
    cases hrest : (p.write n).1 with
    | some p' =>
      have horigin : p'.origin = p.origin := origin_write hrest
      refine .inr ⟨w, List.mem_append_left _ hw, k, hk, fun hsince => h ⟨hsince.1, ?_⟩⟩
      intro p'' hp'' i hi
      rw [hp] at hp''
      cases hp''
      exact hsince.2 p' rfl i (horigin.trans hi)
    | none =>
      by_cases hq : ∀ r ∈ s.sendq.items, k ≤ r.inits
      · refine .inl fun hstale => h ⟨hq, ?_⟩
        intro p'' hp'' i hi
        rw [hp] at hp''
        cases hp''
        rw [write_of_none hrest] at hstale
        exact (List.pairwise_append.1 hstale).2.2 w hw _ List.mem_cons_self k i hk.1 hk.2 hi
      · exact .inr ⟨w, List.mem_append_left _ hw, k, hk, fun hsince => hq hsince.1⟩
  · exact .inr ⟨w, by rwa [heq], k, hk, by rwa [heq]⟩
  · exact .inr ⟨w, by rwa [heq], k, hk, by rwa [heq]⟩
  · rw [heq]
    exact .inr ⟨w, List.mem_append_left _ hw, k, hk, h⟩

theorem sent_prefix_next (s : Socket server) (e : SocketEvent) : s.sent <+: (s.next e).sent := by
  rcases next_cases s e with heq | ⟨msg, heq⟩ | ⟨r, q, hnone, hitems, heq⟩ | ⟨p, n, hp, heq⟩ | heq |
    heq | ⟨p, n, rfl, hp, heq⟩
  all_goals rw [heq]
  all_goals simp

theorem doomed_next {e : SocketEvent} (h : Doomed s) : Doomed (s.next e) := by
  rcases h with h | ⟨w, hw, k, hk, hsince⟩
  · exact .inl fun hstale => h (hstale.sublist (sent_prefix_next s e).sublist)
  · exact not_since_next hw hk hsince

theorem doomed_after (es : List SocketEvent) (h : Doomed s) :
    Doomed (Run.after Socket.next s es) :=
  Run.always (fun _ _ => doomed_next) h

/-- An acknowledgement that does not find the queue drained. -/
theorem doomed_of_not_drained {e : SocketEvent} (h : ¬ Drained s e) : Doomed (s.next e) := by
  cases e with
  | listenerWrite n =>
    simp only [Drained, not_forall] at h
    obtain ⟨p, hp, k, hk, hn, hlen, hsince⟩ := h
    have hnext : s.next (.listenerWrite n) =
        { s with listener := none, sent := s.sent ++ [⟨p.origin, p.rest, true⟩] } := by
      have hp' : s.listener = some p := hp
      simp only [Socket.next, hp', Pending.write, if_neg hn, if_pos hlen]
    rw [hnext]
    exact .inr ⟨_, List.mem_append_right _ List.mem_cons_self, k, ⟨hk, rfl⟩, hsince⟩
  | add msg => exact absurd trivial h
  | fetch => exact absurd trivial h
  | senderWrite n => exact absurd trivial h
  | command c => exact absurd trivial h

theorem doomed_of_not_along {es : List SocketEvent} (h : ¬ Run.Along Socket.next Drained s es) :
    Doomed (Run.after Socket.next s es) := by
  induction es generalizing s with
  | nil => exact absurd trivial h
  | cons e es ih =>
    by_cases hd : Drained s e
    · exact ih fun hes => h ⟨hd, hes⟩
    · exact doomed_after es (doomed_of_not_drained hd)

/-! ## The sender thread left to itself -/

/-- The sender thread can finish its line. -/
theorem exists_idle (s : Socket server) : ∃ n, (s.next (.senderWrite n)).sender = none ∧
    (s.next (.senderWrite n)).sendq = s.sendq := by
  cases hs : s.sender with
  | none => exact ⟨0, by simp only [Socket.next, hs], by simp only [Socket.next, hs]⟩
  | some p =>
    refine ⟨p.rest.length + 1, ?_, by simp only [Socket.next, hs]⟩
    simp only [Socket.next, hs, write_all]

/-- The sender thread can empty the queue. -/
theorem exists_drain (s : Socket server) : ∃ fs : List SocketEvent,
    (∀ e ∈ fs, e.bySender = true) ∧ (Run.after Socket.next s fs).sender = none ∧
      (Run.after Socket.next s fs).sendq.items = [] := by
  induction hlen : s.sendq.items.length generalizing s with
  | zero =>
    obtain ⟨n, hidle, hq⟩ := exists_idle s
    refine ⟨[.senderWrite n], by simp [SocketEvent.bySender], hidle, ?_⟩
    rw [Run.after_cons, Run.after_nil, hq]
    exact List.length_eq_zero_iff.1 hlen
  | succ m ih =>
    obtain ⟨n, hidle, hq⟩ := exists_idle s
    cases hf : s.sendq.fetch with
    | none =>
      rw [BoundedQueue.items_of_fetch_none hf] at hlen
      cases hlen
    | some rq =>
      have hfetch : ((s.next (.senderWrite n)).next .fetch).sendq = rq.2 := by
        rw [← hq] at hf
        simp only [Socket.next] at hf hidle ⊢
        rw [hidle, hf]
      obtain ⟨fs, hfs, hdone⟩ := ih ((s.next (.senderWrite n)).next .fetch) (by
        have hitems := congrArg List.length (BoundedQueue.items_of_fetch hf)
        rw [hfetch]
        rw [hlen, List.length_cons] at hitems
        exact (Nat.succ.inj hitems).symm)
      refine ⟨.senderWrite n :: .fetch :: fs, ?_, hdone⟩
      intro e he
      rcases List.mem_cons.1 he with rfl | he
      · rfl
      · rcases List.mem_cons.1 he with rfl | he
        · rfl
        · exact hfs e he

theorem along_drained_bySender {fs : List SocketEvent} (h : ∀ e ∈ fs, e.bySender = true) :
    Run.Along Socket.next Drained s fs := by
  induction fs generalizing s with
  | nil => trivial
  | cons e fs ih =>
    refine ⟨?_, ih fun e' he' => h e' (List.mem_cons_of_mem _ he')⟩
    have hby := h e List.mem_cons_self
    cases e <;> trivial

/-! ## The result -/

/-- No report from before an `init` follows the acknowledgement of that `init` on the socket, however
the sender thread goes on, exactly if every acknowledgement finds such reports gone. -/
theorem noStale_iff (server : Server) (es : List SocketEvent) :
    (∀ fs : List SocketEvent, (∀ e ∈ fs, e.bySender = true) →
      NoStale (Run.after Socket.next (.start server) (es ++ fs)).sent) ↔
    Run.Along Socket.next Drained (.start server) es := by
  constructor
  · intro h
    by_contra hnot
    obtain ⟨fs, hfs, hidle, hempty⟩ := exists_drain (Run.after Socket.next (.start server) es)
    rw [← Run.after_append] at hidle hempty
    have hdoomed := doomed_after fs (doomed_of_not_along hnot)
    rw [← Run.after_append] at hdoomed
    rcases hdoomed with hstale | ⟨w, -, k, -, hsince⟩
    · exact hstale (h fs hfs)
    · -- nothing is left to be written, so that the old report has been
      refine hsince ⟨?_, ?_⟩
      · rw [hempty]
        nofun
      · rw [hidle]
        nofun
  · intro h fs hfs
    have hall := Run.along_append.2 ⟨h, along_drained_bySender hfs⟩
    exact (Run.invariant (fun _ _ => fresh_next) fresh_start hall).noStale

/-- The report of an attached session. -/
def sampleReport : Msg := ⟨.blockStart, 1, 2, "ike_sa_init_request".toList, .none⟩

/-- A report waits in the queue while `init` is handled, and is written after the acknowledgement. -/
theorem noStale_late_report :
    ¬ NoStale (Run.after Socket.next (.start .epdg)
      [.add sampleReport, .command .init, .listenerWrite 4, .fetch, .senderWrite 100]).sent := by
  decide

end Report

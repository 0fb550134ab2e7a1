import VoWiFi.Report.Integrity
import VoWiFi.Report.Proofs.SocketProofs

/-!
# When lines stay whole

As long as no thread writes while the other one is in the middle of a line, what is on the socket are
whole lines and at most one part of a line, which its thread goes on with (`Tidy`). The first call of
`write` that does not wait puts a byte into the middle of a line of the other thread, and nothing that
follows can mend it.
-/

namespace Report

open TaggedStream

variable {server : Server} {s : Socket server} {e : SocketEvent} {side side' : Side} {p : Pending}
  {n : ℕ}

/-! ## What an event does to both threads -/

theorem other_ne (side : Side) : side.other ≠ side := by
  cases side <;> exact nofun

theorem eq_or_eq_other (side side' : Side) : side' = side ∨ side' = side.other := by
  cases side <;> cases side' <;> simp [Side.other]

theorem line_ne_nil (server : Server) (m : Msg) : server.line m ≠ [] := by
  rw [Server.line]
  exact List.append_ne_nil_of_right_ne_nil _ nofun

/-- The lines that the threads are writing, with one of them replaced. -/
def setPending (f : Side → Option Pending) (side : Side) (p : Option Pending) (side' : Side) :
    Option Pending :=
  if side' = side then p else f side'

/-- What an event does: nothing that shows, the beginning of a line, or a call of `write`. -/
inductive Effect (s : Socket server) (e : SocketEvent) : Prop
  | quiet (hbegins : s.begins e = none) (hwrites : ∀ w ∈ e.writes, s.pending w.1 = none)
      (hsent : (s.next e).sent = s.sent) (hpending : (s.next e).pending = s.pending)
  | opens (side : Side) (p : Pending) (hrest : p.rest ≠ []) (hside : p.origin.side = side)
      (hnone : s.pending side = none) (hbegins : s.begins e = some (side, p.rest))
      (hwrites : e.writes = none) (hsent : (s.next e).sent = s.sent)
      (hpending : (s.next e).pending = setPending s.pending side (some p))
  | write (side : Side) (p : Pending) (n : ℕ) (hp : s.pending side = some p)
      (hbegins : s.begins e = none) (hwrites : e.writes = some (side, n))
      (hsent : (s.next e).sent = s.sent ++ (p.write n).2)
      (hpending : (s.next e).pending = setPending s.pending side (p.write n).1)

theorem no_write {s : Socket server} {e : SocketEvent} (h : e.writes = none) :
    ∀ w ∈ e.writes, s.pending w.1 = none := by
  rw [h]
  rintro w ⟨⟩

theorem Effect.idle {s : Socket server} {e : SocketEvent} (hbegins : s.begins e = none)
    (hwrites : ∀ w ∈ e.writes, s.pending w.1 = none) (hnext : s.next e = s) : Effect s e :=
  .quiet hbegins hwrites (by rw [hnext]) (by rw [hnext])

theorem effect_fetch (s : Socket server) : Effect s .fetch := by
  cases hs : s.sender with
  | some p =>
    exact .idle (by simp only [Socket.begins, hs]) (no_write rfl) (by simp only [Socket.next, hs])
  | none =>
    cases hf : s.sendq.fetch with
    | none =>
      exact .idle (by simp only [Socket.begins, hs, hf]) (no_write rfl)
        (by simp only [Socket.next, hs, hf])
    | some rq =>
      refine .opens .sender ⟨.report rq.1.inits, server.line rq.1.msg⟩ (line_ne_nil _ _) rfl hs
        (by simp only [Socket.begins, hs, hf]) rfl (by simp only [Socket.next, hs, hf]) ?_
      funext side
      cases side <;> simp only [Socket.next, hs, hf] <;> rfl

theorem effect_command (s : Socket server) (c : Command) : Effect s (.command c) := by
  cases hl : s.listener with
  | some p =>
    exact .idle (by simp only [Socket.begins, hl]) (no_write rfl) (by simp only [Socket.next, hl])
  | none =>
    have hack : ackResponse ≠ [] := by decide
    cases c with
    | hello =>
      refine .opens .listener ⟨.ack none, ackResponse⟩ hack rfl hl (by simp only [Socket.begins, hl])
        rfl (by simp only [Socket.next, hl]) ?_
      funext side
      cases side <;> simp only [Socket.next, hl] <;> rfl
    | init =>
      refine .opens .listener ⟨.ack (some (s.inits + 1)), ackResponse⟩ hack rfl hl
        (by simp only [Socket.begins, hl]) rfl (by simp only [Socket.next, hl]) ?_
      funext side
      cases side <;> simp only [Socket.next, hl] <;> rfl
    | fin =>
      exact .idle (by simp only [Socket.begins, hl]) (no_write rfl) (by simp only [Socket.next, hl])
    | line =>
      exact .idle (by simp only [Socket.begins, hl]) (no_write rfl) (by simp only [Socket.next, hl])

theorem effect (s : Socket server) (e : SocketEvent) : Effect s e := by
  cases e with
  | add msg => exact .quiet rfl (no_write rfl) rfl (funext fun side => by cases side <;> rfl)
  | fetch => exact effect_fetch s
  | command c => exact effect_command s c
  | senderWrite n =>
    cases hs : s.sender with
    | none =>
      refine .idle rfl ?_ (by simp only [Socket.next, hs])
      rintro w ⟨⟩
      exact hs
    | some p =>
      refine .write .sender p n hs rfl rfl (by simp only [Socket.next, hs]) ?_
      funext side
      cases side <;> simp only [Socket.next, hs] <;> rfl
  | listenerWrite n =>
    cases hl : s.listener with
    | none =>
      refine .idle rfl ?_ (by simp only [Socket.next, hl])
      rintro w ⟨⟩
      exact hl
    | some p =>
      refine .write .listener p n hl rfl rfl (by simp only [Socket.next, hl]) ?_
      funext side
      cases side <;> simp only [Socket.next, hl] <;> rfl

/-! ## The bytes of a call -/

theorem stream_append (sent sent' : List Write) :
    stream (sent ++ sent') = stream sent ++ stream sent' := List.flatMap_append

theorem stream_singleton (w : Write) : stream [w] = tagged (w.origin.side, w.bytes) := by
  rw [stream, List.flatMap_cons, List.flatMap_nil, List.append_nil]

theorem midLine_concat_self {w : Write} (h : w.origin.side = side) (sent : List Write) :
    midLine (sent ++ [w]) side = !w.last := by
  rw [midLine, List.filter_append, List.filter_cons_of_pos (by simpa using h), List.filter_nil,
    List.getLast?_concat]
  rfl

theorem midLine_concat_of_ne {w : Write} (h : w.origin.side ≠ side) (sent : List Write) :
    midLine (sent ++ [w]) side = midLine sent side := by
  rw [midLine, List.filter_append, List.filter_cons_of_neg (by simpa using h), List.filter_nil,
    List.append_nil]
  rfl

/-! ## Whole lines -/

/-- The line that a thread is writing, given the part of it that is out. -/
def current (s : Socket server) (parts : Side → Text) (side : Side) : List Text :=
  (s.pending side).toList.map fun p => parts side ++ p.rest

/-- Given the lines that have been begun: those that are out, in the order in which they were written, and
the part of the current line of each thread that is out. -/
structure Tidy (s : Socket server) (begun out : List (Side × Text)) (parts : Side → Text) : Prop where
  stream : ∀ side, parts side.other = [] →
    stream s.sent = out.flatMap tagged ++ tagged (side, parts side)
  texts : ∀ side, textsOf side begun = textsOf side out ++ current s parts side
  one : ∀ side, parts side = [] ∨ parts side.other = []
  part : ∀ side, midLine s.sent side = true ↔ parts side ≠ []
  idle : ∀ side, s.pending side = none → parts side = []
  writing : ∀ side, ∀ p ∈ s.pending side, p.rest ≠ [] ∧ p.origin.side = side

variable {begun out : List (Side × Text)} {parts : Side → Text}

theorem tidy_start : Tidy (Socket.start server) [] [] fun _ => [] where
  stream _ _ := rfl
  texts side := by cases side <;> rfl
  one _ := .inl rfl
  part side := by cases side <;> simp [midLine, Socket.start]
  idle _ _ := rfl
  writing side := by cases side <;> exact nofun

/-- An event that does not show. -/
theorem Tidy.congr {s' : Socket server} (h : Tidy s begun out parts) (hsent : s'.sent = s.sent)
    (hpending : s'.pending = s.pending) : Tidy s' begun out parts where
  stream := by rw [hsent]; exact h.stream
  texts side := by rw [h.texts, current, current, hpending]
  one := h.one
  part := by rw [hsent]; exact h.part
  idle := by rw [hpending]; exact h.idle
  writing := by rw [hpending]; exact h.writing

/-- A thread begins a line. -/
theorem Tidy.opens {s' : Socket server} (h : Tidy s begun out parts) (hrest : p.rest ≠ [])
    (hside : p.origin.side = side) (hnone : s.pending side = none) (hsent : s'.sent = s.sent)
    (hpending : s'.pending = setPending s.pending side (some p)) :
    Tidy s' (begun ++ [(side, p.rest)]) out parts where
  stream := by rw [hsent]; exact h.stream
  texts side' := by
    rw [textsOf_append, h.texts, current, current, hpending, setPending]
    by_cases hs : side' = side
    · subst hs
      rw [if_pos rfl, hnone, h.idle side' hnone, textsOf_cons_self]
      simp [textsOf]
    · rw [if_neg hs, textsOf_cons_of_ne (Ne.symm hs)]
      simp [textsOf]
  one := h.one
  part := by rw [hsent]; exact h.part
  idle side' hnone' := by
    rw [hpending, setPending] at hnone'
    split at hnone'
    · cases hnone'
    · exact h.idle side' hnone'
  writing side' p' hp' := by
    rw [hpending, setPending] at hp'
    split at hp'
    · rename_i hs
      obtain rfl := Option.some.inj hp'
      exact ⟨hrest, hside.trans hs.symm⟩
    · exact h.writing side' p' hp'

/-- A thread writes some more of its line. -/
theorem Tidy.write_part {s' : Socket server} (h : Tidy s begun out parts)
    (hp : s.pending side = some p) (hother : parts side.other = []) {bytes rest : Text}
    (hsplit : p.rest = bytes ++ rest) (hbytes : bytes ≠ []) (hrest : rest ≠ [])
    (hsent : s'.sent = s.sent ++ [⟨p.origin, bytes, false⟩])
    (hpending : s'.pending = setPending s.pending side (some { p with rest := rest })) :
    Tidy s' begun out (Function.update parts side (parts side ++ bytes)) := by
  obtain ⟨-, hside⟩ := h.writing side p hp
  have hself : Function.update parts side (parts side ++ bytes) side = parts side ++ bytes :=
    Function.update_self _ _ _
  have hne : ∀ side', side' ≠ side →
      Function.update parts side (parts side ++ bytes) side' = parts side' :=
    fun side' hs => Function.update_of_ne hs _ _
  have hfull : parts side ++ bytes ≠ [] := List.append_ne_nil_of_right_ne_nil _ hbytes
  refine ⟨fun side' hside' => ?_, fun side' => ?_, fun side' => ?_, fun side' => ?_, fun side' hnone => ?_,
    fun side' p' hp' => ?_⟩
  · rcases eq_or_eq_other side side' with rfl | rfl
    · rw [hsent, stream_append, h.stream side' hother, stream_singleton, hside, hself, tagged_append,
        List.append_assoc]
    · have hback : side.other.other = side := by cases side <;> rfl
      rw [hback, hself] at hside'
      exact absurd hside' hfull
  · rw [h.texts, current, current, hpending, setPending]
    by_cases hs : side' = side
    · subst hs
      rw [if_pos rfl, hp, hself]
      simp [hsplit]
    · rw [if_neg hs, hne side' hs]
  · rcases eq_or_eq_other side side' with rfl | rfl
    · exact .inr ((hne _ (other_ne side')).trans hother)
    · exact .inl ((hne _ (other_ne side)).trans hother)
  · rw [hsent]
    by_cases hs : side' = side
    · subst hs
      rw [midLine_concat_self hside, hself]
      exact iff_of_true rfl hfull
    · rw [midLine_concat_of_ne (by rw [hside]; exact Ne.symm hs), hne side' hs]
      exact h.part side'
  · rw [hpending, setPending] at hnone
    split at hnone
    · cases hnone
    · rename_i hs
      rw [hne side' hs]
      exact h.idle side' hnone
  · rw [hpending, setPending] at hp'
    split at hp'
    · rename_i hs
      obtain rfl := Option.some.inj hp'
      exact ⟨hrest, hside.trans hs.symm⟩
    · exact h.writing side' p' hp'

/-- A thread writes the end of its line. -/
theorem Tidy.write_last {s' : Socket server} (h : Tidy s begun out parts)
    (hp : s.pending side = some p) (hother : parts side.other = [])
    (hsent : s'.sent = s.sent ++ [⟨p.origin, p.rest, true⟩])
    (hpending : s'.pending = setPending s.pending side none) :
    Tidy s' begun (out ++ [(side, parts side ++ p.rest)]) fun _ => [] := by
  obtain ⟨-, hside⟩ := h.writing side p hp
  refine ⟨fun side' _ => ?_, fun side' => ?_, fun _ => .inl rfl, fun side' => ?_, fun _ _ => rfl,
    fun side' p' hp' => ?_⟩
  · rw [hsent, stream_append, h.stream side hother, stream_singleton, hside, List.flatMap_append,
      List.flatMap_cons, List.flatMap_nil, List.append_nil, tagged_append, List.append_assoc]
    exact (List.append_nil _).symm
  · rw [h.texts, textsOf_append, current, current, hpending, setPending]
    by_cases hs : side' = side
    · subst hs
      rw [if_pos rfl, hp, textsOf_cons_self]
      simp [textsOf]
    · -- the other thread is not in the middle of a line
      have hpart : parts side' = [] := by
        rwa [(eq_or_eq_other side side').resolve_left hs]
      rw [if_neg hs, textsOf_cons_of_ne (Ne.symm hs), hpart]
      simp [textsOf]
  · rw [hsent]
    refine iff_of_false ?_ (not_not.2 rfl)
    by_cases hs : side' = side
    · subst hs
      rw [midLine_concat_self hside]
      exact Bool.false_ne_true
    · rw [midLine_concat_of_ne (by rw [hside]; exact Ne.symm hs), h.part side',
        (eq_or_eq_other side side').resolve_left hs]
      exact not_not.2 hother
  · rw [hpending, setPending] at hp'
    split at hp'
    · cases hp'
    · exact h.writing side' p' hp'

theorem write_zero (p : Pending) : p.write 0 = (some p, []) := if_pos rfl

theorem write_of_le (hn : n ≠ 0) (hlen : p.rest.length ≤ n) :
    p.write n = (none, [⟨p.origin, p.rest, true⟩]) := by
  rw [Pending.write, if_neg hn, if_pos hlen]

theorem write_of_lt (hn : n ≠ 0) (hlen : n < p.rest.length) :
    p.write n = (some { p with rest := p.rest.drop n }, [⟨p.origin, p.rest.take n, false⟩]) := by
  rw [Pending.write, if_neg hn, if_neg (not_le.2 hlen)]

/-- An event that disturbs no line. -/
theorem Tidy.next (h : Tidy s begun out parts) (hu : Undisturbed s e) :
    ∃ out' parts', Tidy (s.next e) (begun ++ (s.begins e).toList) out' parts' := by
  cases effect s e with
  | quiet hbegins hwrites hsent hpending =>
    rw [hbegins, Option.toList_none, List.append_nil]
    exact ⟨out, parts, h.congr hsent hpending⟩
  | opens side p hrest hside hnone hbegins hwrites hsent hpending =>
    rw [hbegins]
    exact ⟨out, parts, h.opens hrest hside hnone hsent hpending⟩
  | write side p n hp hbegins hwrites hsent hpending =>
    rw [hbegins, Option.toList_none, List.append_nil]
    by_cases hn : n = 0
    · subst hn
      rw [write_zero] at hsent hpending
      refine ⟨out, parts, h.congr (hsent.trans (List.append_nil _)) ?_⟩
      rw [hpending]
      funext side'
      rw [setPending]
      split
      · rename_i hs
        rw [hs, hp]
      · rfl
    · have hother : parts side.other = [] := by
        have hmid := hu _ hwrites hn (by rw [hp]; rfl)
        by_contra hne
        exact absurd (hmid.symm.trans ((h.part side.other).2 hne)) nofun
      rcases le_or_gt p.rest.length n with hlen | hlen
      · rw [write_of_le hn hlen] at hsent hpending
        exact ⟨_, _, h.write_last hp hother hsent hpending⟩
      · rw [write_of_lt hn hlen] at hsent hpending
        have htake : p.rest.take n ≠ [] := by
          rw [Ne, List.take_eq_nil_iff, not_or]
          exact ⟨hn, (h.writing side p hp).1⟩
        have hdrop : p.rest.drop n ≠ [] := by
          rw [Ne, List.drop_eq_nil_iff]
          omega
        exact ⟨_, _, h.write_part hp hother (List.take_append_drop n p.rest).symm htake hdrop hsent
          hpending⟩

/-- What is tidy is contiguous. -/
theorem Tidy.contiguous (h : Tidy s begun out parts) : Contiguous begun (Report.stream s.sent) := by
  have hside : ∀ side : Side, parts side.other = [] → Contiguous begun (Report.stream s.sent) := by
    intro side hother
    refine ⟨out ++ (current s parts side).map (Prod.mk side) ++
      (current s parts side.other).map (Prod.mk side.other), fun side' => ?_, ?_⟩
    · rw [textsOf_append, textsOf_append, textsOf_map, textsOf_map, h.texts]
      rcases eq_or_eq_other side side' with rfl | rfl
      · rw [if_pos rfl, if_neg (other_ne side'), List.append_nil]
      · rw [if_neg (other_ne side).symm, if_pos rfl, List.append_nil]
    · rw [h.stream side hother, List.append_assoc, List.flatMap_append, List.prefix_append_right_inj,
        List.flatMap_append, current]
      cases hp : s.pending side with
      | none =>
        rw [h.idle side hp]
        exact List.nil_prefix
      | some p =>
        rw [Option.toList_some, List.map_singleton, List.map_singleton, List.flatMap_singleton,
          tagged_append, List.append_assoc]
        exact List.prefix_append _ _
  rcases h.one .sender with hsender | hlistener
  · exact hside .listener hsender
  · exact hside .sender hlistener

/-! ## Lines that are disturbed -/

theorem sent_prefix_after (s : Socket server) (es : List SocketEvent) :
    s.sent <+: (Run.after Socket.next s es).sent := by
  induction es generalizing s with
  | nil => exact List.prefix_rfl
  | cons e es ih => exact (sent_prefix_next s e).trans (ih (s.next e))

/-- A call that takes bytes. -/
theorem exists_write (hn : n ≠ 0) (hrest : p.rest ≠ []) :
    ∃ w, (p.write n).2 = [w] ∧ w.origin = p.origin ∧ w.bytes ≠ [] := by
  rcases le_or_gt p.rest.length n with hlen | hlen
  · rw [write_of_le hn hlen]
    exact ⟨_, rfl, rfl, hrest⟩
  · rw [write_of_lt hn hlen]
    refine ⟨_, rfl, rfl, ?_⟩
    rw [Ne, List.take_eq_nil_iff, not_or]
    exact ⟨hn, hrest⟩

/-- A call of a thread that has a line to write puts bytes on the socket. -/
theorem Tidy.sent_of_writes (h : Tidy s begun out parts) (hwrites : e.writes = some (side, n))
    (hn : n ≠ 0) (hsome : (s.pending side).isSome) :
    ∃ w, (s.next e).sent = s.sent ++ [w] ∧ w.origin.side = side ∧ w.bytes ≠ [] := by
  cases effect s e with
  | quiet _ hquiet _ _ =>
    have hnone : s.pending side = none := hquiet _ hwrites
    rw [hnone] at hsome
    cases hsome
  | opens _ _ _ _ _ _ hnone _ _ =>
    rw [hnone] at hwrites
    cases hwrites
  | write side' p n' hp _ hwrites' hsent _ =>
    obtain ⟨rfl, rfl⟩ := Prod.mk.inj (Option.some.inj (hwrites'.symm.trans hwrites))
    obtain ⟨hrest, horigin⟩ := h.writing side' p hp
    obtain ⟨w, hw, hworigin, hbytes⟩ := exists_write hn hrest
    rw [hw] at hsent
    exact ⟨w, hsent, by rw [hworigin, horigin], hbytes⟩

/-- A byte in the middle of a line of the other thread stays there. -/
theorem Tidy.not_contiguous (h : Tidy s begun out parts) (hu : ¬ Undisturbed s e)
    (es : List SocketEvent) (more : List (Side × Text)) :
    ¬ Contiguous (begun ++ more) (Report.stream (Run.after Socket.next (s.next e) es).sent) := by
  simp only [Undisturbed, not_forall] at hu
  obtain ⟨⟨side, n⟩, hwrites, hn, hsome, hmid⟩ := hu
  have hpart : parts side.other ≠ [] := (h.part side.other).1 (Bool.eq_true_of_not_eq_false hmid)
  obtain ⟨q, hq⟩ : ∃ q, s.pending side.other = some q := by
    cases hq : s.pending side.other with
    | none => exact absurd (h.idle _ hq) hpart
    | some q => exact ⟨q, rfl⟩
  obtain ⟨w, hsent, hside, hbytes⟩ := h.sent_of_writes hwrites hn hsome
  obtain ⟨tail, htail⟩ := sent_prefix_after (s.next e) es
  obtain ⟨c, cs, hcs⟩ := List.exists_cons_of_ne_nil hbytes
  have hstream : Report.stream (Run.after Socket.next (s.next e) es).sent =
      Report.stream s.sent ++ (side, c) :: (tagged (side, cs) ++ Report.stream tail) := by
    rw [← htail, hsent, stream_append, stream_append, stream_singleton, hside, hcs, List.append_assoc]
    rfl
  have htexts : textsOf side.other (begun ++ more) =
      textsOf side.other out ++ (parts side.other ++ q.rest) :: textsOf side.other more := by
    rw [textsOf_append, h.texts, current, hq, List.append_assoc]
    rfl
  have hproj : proj side.other (Report.stream s.sent) =
      (textsOf side.other out).flatten ++ parts side.other := by
    rw [h.stream side.other ((h.one side.other).resolve_left hpart), proj_append, proj_flatMap_tagged,
      proj_tagged]
  intro hcontiguous
  rw [hstream] at hcontiguous
  have htag : side = side.other :=
    hcontiguous.next_tag htexts hpart (h.writing side.other q hq).1 hproj
  exact other_ne side htag.symm

/-- From a tidy state on, all lines stay whole exactly if none is disturbed. -/
theorem Tidy.contiguous_iff (es : List SocketEvent) (h : Tidy s begun out parts) :
    Contiguous (begun ++ s.begun es) (Report.stream (Run.after Socket.next s es).sent) ↔
      Run.Along Socket.next Undisturbed s es := by
  induction es generalizing s begun out parts with
  | nil =>
    rw [Socket.begun, List.append_nil, Run.after_nil]
    exact iff_of_true h.contiguous trivial
  | cons e es ih =>
    rw [Run.after_cons, Run.Along, Socket.begun, ← List.append_assoc]
    by_cases hu : Undisturbed s e
    · obtain ⟨out', parts', h'⟩ := h.next hu
      rw [ih h']
      exact (and_iff_right hu).symm
    · rw [List.append_assoc]
      exact iff_of_false (h.not_contiguous hu es _) fun hall => hu hall.1

/-- All lines are written contiguously exactly if no call of `write` takes bytes while the other thread
is in the middle of a line. -/
theorem lineIntegrity_iff (server : Server) (es : List SocketEvent) :
    LineIntegrity server es ↔ Run.Along Socket.next Undisturbed (.start server) es :=
  tidy_start.contiguous_iff es

/-- The socket takes the first ten bytes of a report, and then the acknowledgement. -/
theorem not_lineIntegrity_ack :
    ¬ LineIntegrity .epdg
      [.add sampleReport, .fetch, .senderWrite 10, .command .hello, .listenerWrite 4] := by
  have hdisturbed : ¬ Run.Along Socket.next Undisturbed (.start .epdg)
      [.add sampleReport, .fetch, .senderWrite 10, .command .hello, .listenerWrite 4] := by
    decide +kernel
  exact fun h => hdisturbed ((tidy_start.contiguous_iff _).1 h)

end Report

import VoWiFi.Report.SendQueue

/-!
# The array is a bounded queue

The slots in use hold the elements of a bounded queue, and the two functions do to it what `add` and
`fetch` do. What holds of the queue over a whole run then holds of the array.
-/

namespace Report

variable {server : Server} {α : Type} {q : SendQueue server α}
  {items : BoundedQueue α server.maxQueueLen}

/-- The slots in use hold the elements of a queue. -/
structure SendQueue.Represents (q : SendQueue server α) (items : BoundedQueue α server.maxQueueLen) :
    Prop where
  slast : q.slast = items.items.length
  slots : q.sendq.1.take q.slast = items.items.map some

theorem SendQueue.Represents.slast_le (h : q.Represents items) : q.slast ≤ q.sendq.1.length := by
  rw [h.slast, q.sendq.2]
  exact items.le_cap

/-! ## One call -/

/-- Adding is refused exactly if the queue refuses. -/
theorem represents_add (h : q.Represents items) (msg : α) :
    (q.addMessageToSendQueue msg).2.Represents (items.add msg).2 ∧
      ((q.addMessageToSendQueue msg).1 = 1 ∧ (items.add msg).1 = true ∧
          (items.add msg).2.items = items.items ++ [msg] ∧ q.slast < server.maxQueueLen ∨
        (q.addMessageToSendQueue msg).1 = -1 ∧ (items.add msg).2 = items ∧
          q.slast = server.maxQueueLen) := by
  rw [SendQueue.addMessageToSendQueue]
  by_cases hroom : q.slast < server.maxQueueLen
  · obtain ⟨hadd, hitems⟩ := BoundedQueue.add_of_lt (h.slast ▸ hroom) msg
    have hlt : q.slast < q.sendq.1.length := by rwa [q.sendq.2]
    rw [if_pos hroom]
    refine ⟨⟨?_, ?_⟩, .inl ⟨rfl, hadd, hitems, hroom⟩⟩
    · rw [hitems, List.length_append, ← h.slast]
      rfl
    · -- the slot that is written comes behind those that were in use
      show (q.sendq.1.set q.slast (some msg)).take (q.slast + 1) = _
      rw [hitems, List.map_append, ← h.slots, List.take_succ_eq_append_getElem (by rwa [List.length_set]),
        List.getElem_set_self, List.take_set_of_le le_rfl]
      rfl
  · have hfull : ¬ items.items.length < server.maxQueueLen := h.slast ▸ hroom
    have hcap := items.le_cap
    rw [if_neg hroom, BoundedQueue.add_of_not_lt hfull]
    refine ⟨h, .inr ⟨rfl, rfl, ?_⟩⟩
    rw [h.slast]
    omega

theorem take_clear (server : Server) (slast : ℕ) (a : List (Option α)) :
    (SendQueue.clear server slast a).take slast = a.take slast := by
  cases server with
  | epdg => rfl
  | ims => exact List.take_fill

/-- Fetching returns what the queue gives. -/
theorem represents_fetch (h : q.Represents items) :
    (q.fetchMessageFromSendQueue.1 = none ∧ q.fetchMessageFromSendQueue.2.Represents items ∧
        items.items = [] ∧ q.slast = 0) ∨
      ∃ msg items', q.fetchMessageFromSendQueue.1 = some msg ∧
        q.fetchMessageFromSendQueue.2.Represents items' ∧ items.items = msg :: items'.items ∧
        q.slast ≠ 0 := by
  rw [SendQueue.fetchMessageFromSendQueue]
  cases hfetch : items.fetch with
  | none =>
    have hnil := BoundedQueue.items_of_fetch_none hfetch
    have hzero : q.slast = 0 := by rw [h.slast, hnil, List.length_nil]
    rw [if_neg (by omega)]
    exact .inl ⟨rfl, h, hnil, hzero⟩
  | some r =>
    obtain ⟨msg, items'⟩ := r
    have hcons := BoundedQueue.items_of_fetch hfetch
    have hslast : q.slast = items'.items.length + 1 := by rw [h.slast, hcons, List.length_cons]
    have hslots : q.sendq.1.take q.slast = some msg :: items'.items.map some := by
      rw [h.slots, hcons, List.map_cons]
    have hpos : 0 < q.slast := by omega
    rw [if_pos hpos]
    refine .inr ⟨msg, items', ?_, ⟨?_, ?_⟩, hcons, by omega⟩
    · -- the first slot is in use
      have hhead := congrArg (·[0]?) hslots
      rw [List.getElem?_take_of_lt hpos] at hhead
      rw [List.getD_eq_getElem?_getD, hhead]
      rfl
    · show q.slast - 1 = _
      omega
    · show (SendQueue.clear server (q.slast - 1) (q.sendq.1.shiftDown none q.slast)).take (q.slast - 1) = _
      rw [take_clear, List.take_shiftDown none hpos h.slast_le, hslots, List.tail_cons]

/-! ## Runs -/

/-- The array holds a queue with the messages that have been accepted and not fetched. -/
def QueueHistory.Waits (s : QueueHistory server α) : Prop :=
  ∃ items, s.q.Represents items ∧ s.accepted = s.fetched ++ items.items

theorem waits_start (sendq : Slots server α) : (QueueHistory.start sendq).Waits :=
  ⟨.empty, ⟨rfl, rfl⟩, rfl⟩

theorem waits_next (s : QueueHistory server α) (c : QueueCall α) (h : s.Waits) : (s.next c).Waits := by
  obtain ⟨items, hrep, hacc⟩ := h
  cases c with
  | add msg =>
    obtain ⟨hrep', ⟨hret, -, hitems, -⟩ | ⟨hret, hsame, -⟩⟩ := represents_add hrep msg
    · refine ⟨(items.add msg).2, hrep', ?_⟩
      rw [QueueHistory.next, hitems, ← List.append_assoc, ← hacc]
      exact if_pos hret
    · refine ⟨(items.add msg).2, hrep', ?_⟩
      rw [QueueHistory.next, hsame, ← hacc]
      refine if_neg ?_
      rw [hret]
      decide
  | fetch =>
    rcases represents_fetch hrep with ⟨hret, hrep', -, -⟩ | ⟨msg, items', hret, hrep', hcons, -⟩
    · refine ⟨items, hrep', ?_⟩
      show s.accepted = s.fetched ++ s.q.fetchMessageFromSendQueue.1.toList ++ items.items
      rw [hret, hacc, Option.toList_none, List.append_nil]
    · refine ⟨items', hrep', ?_⟩
      show s.accepted = s.fetched ++ s.q.fetchMessageFromSendQueue.1.toList ++ items'.items
      rw [hret, hacc, hcons, Option.toList_some, List.append_assoc]
      rfl

theorem QueueHistory.Waits.fifo {s : QueueHistory server α} (h : s.Waits) : s.Fifo := by
  obtain ⟨items, hrep, hacc⟩ := h
  refine ⟨?_, ?_, fun msg => ?_, ?_⟩
  · rw [hrep.slots, hacc, List.map_append]
  · rw [hrep.slast]
    exact items.le_cap
  · obtain ⟨-, ⟨hret, -, -, hroom⟩ | ⟨hret, -, hfull⟩⟩ := represents_add hrep msg
    · rw [hret]
      exact iff_of_false (by decide) (by omega)
    · exact iff_of_true hret hfull
  · rcases represents_fetch hrep with ⟨hret, -, -, hzero⟩ | ⟨msg, items', hret, -, -, hne⟩
    · exact iff_of_true hret hzero
    · rw [hret]
      exact iff_of_false (Option.some_ne_none msg) hne

end Report

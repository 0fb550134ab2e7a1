import VoWiFi.Ims.ReportMessage
import VoWiFi.Lib.BoundedQueue
import VoWiFi.Lib.Run

/-!
# The send queue of the IMS server

The instance is in shared memory. Several worker processes call `report_message`; the sender thread
fetches what they add to the queue. A call adds the start of a block and then its end, each in a
critical section of its own, and does not look at whether the queue took them.
-/

namespace Ims

open Report (Msg Server)

/-- A line in the queue, with the worker that added it. -/
structure Queued where
  worker : ℕ
  msg : Msg
  deriving DecidableEq, Repr

/-- The instance, as far as reports are concerned. -/
structure Reports where
  labels : Labels
  sendq : BoundedQueue Queued (Server.maxQueueLen .ims)
  /-- The workers between the start and the end of a block, and whether the queue took the start. -/
  calls : ℕ → Option Bool
  /-- The calls whose start the queue took, with their labels. -/
  accepted : List (ℕ × Text)
  /-- What the sender has fetched. -/
  fetched : List Queued

/-- A new instance. -/
def Reports.start : Reports := ⟨.init, .empty, fun _ => none, [], []⟩

/-- What happens to the instance. -/
inductive ReportEvent where
  /-- A worker calls `report_message`, up to the first critical section. -/
  | start (worker : ℕ) (query : Option Query) (m : SipMessage)
  /-- The worker goes on to the second critical section and returns. -/
  | finish (worker : ℕ)
  /-- The sender thread calls `fetch_message_from_send_queue`. -/
  | fetch
  /-- The command `init` resets the labels. -/
  | init

/-- One event. A worker makes one call at a time. -/
def Reports.next (s : Reports) : ReportEvent → Reports
  | .start w query m =>
    match s.calls w, s.labels.symbol query m with
    | none, (some symbol, labels) =>
      let (started, sendq) := s.sendq.add ⟨w, blockStart symbol⟩
      { s with
        labels := labels
        sendq := sendq
        calls := Function.update s.calls w (some started)
        accepted := if started then s.accepted ++ [(w, symbol)] else s.accepted }
    | none, (none, labels) => { s with labels := labels }
    | some _, _ => s
  | .finish w =>
    match s.calls w with
    | some _ =>
      { s with
        sendq := (s.sendq.add ⟨w, blockEnd⟩).2
        calls := Function.update s.calls w none }
    | none => s
  | .fetch =>
    match s.sendq.fetch with
    | some (line, sendq) => { s with sendq := sendq, fetched := s.fetched ++ [line] }
    | none => s
  | .init => { s with labels := .init }

/-- The two lines of a call. -/
def pair (call : ℕ × Text) : List Queued := [⟨call.1, blockStart call.2⟩, ⟨call.1, blockEnd⟩]

/-- What the queue has taken: the lines that were fetched, and those that wait. -/
def Reports.lines (s : Reports) : List Queued := s.fetched ++ s.sendq.items

/-- The lines of the reports are paired: those the queue has taken, and with them those that were
fetched, start a sequence of complete pairs in the order of the accepted calls, and they are all of it
once no accepted call has its end to come. -/
structure Reports.Paired (s : Reports) : Prop where
  ordered : s.lines <+: s.accepted.flatMap pair
  complete : (∀ w, s.calls w ≠ some true) → s.lines = s.accepted.flatMap pair

/-- There is room in the queue. -/
def Reports.Room (s : Reports) : Prop := s.sendq.items.length < Server.maxQueueLen .ims

/-- No start finds room while an accepted call has its end to come, and an end finds room exactly if
its start did. -/
def Reports.Steady (s : Reports) : ReportEvent → Prop
  | .start w query m =>
    s.calls w = none → (s.labels.symbol query m).1 ≠ none → s.Room → ∀ w', s.calls w' ≠ some true
  | .finish w => ∀ started, s.calls w = some started → (s.Room ↔ started = true)
  | .fetch | .init => True

end Ims

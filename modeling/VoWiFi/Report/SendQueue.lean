import VoWiFi.Lib.BoundedQueue
import VoWiFi.Lib.Fill
import VoWiFi.Lib.Run
import VoWiFi.Lib.Shift
import VoWiFi.Report.Message

/-!
# The array behind the send queue

Both servers keep the reports that wait to be sent in an array `sendq` with a number `slast` of slots in
use. `add_message_to_send_queue` writes behind the last one, `fetch_message_from_send_queue` takes the
first one and moves the others down; the IMS server then clears the slots behind them. Both functions hold
the lock of the queue, so calls of several threads come one after another.
-/

namespace Report

/-- The array, with a null pointer or whatever is left of earlier messages behind the slots in use. -/
def Slots (server : Server) (α : Type) : Type :=
  { sendq : List (Option α) // sendq.length = server.maxQueueLen }

/-- `sendq` and `slast` of an instance. -/
structure SendQueue (server : Server) (α : Type) where
  sendq : Slots server α
  slast : ℕ

namespace SendQueue

variable {server : Server} {α : Type}

/-- The queue of a new instance, whatever the memory of the array holds. -/
def start (sendq : Slots server α) : SendQueue server α := ⟨sendq, 0⟩

def addMessageToSendQueue (q : SendQueue server α) (msg : α) : ℤ × SendQueue server α :=
  if q.slast < server.maxQueueLen then
    (1, ⟨⟨q.sendq.1.set q.slast (some msg), List.length_set.trans q.sendq.2⟩, q.slast + 1⟩)
  else (-1, q)

/-- What is done to the slots that are no longer in use. -/
def clear (server : Server) (slast : ℕ) (a : List (Option α)) : List (Option α) :=
  match server with
  | .epdg => a
  | .ims => a.fill slast (Server.maxQueueLen .ims) none

theorem length_clear (server : Server) (slast : ℕ) (a : List (Option α)) :
    (clear server slast a).length = a.length := by
  cases server with
  | epdg => rfl
  | ims => exact List.length_fill

/-- `fetch_message_from_send_queue`; the message is a pointer. -/
def fetchMessageFromSendQueue (q : SendQueue server α) : Option α × SendQueue server α :=
  if 0 < q.slast then
    (q.sendq.1.getD 0 none,
      ⟨⟨clear server (q.slast - 1) (q.sendq.1.shiftDown none q.slast),
        ((length_clear _ _ _).trans (List.length_shiftDown _ _ _)).trans q.sendq.2⟩, q.slast - 1⟩)
  else (none, q)

end SendQueue

/-! ## Calls one after another -/

/-- A call of one of the two functions. -/
inductive QueueCall (α : Type) where
  | add (msg : α)
  | fetch

/-- The queue, the messages it has accepted and those that have been fetched. -/
structure QueueHistory (server : Server) (α : Type) where
  q : SendQueue server α
  accepted : List α
  fetched : List α

/-- Nothing has been called. -/
def QueueHistory.start {server : Server} {α : Type} (sendq : Slots server α) : QueueHistory server α :=
  ⟨.start sendq, [], []⟩

def QueueHistory.next {server : Server} {α : Type} (s : QueueHistory server α) :
    QueueCall α → QueueHistory server α
  | .add msg =>
    let (ret, q) := s.q.addMessageToSendQueue msg
    { s with q := q, accepted := if ret = 1 then s.accepted ++ [msg] else s.accepted }
  | .fetch =>
    let (ret, q) := s.q.fetchMessageFromSendQueue
    { s with q := q, fetched := s.fetched ++ ret.toList }

/-- The queue is first in, first out and bounded. -/
structure QueueHistory.Fifo {server : Server} {α : Type} (s : QueueHistory server α) : Prop where
  /-- What was accepted has been fetched or waits, in this order. -/
  order : s.accepted.map some = s.fetched.map some ++ s.q.sendq.1.take s.q.slast
  bounded : s.q.slast ≤ server.maxQueueLen
  refused : ∀ msg, (s.q.addMessageToSendQueue msg).1 = -1 ↔ s.q.slast = server.maxQueueLen
  empty : s.q.fetchMessageFromSendQueue.1 = none ↔ s.q.slast = 0

end Report

import VoWiFi.Lib.BoundedQueue
import VoWiFi.Lib.Run
import VoWiFi.Report.Message

/-!
# The socket to the controller

Three parties share the connection to the controller. The code that handles the messages of the UE
adds reports to a bounded queue, the sender thread takes them out and writes their lines, and the
listener thread reads commands and writes the acknowledgement of `Hello` and `init` itself. The
socket is non-blocking, so that either thread calls `write` until its line is out, and each call may
take any number of the bytes that are left.
-/

namespace Report

/-- Where written bytes come from. -/
inductive Origin where
  /-- A report that was added to the queue after `inits` commands `init` had been handled. -/
  | report (inits : ℕ)
  /-- An acknowledgement, with the number of its `init`; the one of `Hello` has none. -/
  | ack (init : Option ℕ)
  deriving DecidableEq, Repr

/-- A line that a thread is writing. -/
structure Pending where
  /-- What the line is. -/
  origin : Origin
  /-- The bytes that are left. -/
  rest : Text
  deriving DecidableEq, Repr

/-- A call of `write` that took some bytes. -/
structure Write where
  /-- What they belong to. -/
  origin : Origin
  bytes : Text
  /-- They end the line. -/
  last : Bool
  deriving DecidableEq, Repr

/-- A report in the queue, with the number of `init` commands handled before it was added. -/
structure Queued where
  inits : ℕ
  msg : Msg
  deriving DecidableEq, Repr

/-- The state of the connection. -/
structure Socket (server : Server) where
  sendq : BoundedQueue Queued server.maxQueueLen
  /-- The line of the sender thread, if it is writing. -/
  sender : Option Pending
  /-- The line of the listener thread, if it is writing. -/
  listener : Option Pending
  /-- How many `init` commands have been handled. -/
  inits : ℕ
  /-- What has been written, the oldest bytes first. -/
  sent : List Write

/-- The connection when it is opened. -/
def Socket.start (server : Server) : Socket server := ⟨.empty, none, none, 0, []⟩

/-- What the listener reads. -/
inductive Command where
  | hello
  | init
  | fin
  | line
  deriving DecidableEq, Repr

/-- What the three parties do. -/
inductive SocketEvent where
  | add (msg : Msg)
  | fetch
  /-- The sender calls `write`, which takes up to `n` bytes. -/
  | senderWrite (n : ℕ)
  | command (c : Command)
  /-- The listener calls `write`, which takes up to `n` bytes. -/
  | listenerWrite (n : ℕ)
  deriving DecidableEq, Repr

def ackResponse : Text := "ACK\n".toList

/-- One call of `write`: what is left of the line, and what was written. -/
def Pending.write (p : Pending) (n : ℕ) : Option Pending × List Write :=
  if n = 0 then (some p, [])
  else if p.rest.length ≤ n then (none, [⟨p.origin, p.rest, true⟩])
  else (some { p with rest := p.rest.drop n }, [⟨p.origin, p.rest.take n, false⟩])

variable {server : Server}

/-- One event. A thread that is writing does nothing else, and one that is not writing has nothing
to write. -/
def Socket.next (s : Socket server) : SocketEvent → Socket server
  | .add msg => { s with sendq := (s.sendq.add ⟨s.inits, msg⟩).2 }
  | .fetch =>
    match s.sender, s.sendq.fetch with
    | none, some (r, q) =>
      { s with sendq := q, sender := some ⟨.report r.inits, server.line r.msg⟩ }
    | _, _ => s
  | .senderWrite n =>
    match s.sender with
    | some p => { s with sender := (p.write n).1, sent := s.sent ++ (p.write n).2 }
    | none => s
  | .command c =>
    match s.listener, c with
    | none, .hello => { s with listener := some ⟨.ack none, ackResponse⟩ }
    | none, .init =>
      { s with inits := s.inits + 1, listener := some ⟨.ack (some (s.inits + 1)), ackResponse⟩ }
    | _, _ => s
  | .listenerWrite n =>
    match s.listener with
    | some p => { s with listener := (p.write n).1, sent := s.sent ++ (p.write n).2 }
    | none => s

/-! ## What is said about a run -/

/-- The second write is not one of a report from before an `init` whose acknowledgement the first
write has completed. -/
def Write.Before (w w' : Write) : Prop :=
  ∀ k inits, w.origin = .ack (some k) → w.last = true → w'.origin = .report inits → k ≤ inits

instance (w w' : Write) : Decidable (w.Before w') :=
  match ho : w.origin, ho' : w'.origin with
  | .ack (some k), .report i => decidable_of_iff (w.last = true → k ≤ i) <| by
    simp [Write.Before, ho, ho']
  | .ack none, _ => isTrue fun k i h _ _ => by simp [ho] at h
  | .report _, _ => isTrue fun k i h _ _ => by simp [ho] at h
  | _, .ack _ => isTrue fun k i _ _ h => by simp [ho'] at h

/-- No report from before an `init` is written after the acknowledgement of that `init`. -/
def NoStale (sent : List Write) : Prop := sent.Pairwise Write.Before

instance (sent : List Write) : Decidable (NoStale sent) :=
  inferInstanceAs (Decidable (sent.Pairwise Write.Before))

/-- All reports that are still to be written were added after `init` number `k`. -/
def Socket.Since (s : Socket server) (k : ℕ) : Prop :=
  (∀ r ∈ s.sendq.items, k ≤ r.inits) ∧
    ∀ p ∈ s.sender, ∀ inits, p.origin = .report inits → k ≤ inits

/-- When the acknowledgement of an `init` is completed, no report from before that `init` is waiting
in the queue or being written. -/
def Drained (s : Socket server) : SocketEvent → Prop
  | .listenerWrite n => ∀ p ∈ s.listener, ∀ k, p.origin = .ack (some k) → n ≠ 0 →
    p.rest.length ≤ n → s.Since k
  | _ => True

/-- A step of the sender thread. -/
def SocketEvent.bySender : SocketEvent → Bool
  | .fetch | .senderWrite _ => true
  | _ => false

end Report

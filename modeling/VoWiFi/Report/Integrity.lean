import VoWiFi.Lib.TaggedStream
import VoWiFi.Report.Socket

/-!
# Lines on the socket

The controller reads the socket line by line, so the lines of the sender thread and those of the listener
thread should not be mixed. Both threads call `write` on the same socket until their line is out, and
nothing keeps one of them from writing while the other is in the middle of a line.
-/

namespace Report

open TaggedStream (Contiguous tagged)

/-- The two threads that write. -/
inductive Side where
  | sender
  | listener
  deriving DecidableEq, Repr

def Side.other : Side → Side
  | .sender => .listener
  | .listener => .sender

/-- The thread that writes a line: reports are written by the sender. -/
def Origin.side : Origin → Side
  | .report _ => .sender
  | .ack _ => .listener

/-- The bytes on the socket, with the thread that has written them. -/
def stream (sent : List Write) : List (Side × Char) :=
  sent.flatMap fun w => tagged (w.origin.side, w.bytes)

variable {server : Server}

/-- The line that a thread begins with an event. -/
def Socket.begins (s : Socket server) : SocketEvent → Option (Side × Text)
  | .fetch =>
    match s.sender, s.sendq.fetch with
    | none, some (r, _) => some (.sender, server.line r.msg)
    | _, _ => none
  | .command c =>
    match s.listener, c with
    | none, .hello => some (.listener, ackResponse)
    | none, .init => some (.listener, ackResponse)
    | _, _ => none
  | _ => none

/-- The lines that are begun in a run. -/
def Socket.begun (s : Socket server) : List SocketEvent → List (Side × Text)
  | [] => []
  | e :: es => (s.begins e).toList ++ (s.next e).begun es

/-- Every line that is begun in a run is written contiguously. -/
def LineIntegrity (server : Server) (es : List SocketEvent) : Prop :=
  Contiguous ((Socket.start server).begun es) (stream (Run.after Socket.next (.start server) es).sent)

/-! ## Threads that wait for each other -/

/-- The line that a thread is writing. -/
def Socket.pending (s : Socket server) : Side → Option Pending
  | .sender => s.sender
  | .listener => s.listener

/-- The thread that calls `write`, and how many bytes the call can take. -/
def SocketEvent.writes : SocketEvent → Option (Side × ℕ)
  | .senderWrite n => some (.sender, n)
  | .listenerWrite n => some (.listener, n)
  | _ => none

/-- The last bytes that a thread has written do not end a line. -/
def midLine (sent : List Write) (side : Side) : Bool :=
  ((sent.filter (·.origin.side = side)).getLast?).any fun w => !w.last

/-- A call of `write` takes bytes only while the other thread is not in the middle of a line. -/
def Undisturbed (s : Socket server) (e : SocketEvent) : Prop :=
  ∀ w ∈ e.writes, w.2 ≠ 0 → (s.pending w.1).isSome → midLine s.sent w.1.other = false

instance (s : Socket server) (e : SocketEvent) : Decidable (Undisturbed s e) :=
  inferInstanceAs (Decidable (∀ w ∈ e.writes, _))

end Report

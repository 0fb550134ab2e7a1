import VoWiFi.Epdg.ProcessQuery

/-!
# The chain of payloads

The loop of `generate_message` writes the header and the payloads outside the encrypted one. A payload is
written when the next one is known, whose type goes into its next-payload field. While `process_query`
drops the following payload the loop keeps its payload in two pointers and goes on to the next one.

The functions that change a payload do so through the pointer. The model has a heap for this, with the
header at address zero and the payloads of the list behind it.
-/

namespace Epdg

structure IkePayload where
  body : PayloadBody
  nextType : PayloadType
  deriving DecidableEq, Repr

/-- What the loop does with a payload. -/
inductive ChainEvent where
  /-- The function of `process_query` for its type is called. -/
  | handled (address : ℕ)
  /-- The payload is written as it is then. -/
  | emitted (address : ℕ) (p : IkePayload)
  deriving DecidableEq, Repr

/-- The variables of the loop, with what the functions of `process_query` read and change in `env`. -/
structure ChainState (σ : Type) where
  env : σ
  heap : ℕ → IkePayload
  payload : ℕ
  ppayload : Option ℕ
  pret : ProcessRet
  log : List ChainEvent

section

variable {σ : Type} (handle : σ → PayloadBody → Except Stop (σ × PayloadBody)) (query : Option Query)

/-- `process_query` for the current payload and the next one. -/
def ChainState.processQuery (c : ChainState σ) (next : ℕ) : Except Stop (ChainState σ) :=
  if checkDropNext query (c.heap next).body = .needDropNext then .ok { c with pret := .needDropNext }
  else
    let p := c.heap c.payload
    if p.body.type.hasHandler then
      match handle c.env p.body with
      | .error stop => .error stop
      | .ok (env, body) =>
        .ok { c with
          env, pret := .completed
          heap := Function.update c.heap c.payload { p with body }
          log := c.log ++ [.handled c.payload] }
    else .ok { c with pret := .completed }

/-- Set the next-payload field of the current payload and write it. -/
def ChainState.emit (c : ChainState σ) (type : PayloadType) : ChainState σ :=
  let p := { c.heap c.payload with nextType := type }
  { c with heap := Function.update c.heap c.payload p, log := c.log ++ [.emitted c.payload p] }

/-- Go back to the payload before a dropped one. -/
def ChainState.resume (c : ChainState σ) : ChainState σ :=
  match c.ppayload with
  | some p => { c with payload := p, ppayload := none }
  | none => c

/-- The rest of an iteration, once `process_query` has answered. -/
def ChainState.advance (c : ChainState σ) (next : ℕ) : ChainState σ :=
  if c.pret = .needDropNext then { c with ppayload := some c.payload }
  else { c.resume.emit (c.heap next).body.type with payload := next }

/-- An iteration of the loop. -/
def ChainState.step (attached : Bool) (c : ChainState σ) (next : ℕ) : Except Stop (ChainState σ) :=
  if attached then (c.processQuery handle query next).map (·.advance next) else .ok (c.advance next)

/-- The heap with the header and the payloads of the message. -/
def initialHeap (header : IkePayload) (payloads : List IkePayload) (address : ℕ) : IkePayload :=
  (header :: payloads).getD address header

/-- The addresses of the payloads. -/
def addresses (payloads : List IkePayload) : List ℕ := List.range' 1 payloads.length

/-- The type of the encrypted payload, or none. Only an encrypted message of IKEv1 has the type that
follows in it. -/
def lastType (isEncrypted : Bool) (encrypted : Option (PayloadType × PayloadType)) : PayloadType :=
  match encrypted with
  | none => .plain .none
  | some (type, nextType) => if isEncrypted then nextType else type

/-- The part of `generate_message` that writes the payloads. -/
def generateChain (attached : Bool) (env : σ) (header : IkePayload) (payloads : List IkePayload)
    (last : PayloadType) : Except Stop (ChainState σ) :=
  ((addresses payloads).foldlM (ChainState.step handle query attached)
    ⟨env, initialHeap header payloads, 0, none, .notSet, []⟩).map (·.emit last)

end

/-! ## What is written -/

/-- The address and the payload of an event, if it writes one. -/
def ChainEvent.emission : ChainEvent → Option (ℕ × IkePayload)
  | .emitted address p => some (address, p)
  | .handled _ => none

def ChainState.emissions {σ : Type} (c : ChainState σ) : List (ℕ × IkePayload) :=
  c.log.filterMap ChainEvent.emission

/-- The addresses of the payloads that are not dropped. -/
def keptAddresses (query : Option Query) (attached : Bool) (header : IkePayload)
    (payloads : List IkePayload) : List ℕ :=
  (addresses payloads).filter fun i =>
    !(attached && checkDropNext query (initialHeap header payloads i).body = .needDropNext)

/-- The address of the last payload that is written. -/
def lastAddress (query : Option Query) (attached : Bool) (header : IkePayload)
    (payloads : List IkePayload) : ℕ :=
  (0 :: keptAddresses query attached header payloads).getLast (List.cons_ne_nil _ _)

/-- Every payload of a type that `process_query` has a function for has been handed to it once when it is
written. -/
def EveryHandled (log : List ChainEvent) : Prop :=
  ∀ before address p after, log = before ++ .emitted address p :: after →
    p.body.type.hasHandler = true → before.count (.handled address) = 1

end Epdg

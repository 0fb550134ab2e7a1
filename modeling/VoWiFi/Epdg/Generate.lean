import VoWiFi.Epdg.Instance

/-!
# Generating a response

`generate_message` of `message.c` turns a message into bytes. For the attached session it reads the
current query in several places: five times for the size of the message, and once for every payload
that is not encrypted, when the payload is handed to `process_query` together with the one before
it. `encrypt_content` reads it three times to rewrite the authentication code of an encrypted message,
but takes the instance from the AEAD transform.
-/

namespace Epdg

/-- Where the current query is read. -/
inductive Site where
  /-- The lookup of `message_size` for one of five responses. -/
  | messageSize
  /-- `process_query`, for the header or payload that is written next and the one that follows. -/
  | payload
  /-- The authentication code of an encrypted message. -/
  | messageAuthenticationCode
  deriving DecidableEq, Repr

/-- A lookup of the current query, with what it found. -/
structure Lookup where
  site : Site
  seen : Option Query

/-- What the generation of a message depends on besides the instance. -/
structure Generation where
  /-- The exchange type is known, the addresses are set and there are keys if they are needed. -/
  ready : Bool := true
  /-- The number of payloads outside the encrypted payload. -/
  payloads : ℕ := 0
  /-- There is an encrypted payload. -/
  encrypted : Bool := false
  /-- The rest of the generation succeeds. -/
  completes : Bool := true
  deriving DecidableEq, Repr

/-- The loop over the payloads, which asks `check_instance` each time. -/
def generatePayloads (inst : Instance) (ispi rspi : UInt64) : ℕ → Instance × List Lookup
  | 0 => (inst, [])
  | n + 1 =>
    let (attached, inst) := inst.checkInstance ispi rspi false
    let (inst', lookups) := generatePayloads inst ispi rspi n
    (inst', if attached then ⟨.payload, inst.query⟩ :: lookups else lookups)

/-- The lookups of `encrypt_content`, given the instance of the AEAD transform. -/
def encryptContent (aead : Option Instance) (ispi rspi : UInt64) : List Lookup :=
  match aead with
  | none => []
  | some inst =>
    if (inst.checkInstance ispi rspi false).1 then
      List.replicate 3 ⟨.messageAuthenticationCode, inst.query⟩
    else []

/-- The instance of an AEAD transform. `aead_create` leaves it a null pointer, and `set_instance` of
the transform is called nowhere. -/
def aeadInstance : Option Instance := none

/-- `generate_message` and `finalize_message` for a message with an instance: whether they succeed,
the instance afterwards and the lookups. -/
def generateMessage (inst : Instance) (ispi rspi : UInt64) (g : Generation) :
    Bool × Instance × List Lookup :=
  if g.ready then
    let (attached, inst) := inst.checkInstance ispi rspi false
    let (inst', lookups) := generatePayloads inst ispi rspi g.payloads
    (g.completes, inst',
      (if attached then List.replicate 5 ⟨.messageSize, inst.query⟩ else []) ++ lookups ++
        if g.encrypted then encryptContent aeadInstance ispi rspi else [])
  else (false, inst, [])

end Epdg

import VoWiFi.Epdg.EapAka
import VoWiFi.Epdg.IkeHeader

/-!
# Changing the payloads of a message

`process_query` is called with a payload and the one that follows it. If the query drops the following
one it says so and does nothing else; otherwise it hands the payload to the function for its type, which
looks up the updates of the query for this payload.
-/

namespace Epdg

/-! ## Payloads -/

/-- The payload types that `process_query` has no function for. -/
inductive PlainType where
  /-- `PL_NONE`. -/
  | none
  | securityAssociation
  | authentication
  | tsInitiator
  | tsResponder
  | configuration
  | encrypted
  | other (n : ℕ)
  deriving DecidableEq, Repr

/-- `payload_type_t`. -/
inductive PayloadType where
  | header
  | keyExchange
  | nonce
  | notify
  | idResponder
  | eap
  | plain (t : PlainType)
  deriving DecidableEq, Repr

structure KePayload where
  dhGroupNumber : UInt16
  keyExchangeData : Chunk
  deriving DecidableEq, Repr

/-- The notify types that the functions tell apart. -/
inductive NotifyKind where
  | natDetectionSourceIp
  | natDetectionDestinationIp
  | signatureHashAlgorithms
  | childlessIkev2Supported
  | authenticationFailed
  | other (n : ℕ)
  deriving DecidableEq, Repr

structure NotifyPayload where
  kind : NotifyKind
  notifyData : Chunk
  deriving DecidableEq, Repr

structure IdPayload where
  idType : UInt8
  idData : Chunk
  deriving DecidableEq, Repr

/-- The header or a payload, with the fields that a query can change. -/
inductive PayloadBody where
  | header (h : IkeHeader)
  | keyExchange (ke : KePayload)
  | nonce (nonce : Chunk)
  | notify (n : NotifyPayload)
  | idResponder (id : IdPayload)
  | eap (data : Chunk)
  | plain (t : PlainType)
  deriving DecidableEq, Repr

def PayloadBody.type : PayloadBody → PayloadType
  | header _ => .header
  | keyExchange _ => .keyExchange
  | nonce _ => .nonce
  | notify _ => .notify
  | idResponder _ => .idResponder
  | eap _ => .eap
  | plain t => .plain t

/-- `process_query` has a function for the type. -/
def PayloadType.hasHandler : PayloadType → Bool
  | plain _ => false
  | _ => true

/-! ## Drops -/

/-- One of the checks of `check_drop_next`. -/
structure DropRule where
  round : Round
  path : List Text
  /-- The check is about the payload. -/
  applies : PayloadBody → Bool

def dropRules : List DropRule :=
  [⟨.init, ["security_association".toList], (·.type = .plain .securityAssociation)⟩,
    ⟨.init, ["key_exchange".toList], (·.type = .keyExchange)⟩,
    ⟨.init, ["nonce".toList], (·.type = .nonce)⟩,
    ⟨.init, ["notify".toList, "nat_detection_source_ip".toList],
      fun | .notify n => n.kind = .natDetectionSourceIp | _ => false⟩,
    ⟨.init, ["notify".toList, "nat_detection_destination_ip".toList],
      fun | .notify n => n.kind = .natDetectionDestinationIp | _ => false⟩,
    ⟨.auth 0, ["id_responder".toList], (·.type = .idResponder)⟩,
    ⟨.auth 0, [eapName], (·.type = .eap)⟩,
    ⟨.auth 1, [eapName], (·.type = .eap)⟩,
    ⟨.auth 2, ["authentication".toList], (·.type = .plain .authentication)⟩,
    ⟨.auth 2, ["ts_initiator".toList], (·.type = .plain .tsInitiator)⟩,
    ⟨.auth 2, ["ts_responder".toList], (·.type = .plain .tsResponder)⟩,
    ⟨.auth 2, ["configuration".toList], (·.type = .plain .configuration)⟩]

/-- The query has a drop where the check looks for it. -/
def DropRule.drops (rule : DropRule) (query : Option Query) : Bool :=
  (askedQuery query rule.round rule.path).any (·.label.op = .drop)

/-- What `process_query` returns. -/
inductive ProcessRet where
  | notSet
  | completed
  | needDropNext
  deriving DecidableEq, Repr

def checkDropNext (query : Option Query) (next : PayloadBody) : ProcessRet :=
  if dropRules.any fun rule => rule.drops query && rule.applies next then .needDropNext
  else .completed

/-! ## Updates -/

/-- The number of bytes of a key exchange value. -/
def keyExchangeLength (group : UInt16) : ℕ :=
  match group.toNat with
  | 0 => 0
  | 1 => 96
  | 2 => 128
  | 5 => 192
  | 14 => 256
  | 15 => 384
  | 16 => 512
  | 17 => 768
  | 18 => 1024
  | 19 | 28 | 24 | 31 | 1033 => 32
  | 20 | 29 => 48
  | 21 | 30 => 64
  | 22 => 20
  | 23 => 28
  | 25 | 1032 => 24
  | 26 | 27 | 32 => 28
  | 1030 => 14
  | _ => 256

/-- The bytes that `max` and `min` stand for. With any other text a pointer is used that is not set. -/
def extremeBytes (text : Text) (length : ℕ) : Option Chunk :=
  if text = "max".toList then some (List.replicate length 0xff)
  else if text = "min".toList then some (List.replicate length 0)
  else none

/-- The node of a key exchange payload with this name. -/
def askedKeyExchange (query : Option Query) (name : Text) : Option Query :=
  askedQuery query .init ["key_exchange".toList, name]

def processDhGroup (query : Option Query) (ke : KePayload) : KePayload × Option Stop :=
  match (askedKeyExchange query "diffie_hellman_group".toList).bind (·.label.number? .w16 .decimal) with
  | some v => ({ ke with dhGroupNumber := UInt16.ofInt v }, none)
  | none => (ke, none)

def processKeyExchangeData (query : Option Query) (ke : KePayload) : KePayload × Option Stop :=
  match (askedKeyExchange query "key_exchange_data".toList).bind (·.label.string?) with
  | none => (ke, none)
  | some text =>
    match extremeBytes text (keyExchangeLength ke.dhGroupNumber) with
    | some data => ({ ke with keyExchangeData := data }, none)
    | none => (ke, some .unsetPointer)

/-- `process_key_exchange`. -/
def processKeyExchange (query : Option Query) : KePayload → KePayload × Option Stop :=
  Steps.run [processDhGroup query, processKeyExchangeData query]

def nonceSize : ℕ := 32

/-- `process_nonce`. -/
def processNonce (query : Option Query) (nonce : Chunk) : Chunk × Option Stop :=
  match (askedQuery query .init ["nonce".toList]).bind (·.label.string?) with
  | none => (nonce, none)
  | some text =>
    match extremeBytes text nonceSize with
    | some data => (data, none)
    | none => (nonce, some .unsetPointer)

/-- The data for a NAT detection notify: the hash received last, or twenty bytes of the text. -/
def natdData (received : Chunk) (text : Text) : Chunk :=
  if "received".toList <+: text then received
  else bytesOf (text.take 20) ++ List.replicate (20 - text.length) 0

/-- The name under which `process_notify` looks for a notify, and the data for a text. -/
def NotifyKind.update (inst : Instance) : NotifyKind → Option (Text × (Text → Chunk))
  | natDetectionDestinationIp =>
    some ("nat_detection_destination_ip".toList, natdData inst.rcvdDstHash)
  | natDetectionSourceIp => some ("nat_detection_source_ip".toList, natdData inst.rcvdSrcHash)
  | signatureHashAlgorithms => some ("signature_hash_algorithms".toList, bytesOf)
  | childlessIkev2Supported => some ("childless_ikev2_supported".toList, bytesOf)
  | _ => none

/-- `process_notify`. -/
def processNotify (inst : Instance) (n : NotifyPayload) : NotifyPayload :=
  match n.kind.update inst with
  | none => n
  | some (name, data) =>
    match (askedQuery inst.query .init [name]).bind (·.label.string?) with
    | some text => { n with notifyData := data text }
    | none => n

/-- `check_exceptional_case`: the query is compared with a name that is not set. -/
def checkExceptionalCase (query : Option Query) (n : NotifyPayload) : Except Stop Bool :=
  if n.kind = .authenticationFailed ∧ query.isSome then .error .unsetPointer else .ok false

/-- The node of the responder's identity with this name. -/
def askedIdentification (query : Option Query) (name : Text) : Option Query :=
  askedQuery query (.auth 0) ["identification_responder".toList, name]

/-- `process_identification_responder`. -/
def processIdentificationResponder (query : Option Query) (id : IdPayload) : IdPayload :=
  { idType := ((askedIdentification query "id_type".toList).bind
      (·.label.number? .w8 .decimal)).elim id.idType UInt8.ofInt
    idData := ((askedIdentification query "identification_data".toList).bind
      (·.label.string?)).elim id.idData bytesOf }

/-! ## Choosing the function -/

/-- What the functions read: the instance, the reference to the table of init hashes, and the fuel for the
search in it. -/
structure Mutator where
  inst : Instance
  chunkHash : Chunk → UInt32
  ref : HashRef
  fuel : ℕ

/-- What they change besides the payload: the SPIs of the `ike_sa_id_t` and the table. -/
structure MutatorState where
  saIspi : UInt64
  saRspi : UInt64
  table : InitHashTable

/-- The result of a function, if it comes to its end. -/
def finished {α : Type} : α × Option Stop → Except Stop α
  | (a, none) => .ok a
  | (_, some stop) => .error stop

/-- The branch of `process_query` for the type of a payload. -/
def Mutator.handle (m : Mutator) (s : MutatorState) : PayloadBody → Except Stop (MutatorState × PayloadBody)
  | .header h => do
    let s ← finished (processIkeHeader m.chunkHash m.ref m.fuel m.inst.query
      ⟨h, s.saIspi, s.saRspi, s.table⟩)
    return (⟨s.saIspi, s.saRspi, s.table⟩, .header s.header)
  | .keyExchange ke => do
    let ke ← finished (processKeyExchange m.inst.query ke)
    return (s, .keyExchange ke)
  | .nonce nonce => do
    let nonce ← finished (processNonce m.inst.query nonce)
    return (s, .nonce nonce)
  | .notify n => do
    let exceptional ← checkExceptionalCase m.inst.query n
    return (s, .notify (if exceptional then n else processNotify m.inst n))
  | .idResponder id => .ok (s, .idResponder (processIdentificationResponder m.inst.query id))
  | .eap data => do
    let data ← finished (processExtensibleAuthentication m.inst.query data)
    return (s, .eap data)
  | .plain t => .ok (s, .plain t)

end Epdg

import VoWiFi.Epdg.Encoding
import VoWiFi.Epdg.Message
import VoWiFi.Lib.RuleOrder

/-!
# The payloads in an encrypted payload

Before a message is generated its payloads are put in the order of the rules for its exchange. The payloads of
an encrypted message are then written behind each other by one generator, each with the type of the one behind
it. Who reads them starts with the type of the first one and follows these types.
-/

namespace Epdg

open BitString

/-- The number of a payload type, below 256 for the payloads of a message. -/
def PayloadKind.type : PayloadKind → ℕ
  | securityAssociation => 33
  | keyExchange => 34
  | idInitiator => 35
  | idResponder => 36
  | certificate => 37
  | certreq => 38
  | auth => 39
  | nonce => 40
  | notify => 41
  | delete => 42
  | vendorId => 43
  | tsInitiator => 44
  | tsResponder => 45
  | encrypted => 46
  | configuration => 47
  | eap => 48
  | fragment => 53
  | unknown t => t.toNat
  | header => 256
  | proposalSubstructure => 258
  | transformSubstructure => 260
  | transformAttribute => 262
  | trafficSelectorSubstructure => 264
  | configurationAttribute => 265

/-- What `parse_payload` creates for a type in a message of IKEv2, by `payload_is_known` and
`payload_create`. -/
def PayloadKind.ofType (t : UInt8) : PayloadKind :=
  match t.toNat with
  | 33 => securityAssociation
  | 34 => keyExchange
  | 35 => idInitiator
  | 36 => idResponder
  | 37 => certificate
  | 38 => certreq
  | 39 => auth
  | 40 => nonce
  | 41 => notify
  | 42 => delete
  | 43 => vendorId
  | 44 => tsInitiator
  | 45 => tsResponder
  | 46 => encrypted
  | 47 => configuration
  | 48 => eap
  | 53 => fragment
  | _ => unknown t

namespace PayloadTree

/-- `get_next_type`. The next type is the first field of the payloads of a message. -/
def getNextType (p : PayloadTree) : UInt8 :=
  match p.label.fields with
  | ⟨.uInt8, v⟩ :: _ => v
  | _ => 0

/-- `set_next_type`. -/
def setNextType (p : PayloadTree) (type : ℕ) : PayloadTree :=
  .node ⟨p.kind, ⟨.uInt8, UInt8.ofNat type⟩ :: p.label.fields.tail⟩ p.sub

/-- `get_length`, as it is written in the payload. -/
def getLength (p : PayloadTree) : ℕ := (ParseContext.afterAll {} p.label.fields).payloadLength

/-- `get_notify_type`, the third field behind the generic header. -/
def getNotifyType (p : PayloadTree) : ℕ :=
  match p.label.fields.drop 12 with
  | ⟨.uInt16, v⟩ :: _ => v.toNat
  | _ => 0

end PayloadTree

/-! ## The order of payloads -/

/-- `payload_order_t`. -/
structure PayloadOrder where
  type : PayloadKind
  notify : ℕ := 0

/-- The test of a payload in `order_payloads`. -/
def PayloadOrder.takes (o : PayloadOrder) (p : PayloadTree) : Bool :=
  p.kind.type = o.type.type ∧ (o.type ≠ .notify ∨ o.notify = 0 ∨ o.notify = p.getNotifyType)

/-- `ike_auth_i_order`. The second numbers of the tables are those of `notify_type_t`, with 0 for any. -/
def ikeAuthIOrder : List PayloadOrder :=
  [⟨.idInitiator, 0⟩, ⟨.certificate, 0⟩, ⟨.notify, 16384⟩, ⟨.notify, 16392⟩, ⟨.certreq, 0⟩,
    ⟨.idResponder, 0⟩, ⟨.auth, 0⟩, ⟨.eap, 0⟩, ⟨.configuration, 0⟩, ⟨.notify, 16387⟩, ⟨.notify, 16391⟩,
    ⟨.notify, 16394⟩, ⟨.notify, 16395⟩, ⟨.securityAssociation, 0⟩, ⟨.tsInitiator, 0⟩, ⟨.tsResponder, 0⟩,
    ⟨.notify, 16396⟩, ⟨.notify, 16397⟩, ⟨.notify, 16398⟩, ⟨.notify, 16399⟩, ⟨.notify, 0⟩, ⟨.vendorId, 0⟩,
    ⟨.fragment, 0⟩]

def ikeAuthROrder : List PayloadOrder :=
  [⟨.idResponder, 0⟩, ⟨.certificate, 0⟩, ⟨.auth, 0⟩, ⟨.eap, 0⟩, ⟨.configuration, 0⟩, ⟨.notify, 16387⟩,
    ⟨.notify, 16391⟩, ⟨.notify, 16394⟩, ⟨.notify, 16395⟩, ⟨.securityAssociation, 0⟩, ⟨.tsInitiator, 0⟩,
    ⟨.tsResponder, 0⟩, ⟨.notify, 16403⟩, ⟨.notify, 16396⟩, ⟨.notify, 16397⟩, ⟨.notify, 16398⟩,
    ⟨.notify, 16399⟩, ⟨.notify, 0⟩, ⟨.vendorId, 0⟩, ⟨.fragment, 0⟩]

/-- The table for INFORMATIONAL, the same for requests and responses. -/
def informationalOrder : List PayloadOrder :=
  [⟨.notify, 16400⟩, ⟨.notify, 16388⟩, ⟨.notify, 16389⟩, ⟨.notify, 16401⟩, ⟨.notify, 0⟩, ⟨.delete, 0⟩,
    ⟨.configuration, 0⟩, ⟨.fragment, 0⟩]

def createChildSaIOrder : List PayloadOrder :=
  [⟨.notify, 16393⟩, ⟨.notify, 16387⟩, ⟨.notify, 16391⟩, ⟨.notify, 16394⟩, ⟨.notify, 16395⟩,
    ⟨.securityAssociation, 0⟩, ⟨.nonce, 0⟩, ⟨.keyExchange, 0⟩, ⟨.tsInitiator, 0⟩, ⟨.tsResponder, 0⟩,
    ⟨.notify, 0⟩, ⟨.fragment, 0⟩]

def createChildSaROrder : List PayloadOrder :=
  [⟨.notify, 16387⟩, ⟨.notify, 16391⟩, ⟨.notify, 16394⟩, ⟨.notify, 16395⟩, ⟨.securityAssociation, 0⟩,
    ⟨.nonce, 0⟩, ⟨.keyExchange, 0⟩, ⟨.tsInitiator, 0⟩, ⟨.tsResponder, 0⟩, ⟨.notify, 16386⟩, ⟨.notify, 0⟩,
    ⟨.fragment, 0⟩]

/-- `get_message_rule`, for the encrypted exchanges: the order of a request or a response. -/
def messageOrder : ExchangeType → Bool → Option (List PayloadOrder)
  | .ikeAuth, true => some ikeAuthIOrder
  | .ikeAuth, false => some ikeAuthROrder
  | .informational, _ => some informationalOrder
  | .createChildSa, true => some createChildSaIOrder
  | .createChildSa, false => some createChildSaROrder
  | _, _ => none

/-- `order_payloads`. -/
def orderPayloads (order : List PayloadOrder) (ps : List PayloadTree) : List PayloadTree :=
  RuleOrder.orderBy (order.map PayloadOrder.takes) ps

/-! ## Writing and reading the content -/

/-- The next types that `generate` sets, with `PL_NONE` for the last payload. -/
def setNextTypes : List PayloadTree → List PayloadTree
  | [] => []
  | [p] => [p.setNextType 0]
  | p :: q :: ps => p.setNextType q.kind.type :: setNextTypes (q :: ps)

/-- The next type of the encrypted payload that `generate` sets. -/
def firstType : List PayloadTree → UInt8
  | [] => 0
  | p :: _ => UInt8.ofNat p.kind.type

/-- `generate`: the content of an encrypted payload. -/
def generateContent (memory : ℕ → UInt8) (ps : List PayloadTree) : Chunk :=
  (generateList memory (setNextTypes ps) (Generator.create memory)).out

/-- The check in the loop of `parse`. It always looks at the first payload. -/
def lengthValid (plain : Chunk) : Bool :=
  4 ≤ plain.length ∧ beValue ((plain.drop 2).take 2) ≤ plain.length

/-- The loop of `parse`: the status and the payloads that are read, with the payloads' own checks as a
parameter. Every payload has at least one byte, so that there are not more of them than bytes. -/
def parseLoop (verify : PayloadTree → Bool) (plain : Chunk) :
    ℕ → UInt8 → Parser → Status × List PayloadTree
  | 0, _, _ => (.parseError, [])
  | fuel + 1, type, p =>
    if type = 0 then (.success, [])
    else if lengthValid plain = false then (.parseError, [])
    else
      match parsePayload (PayloadKind.ofType type) p with
      | none => (.parseError, [])
      | some (q, p') =>
        if verify q = false then (.verifyError, [])
        else ((parseLoop verify plain fuel q.getNextType p').1,
          q :: (parseLoop verify plain fuel q.getNextType p').2)

/-- `parse`. -/
def parseContent (verify : PayloadTree → Bool) (type : UInt8) (plain : Chunk) :
    Status × List PayloadTree :=
  parseLoop verify plain (plain.length + 1) type ⟨plain, 0⟩

/-! ## Payloads of a message -/

/-- A payload of this kind can be in a message, behind and in front of others. -/
def PayloadKind.sendable : PayloadKind → Bool
  | securityAssociation | keyExchange | idInitiator | idResponder | certificate | certreq | auth | nonce
  | notify | delete | vendorId | tsInitiator | tsResponder | configuration | eap => true
  | unknown t => t ≠ 0 ∧ ofType t = unknown t
  | _ => false

end Epdg

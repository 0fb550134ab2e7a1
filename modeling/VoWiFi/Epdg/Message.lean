import Mathlib.Data.List.Defs

/-!
# IKE messages, as the task manager looks at them
-/

namespace Epdg

/-- `exchange_type_t`, as far as the modelled code tells the types apart. -/
inductive ExchangeType where
  | idProt
  | aggressive
  | ikeSaInit
  | ikeAuth
  | createChildSa
  | informational
  /-- `EXCHANGE_TYPE_UNDEFINED`. -/
  | undefined
  | other
  deriving DecidableEq, Repr

/-- `status_t`. -/
inductive Status where
  | success
  | failed
  | outOfRes
  | alreadyDone
  | notSupported
  | invalidArg
  | notFound
  | parseError
  | verifyError
  | invalidState
  | destroyMe
  | needMore
  deriving DecidableEq, Repr

/-- `ike_sa_state_t`. -/
inductive IkeState where
  | created
  | connecting
  | established
  | passive
  | rekeying
  | rekeyed
  | deleting
  | destroying
  deriving DecidableEq, Repr

/-- The notify types the task manager tells apart. -/
inductive NotifyType where
  /-- One of the ten types that concern addresses, which the MOBIKE task handles. -/
  | addresses
  | authLifetime
  | authenticationFailed
  | redirect
  | messageIdSync
  | replayCounterSync
  /-- `REKEY_SA`, for AH or ESP or for another protocol. -/
  | rekeySa (ahOrEsp : Bool)
  | other
  deriving DecidableEq, Repr

/-- The payloads the task manager tells apart. -/
inductive Payload where
  | notify (type : NotifyType)
  /-- A delete payload, for the IKE SA or for another protocol. -/
  | delete (ike : Bool)
  /-- Traffic selectors of either side. -/
  | trafficSelectors
  | other
  deriving DecidableEq, Repr

/-- What a message and the message it is a fragment of have in common. -/
structure Header where
  exchange : ExchangeType
  mid : UInt32
  request : Bool
  deriving DecidableEq, Repr

/-- The rest of a message. -/
structure Body where
  payloads : List Payload := []
  /-- An EAP payload of subtype AKA_CLIENT_ERROR can be read before the message is parsed. -/
  clientError : Bool := false
  deriving DecidableEq, Repr

/-- One of the two notifies that synchronise message IDs. -/
def Payload.isSync : Payload → Bool
  | .notify .messageIdSync => true
  | .notify .replayCounterSync => true
  | _ => false

def looksLikeMidSync (h : Header) (b : Body) (strict : Bool) : Bool :=
  h.exchange = .informational && b.payloads.any Payload.isSync &&
    !(strict && b.payloads.any fun p => !p.isSync)

/-- The kinds of tasks that are queued for the requests of a peer. -/
inductive TaskType where
  | ikeVendor
  | ikeInit
  | ikeNatd
  | ikeCertPre
  | ikeAuth
  | ikeCertPost
  | ikeConfig
  | childCreate
  | ikeAuthLifetime
  | ikeMobike
  | childRekey
  | ikeRekey
  | ikeDelete
  | ikeRedirect
  | ikeMidSync
  | childDelete
  | ikeDpd
  deriving DecidableEq, Repr

/-- The task a payload of an INFORMATIONAL request asks for. -/
def Payload.informationalTask (state : IkeState) : Payload → Option TaskType
  | .notify type =>
    if state = .rekeyed then none
    else match type with
      | .addresses => some .ikeMobike
      | .authLifetime => some .ikeAuthLifetime
      | .authenticationFailed => some .ikeDelete
      | .redirect => some .ikeRedirect
      | .messageIdSync => some .ikeMidSync
      | _ => none
  | .delete ike => some (if ike then .ikeDelete else .childDelete)
  | _ => none

/-- The tasks `process_request` creates for a request; `none` if it rejects the request instead. -/
def createTasks (state : IkeState) (exchange : ExchangeType) (payloads : List Payload) :
    Option (List TaskType) :=
  match exchange with
  | .ikeSaInit => some [.ikeVendor, .ikeInit, .ikeNatd, .ikeCertPre, .ikeAuth, .ikeCertPost,
      .ikeConfig, .childCreate, .ikeAuthLifetime, .ikeMobike]
  | .createChildSa =>
    if state = .created ∨ state = .connecting then none
    else if payloads.any (· = .trafficSelectors) then
      some [if payloads.any (· = .notify (.rekeySa true)) then .childRekey else .childCreate]
    else some [.ikeRekey]
  | .informational => some [(payloads.findSome? (Payload.informationalTask state)).getD .ikeDpd]
  | _ => some []

end Epdg

import VoWiFi.Epdg.Instance
import VoWiFi.Epdg.Message
import VoWiFi.Lib.Run

/-!
# Attaching a session to an IKE SA

The IKE SA manager finds or creates the IKE SA a message belongs to (`checkout_by_message`) and calls
`check_instance` in two places: for an SA it has just created, and for one it has found in its table.
Either call attaches a session that is free.

All IKE SAs the manager creates for incoming messages share the one instance, which the listener
makes when the controller connects.
-/

namespace Epdg

/-- An IKE SA in the table of the manager. -/
structure Sa where
  ispi : UInt64
  /-- The responder's SPI, which the manager has drawn. -/
  rspi : UInt64
  /-- How many `init` commands had been handled when the IKE_SA_INIT request arrived. -/
  born : ℕ
  deriving DecidableEq, Repr

/-- The manager, together with the instance. -/
structure Manager where
  inst : Instance
  sas : List Sa
  /-- The hashes of the initial messages that have been handled, with the SPIs drawn for them. -/
  initHashes : List (Chunk × UInt64)
  /-- How many `init` commands have been handled. -/
  epoch : ℕ
  created : List Sa

/-- The manager when the controller connects. -/
def Manager.start : Manager := ⟨initInstance, [], [], 0, []⟩

/-- What `checkout_by_message` reads of a message, and what it learns while it runs. -/
structure CheckoutMessage where
  ispi : UInt64
  rspi : UInt64
  mid : UInt32
  /-- The major version is that of IKEv2. -/
  ikev2 : Bool
  exchange : ExchangeType
  request : Bool
  /-- The initiator flag fits an SA that was created for an incoming message. -/
  fromInitiator : Bool
  /-- The hash of the message; `none` if it cannot be computed. -/
  hash : Option Chunk
  /-- The SPI that `get_spi` returns, zero for a failure. -/
  newSpi : UInt64
  /-- The limit of SAs is not reached and `ike_sa_create` succeeds. -/
  accept : Bool
  /-- The variable `entry`, which a failed lookup leaves unset, passes the tests of its value. -/
  stale : Bool

/-- The message may create an SA. -/
def CheckoutMessage.isInit (msg : CheckoutMessage) : Bool :=
  msg.rspi = 0 && msg.mid = 0 &&
    if msg.ikev2 then msg.exchange = .ikeSaInit && msg.request
    else msg.exchange = .idProt || msg.exchange = .aggressive

/-- What a step of the manager does: its new state, and the SPIs `check_instance` attached the
session to, if it did. -/
structure Checkout where
  manager : Manager
  /-- The SPIs the session was attached to in the step. -/
  attached : Option (UInt64 × UInt64)

/-- Call `check_instance` with the right to attach. -/
def Manager.attach (m : Manager) (ispi rspi : UInt64) : Checkout :=
  { manager := { m with inst := (m.inst.checkInstance ispi rspi true).2 }
    attached := if m.inst.ispi = 0 ∧ m.inst.rspi = 0 then some (ispi, rspi) else none }

/-- The SA with the given SPIs is in the table. -/
def Manager.hasEntry (m : Manager) (ispi rspi : UInt64) : Bool :=
  m.sas.any fun sa => sa.ispi = ispi && sa.rspi = rspi

/-- The lookup path: `check_instance` is called for an SA that is found, whether or not it can be
checked out. -/
def Manager.lookupEntry (m : Manager) (msg : CheckoutMessage) (rspi : UInt64) : Checkout :=
  if (m.hasEntry msg.ispi rspi && msg.fromInitiator || msg.stale) && msg.ispi ≠ 0 && rspi ≠ 0 then
    m.attach msg.ispi rspi
  else ⟨m, none⟩

/-- The path of an initial message that has not been seen yet. -/
def Manager.createEntry (m : Manager) (msg : CheckoutMessage) (hash : Chunk) : Checkout :=
  if msg.newSpi = 0 then ⟨m, none⟩
  else if msg.accept then
    let sa : Sa := ⟨msg.ispi, msg.newSpi, m.epoch⟩
    Manager.attach
      { m with
        sas := sa :: m.sas
        created := sa :: m.created
        initHashes := (hash, msg.newSpi) :: m.initHashes } msg.ispi msg.newSpi
  else ⟨m, none⟩

/-- The responder's SPI under which an initial message was handled before. -/
def Manager.seenInit (m : Manager) (hash : Chunk) : Option UInt64 := m.initHashes.lookup hash

def Manager.checkoutByMessage (m : Manager) (msg : CheckoutMessage) : Checkout :=
  if msg.isInit then
    match msg.hash with
    | none => ⟨m, none⟩
    | some hash =>
      match m.seenInit hash with
      | none => m.createEntry msg hash
      | some rspi => m.lookupEntry msg rspi
  else m.lookupEntry msg msg.rspi

/-- What can happen at the manager. -/
inductive ManagerEvent where
  | init
  | fin
  | message (msg : CheckoutMessage)
  /-- A response of the SA with these SPIs reports a failure, which frees the session. -/
  | release (ispi rspi : UInt64)
  | destroy (sa : Sa)

/-- One event. -/
def Manager.step (m : Manager) : ManagerEvent → Checkout
  | .init => ⟨{ m with inst := m.inst.handleInit, epoch := m.epoch + 1 }, none⟩
  | .fin => ⟨{ m with inst := m.inst.handleFin }, none⟩
  | .message msg => m.checkoutByMessage msg
  | .release ispi rspi =>
    if (m.inst.checkInstance ispi rspi false).1 then
      ⟨{ m with inst := { m.inst with ispi := 0, rspi := 0, imid := -1, sprev := none } }, none⟩
    else ⟨m, none⟩
  | .destroy sa =>
    ⟨{ m with
        sas := m.sas.filter (· ≠ sa)
        initHashes := m.initHashes.filter fun h => h.2 ≠ sa.rspi }, none⟩

/-- The manager after an event. -/
def Manager.next (m : Manager) (e : ManagerEvent) : Manager := (m.step e).manager

/-! ## What is said about a run of the manager -/

/-- The step does not attach the session, or attaches it to an SA of the table whose IKE_SA_INIT
request arrived after the last `init`. -/
def AttachFresh (m : Manager) (e : ManagerEvent) : Prop :=
  ∀ p ∈ (m.step e).attached,
    ∃ sa ∈ (m.step e).manager.sas, sa.ispi = p.1 ∧ sa.rspi = p.2 ∧ sa.born = m.epoch

instance (m : Manager) (e : ManagerEvent) : Decidable (AttachFresh m e) :=
  match h : (m.step e).attached with
  | none => isTrue fun p hp => by simp [h] at hp
  | some p => decidable_of_iff (∃ sa ∈ (m.step e).manager.sas,
      sa.ispi = p.1 ∧ sa.rspi = p.2 ∧ sa.born = m.epoch) (by simp [AttachFresh, h])

/-- The responder's SPI under which a message is looked up, if it is. -/
def Manager.lookupSpi (m : Manager) (msg : CheckoutMessage) : Option UInt64 :=
  if msg.isInit then msg.hash.bind m.seenInit else some msg.rspi

/-- The lookup of a message under responder's SPI `rspi` leads to a call of `check_instance`. -/
def Manager.Found (m : Manager) (msg : CheckoutMessage) (rspi : UInt64) : Prop :=
  (m.hasEntry msg.ispi rspi = true ∧ msg.fromInitiator = true ∨ msg.stale = true) ∧
    msg.ispi ≠ 0 ∧ rspi ≠ 0

instance (m : Manager) (msg : CheckoutMessage) (rspi : UInt64) : Decidable (m.Found msg rspi) :=
  inferInstanceAs (Decidable (_ ∧ _))

/-- A message that is looked up while the session is free belongs to an SA of the table whose
IKE_SA_INIT request arrived after the last `init`. -/
def FreshLookup (m : Manager) : ManagerEvent → Prop
  | .message msg => m.inst.ispi = 0 → m.inst.rspi = 0 → ∀ rspi ∈ m.lookupSpi msg,
    m.Found msg rspi → ∃ sa ∈ m.sas, sa.ispi = msg.ispi ∧ sa.rspi = rspi ∧ sa.born = m.epoch
  | _ => True

instance (m : Manager) : ∀ e : ManagerEvent, Decidable (FreshLookup m e)
  | .message msg =>
    match h : m.lookupSpi msg with
    | none => isTrue fun _ _ r hr => by simp [h] at hr
    | some rspi => decidable_of_iff (m.inst.ispi = 0 → m.inst.rspi = 0 → m.Found msg rspi →
        ∃ sa ∈ m.sas, sa.ispi = msg.ispi ∧ sa.rspi = rspi ∧ sa.born = m.epoch)
        (by simp [FreshLookup, h])
  | .init | .fin | .release _ _ | .destroy _ => instDecidableTrue

/-- The SPI drawn for a new SA is not in use, nor the one that marks a finished session. -/
def FreshSpi (m : Manager) : ManagerEvent → Prop
  | .message msg => m.lookupSpi msg = none →
    msg.newSpi ≠ -1 ∧ ∀ sa ∈ m.created, sa.rspi ≠ msg.newSpi
  | _ => True

instance (m : Manager) : ∀ e : ManagerEvent, Decidable (FreshSpi m e)
  | .message _ => inferInstanceAs (Decidable (_ → _))
  | .init | .fin | .release _ _ | .destroy _ => instDecidableTrue

end Epdg

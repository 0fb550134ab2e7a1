import VoWiFi.Epdg.Instance
import VoWiFi.Epdg.Message
import VoWiFi.Lib.Buckets
import VoWiFi.Lib.Run

/-!
# The table of IKE SAs

The threads of the daemon share the IKE SAs through the IKE SA manager. A thread checks an SA out, works
with it and checks it in again; in between, every other thread that asks for the SA waits on the condition
variable of its entry. The entries are kept in the rows of a hash table, and the half-open SAs are counted
per address in a second one.

A step of the model is what a thread does while it has the lock of a segment, or of a segment of the second
table: the rest of the daemon sees nothing of what lies within it. Threads take their steps in any order,
and a waiting thread may be woken at any time.
-/

namespace Epdg

/-! ## Identifiers -/

/-- `ike_sa_id_t`. -/
structure IkeSaId where
  ikeVersion : UInt8
  initiatorSpi : UInt64
  responderSpi : UInt64
  isInitiator : Bool
  deriving DecidableEq, Repr

def ikev1MajorVersion : UInt8 := 1

namespace IkeSaId

def equals (id other : IkeSaId) : Bool :=
  id.ikeVersion == other.ikeVersion &&
    (id.ikeVersion == ikev1MajorVersion || id.isInitiator == other.isInitiator) &&
    id.initiatorSpi == other.initiatorSpi && id.responderSpi == other.responderSpi

/-- The SPI by which an SA is found, the one that was allocated here unless the version is that of
IKEv1. -/
def localSpi (id : IkeSaId) : UInt64 :=
  if id.ikeVersion = ikev1MajorVersion ∨ id.isInitiator then id.initiatorSpi else id.responderSpi

/-- `ike_sa_id_hash`, whose result is an `u_int`. -/
def hash (id : IkeSaId) : UInt32 := id.localSpi.toUInt32

/-- `entry_match_by_id`. -/
def matchesEntry (id entryId : IkeSaId) : Bool :=
  id.equals entryId ||
    (id.responderSpi == 0 || entryId.responderSpi == 0) &&
      (id.ikeVersion == ikev1MajorVersion || id.isInitiator == entryId.isInitiator) &&
      id.initiatorSpi == entryId.initiatorSpi

/-- The identifier of an SA may change to another one: the version, the role and the local SPI stay. -/
def MayBecome (id other : IkeSaId) : Prop :=
  other.ikeVersion = id.ikeVersion ∧ other.isInitiator = id.isInitiator ∧
    other.localSpi = id.localSpi

instance (id other : IkeSaId) : Decidable (id.MayBecome other) :=
  inferInstanceAs (Decidable (_ ∧ _ ∧ _))

/-- A responder has its SPI. -/
def Allocated (id : IkeSaId) : Prop :=
  id.ikeVersion ≠ ikev1MajorVersion → id.isInitiator = false → id.responderSpi ≠ 0

end IkeSaId

/-- `ike_sa_state_t`. -/
inductive IkeSaState where
  | created
  | connecting
  | established
  | passive
  | rekeying
  | rekeyed
  | deleting
  | destroying
  deriving DecidableEq, Repr

/-- What the manager reads of an `ike_sa_t`. -/
structure IkeSa where
  id : IkeSaId
  state : IkeSaState
  /-- The address of the other host. Its length tells the family. -/
  otherHost : Chunk
  /-- The SA has been put into the table. -/
  managed : Bool
  deriving DecidableEq, Repr

def isAnyaddr (addr : Chunk) : Bool := addr.all (· == 0)

def ipEquals (addr other : Chunk) : Bool :=
  if addr.length ≠ other.length then isAnyaddr addr && isAnyaddr other else addr == other

/-! ## Configuration -/

/-- The size of the tables and the hash of a chunk. -/
structure TableConfig where
  /-- The table has a number of rows that is a power of two. -/
  bits : ℕ
  /-- `MAX_HASHTABLE_SIZE`. -/
  bits_le : bits ≤ 30
  chunkHash : Chunk → UInt32

namespace TableConfig

variable (c : TableConfig)

def tableSize : ℕ := 2 ^ c.bits

def tableMask : ℕ := 2 ^ c.bits - 1

def row (id : IkeSaId) : ℕ := id.hash.toNat &&& c.tableMask

def addrRow (addr : Chunk) : ℕ := (c.chunkHash addr).toNat &&& c.tableMask

/-- The SPI that `new_initiator_spi` makes of an old and a random one. -/
def mergeSpi (spi newSpi : UInt64) : UInt64 :=
  spi &&& UInt64.ofNat c.tableMask ||| newSpi &&& ~~~UInt64.ofNat c.tableMask

end TableConfig

/-! ## Half-open SAs -/

/-- The counters of a `half_open_t`. -/
@[ext]
structure HalfOpen where
  count : ℕ
  countResponder : ℕ
  deriving DecidableEq, Repr

namespace HalfOpen

def up (responder : Bool) (h : HalfOpen) : HalfOpen :=
  ⟨h.count + 1, h.countResponder + responder.toNat⟩

def down (responder : Bool) (h : HalfOpen) : HalfOpen :=
  ⟨h.count - 1, h.countResponder - responder.toNat⟩

end HalfOpen

/-- `half_open_table` with the counters for all addresses. -/
structure HalfOpenTable where
  rows : ℕ → List (Chunk × HalfOpen)
  /-- `half_open_count` and `half_open_count_responder`. -/
  all : HalfOpen

namespace HalfOpenTable

variable (c : TableConfig)

/-- `put_half_open`. -/
def putHalfOpen (t : HalfOpenTable) (addr : Chunk) (responder : Bool) : HalfOpenTable where
  rows := Buckets.atRow c.addrRow addr (Buckets.put addr ⟨0, 0⟩ (·.up responder)) t.rows
  all := t.all.up responder

/-- `remove_half_open`. -/
def removeHalfOpen (t : HalfOpenTable) (addr : Chunk) (responder : Bool) : HalfOpenTable :=
  match Buckets.lookup c.addrRow t.rows addr with
  | none => t
  | some _ =>
    { rows := Buckets.atRow c.addrRow addr
        (Buckets.alter addr fun h => if h.count - 1 = 0 then none else some (h.down responder)) t.rows
      all := t.all.down responder }

/-- The counters of an address, those of `get_half_open_count` with an address. -/
def counters (t : HalfOpenTable) (addr : Chunk) : HalfOpen :=
  (Buckets.lookup c.addrRow t.rows addr).getD ⟨0, 0⟩

/-- `get_half_open_count`. -/
def getHalfOpenCount (t : HalfOpenTable) (ip : Option Chunk) (responderOnly : Bool) : ℕ :=
  let h := match ip with
    | some addr => t.counters c addr
    | none => t.all
  if responderOnly then h.countResponder else h.count

end HalfOpenTable

/-! ## Entries and threads -/

/-- `entry_t`. The SA is given by its number. -/
structure SaEntry (θ : Type) where
  waitingThreads : ℕ
  checkedOut : Option θ
  driveoutNewThreads : Bool
  driveoutWaitingThreads : Bool
  ikeSaId : IkeSaId
  ikeSa : ℕ
  other : Option Chunk
  halfOpen : Bool
  processing : UInt32
  /-- The function that has unlinked the entry has returned: nothing refers to the entry any more. -/
  gone : Bool
  deriving DecidableEq, Repr

/-- The entry is one of a half-open SA whose other host has an address with a property. It is one until
the function that unlinks it has returned. -/
def SaEntry.isHalfOpen {θ : Type} (p : Chunk → Bool) (responderOnly : Bool) (en : SaEntry θ) : Bool :=
  en.halfOpen && !en.gone && en.other.any p && (!responderOnly || !en.ikeSaId.isInitiator)

/-- The value -1, for no message. -/
def noMessage : UInt32 := 0xffffffff

/-- `entry_create`, with the SA that its callers set. -/
def SaEntry.create {θ : Type} (id : IkeSaId) (s : ℕ) : SaEntry θ :=
  ⟨0, none, false, false, id, s, none, false, noMessage, false⟩

/-- What `checkout_by_message` knows of a message when it looks for the entry. -/
structure SaMessage where
  /-- The identifier with the initiator flag switched and, for a repeated initial message, with the SPI
  that was allocated for it. -/
  id : IkeSaId
  /-- `get_message_id_or_hash`. -/
  key : UInt32
  /-- The first payload is a fragment. -/
  fragment : Bool
  /-- The pointers to the entry and its SA pass the tests of their values. -/
  mapped : Bool
  deriving DecidableEq, Repr

/-- What `checkout_by_message` tests when it takes the SA of the entry it has found: that the pointers and
the SPIs are set. -/
def SaMessage.Takes (msg : SaMessage) : Prop :=
  msg.mapped ∧ msg.id.initiatorSpi ≠ 0 ∧ msg.id.responderSpi ≠ 0

instance (msg : SaMessage) : Decidable msg.Takes := inferInstanceAs (Decidable (_ ∧ _ ∧ _))

/-- Why a thread waits for an entry. -/
inductive Purpose where
  /-- In `checkout`. -/
  | checkout
  /-- In `checkout_by_config`, `checkout_by_id` or `checkout_by_name`. -/
  | search
  /-- In `checkout_by_message`. -/
  | message (msg : SaMessage)
  deriving DecidableEq, Repr

/-- Where a thread is when it does not have a lock. -/
inductive Activity where
  /-- Outside of the manager. -/
  | running
  /-- In `wait_for_entry`. -/
  | waiting (e : ℕ) (purpose : Purpose)
  /-- In `checkin_and_destroy`, until no thread waits for the entry. -/
  | destroying (e : ℕ)
  /-- In `create_and_put_entry`, after the counting. `checkout` is set for `checkout_new`. -/
  | putting (e : ℕ) (checkout : Bool)
  /-- In `checkin_and_destroy`, after the entry has been unlinked. -/
  | removing (e : ℕ)
  deriving DecidableEq, Repr

/-- The thread waits for the entry. -/
def Activity.waitsFor (e : ℕ) : Activity → Bool
  | .waiting e' _ => e' == e
  | _ => false

/-- The thread is creating or destroying the entry. -/
def Activity.owns (e : ℕ) : Activity → Bool
  | .destroying e' | .putting e' _ | .removing e' => e' == e
  | .running | .waiting .. => false

/-- The answer of `wait_for_entry`, or that it goes to sleep. -/
inductive WaitAnswer where
  | wait
  | refused
  | granted
  deriving DecidableEq, Repr

/-- The loop of `wait_for_entry` and what follows it. -/
def SaEntry.tryEntry {θ : Type} (en : SaEntry θ) : WaitAnswer :=
  if en.checkedOut.isSome && !en.driveoutWaitingThreads then .wait
  else if en.driveoutWaitingThreads then .refused
  else .granted

/-- `wait_for_entry`. -/
def SaEntry.waitForEntry {θ : Type} (en : SaEntry θ) : WaitAnswer :=
  if en.driveoutNewThreads then .refused else en.tryEntry

/-- The manager, the SAs it has created and the threads. -/
structure SaTable (θ : Type) where
  /-- `ike_sa_table`. -/
  rows : ℕ → List ℕ
  entries : ℕ → SaEntry θ
  nextEntry : ℕ
  totalSaCount : ℕ
  halfOpen : HalfOpenTable
  sas : ℕ → IkeSa
  nextSa : ℕ
  activity : θ → Activity
  /-- The SAs that a thread has got from the manager and not given back. -/
  held : θ → List ℕ

namespace SaTable

variable {θ : Type}

/-- The identifier in an entry or SA that has not been created. -/
def noId : IkeSaId := ⟨0, 0, 0, true⟩

/-- The manager when it is created. -/
def create : SaTable θ where
  rows := fun _ => []
  entries := fun _ => SaEntry.create noId 0
  nextEntry := 0
  totalSaCount := 0
  halfOpen := ⟨fun _ => [], ⟨0, 0⟩⟩
  sas := fun _ => ⟨noId, .created, [], false⟩
  nextSa := 0
  activity := fun _ => .running
  held := fun _ => []

variable [DecidableEq θ] (c : TableConfig)

/-! ## Parts of a step -/

def setEntry (m : SaTable θ) (e : ℕ) (en : SaEntry θ) : SaTable θ :=
  { m with entries := Function.update m.entries e en }

def setSa (m : SaTable θ) (s : ℕ) (sa : IkeSa) : SaTable θ :=
  { m with sas := Function.update m.sas s sa }

def setActivity (m : SaTable θ) (t : θ) (a : Activity) : SaTable θ :=
  { m with activity := Function.update m.activity t a }

/-- A thread gets an SA. -/
def hold (m : SaTable θ) (t : θ) (s : ℕ) : SaTable θ :=
  { m with held := Function.update m.held t (s :: m.held t) }

/-- A thread gives an SA back. -/
def giveBack (m : SaTable θ) (t : θ) (s : ℕ) : SaTable θ :=
  { m with held := Function.update m.held t ((m.held t).erase s) }

/-- `ike_sa_create`. -/
def addSa (m : SaTable θ) (id : IkeSaId) : SaTable θ :=
  { m with
    sas := Function.update m.sas m.nextSa ⟨id, .created, [], false⟩
    nextSa := m.nextSa + 1 }

/-- `get_entry_by_match_function`. -/
def getEntry (m : SaTable θ) (id : IkeSaId) (matchFn : SaEntry θ → Bool) : Option ℕ :=
  (m.rows (c.row id)).find? fun e => matchFn (m.entries e)

def getEntryById (m : SaTable θ) (id : IkeSaId) : Option ℕ :=
  m.getEntry c id fun en => id.matchesEntry en.ikeSaId

/-- `get_entry_by_sa`, with the identifier of the SA. -/
def getEntryBySa (m : SaTable θ) (s : ℕ) : Option ℕ :=
  m.getEntry c (m.sas s).id fun en => en.ikeSa == s

/-- `put_entry`. -/
def putEntry (m : SaTable θ) (e : ℕ) : SaTable θ :=
  let row := c.row (m.entries e).ikeSaId
  { m with
    rows := Function.update m.rows row (e :: m.rows row)
    totalSaCount := m.totalSaCount + 1 }

/-- `remove_entry`. -/
def removeEntry (m : SaTable θ) (e : ℕ) : SaTable θ :=
  let row := c.row (m.entries e).ikeSaId
  { m with
    rows := Function.update m.rows row ((m.rows row).erase e)
    totalSaCount := if e ∈ m.rows row then m.totalSaCount - 1 else m.totalSaCount }

/-- `put_half_open`, for an entry. -/
def putHalfOpen (m : SaTable θ) (en : SaEntry θ) : SaTable θ :=
  { m with
    halfOpen := match en.other with
      | some addr => m.halfOpen.putHalfOpen c addr (!en.ikeSaId.isInitiator)
      | none => m.halfOpen }

/-- `remove_half_open`, for an entry. -/
def removeHalfOpen (m : SaTable θ) (en : SaEntry θ) : SaTable θ :=
  { m with
    halfOpen := match en.other with
      | some addr => m.halfOpen.removeHalfOpen c addr (!en.ikeSaId.isInitiator)
      | none => m.halfOpen }

/-- The entry that `create_and_put_entry` makes. -/
def newEntry (m : SaTable θ) (s : ℕ) : SaEntry θ :=
  let sa := m.sas s
  { SaEntry.create sa.id s with
    halfOpen := sa.state = .connecting
    other := if sa.state = .connecting then some sa.otherHost else none }

/-- A new entry, which is not in the table yet. -/
def addEntry (m : SaTable θ) (en : SaEntry θ) : SaTable θ :=
  { m with
    entries := Function.update m.entries m.nextEntry en
    nextEntry := m.nextEntry + 1
    sas := Function.update m.sas en.ikeSa { m.sas en.ikeSa with managed := true } }

/-- `create_and_put_entry` up to `put_entry`. -/
def createEntry (m : SaTable θ) (t : θ) (s : ℕ) (checkout : Bool) : SaTable θ :=
  let en := m.newEntry s
  let m' := (m.addEntry en).setActivity t (.putting m.nextEntry checkout)
  if en.halfOpen then m'.putHalfOpen c en else m'

/-! ## Waiting -/

/-- A thread goes to sleep in `wait_for_entry`. -/
def block (m : SaTable θ) (t : θ) (e : ℕ) (purpose : Purpose) : SaTable θ :=
  let en := m.entries e
  (m.setEntry e { en with waitingThreads := en.waitingThreads + 1 }).setActivity t
    (.waiting e purpose)

/-- A thread wakes up in `wait_for_entry`. -/
def unblock (m : SaTable θ) (t : θ) (e : ℕ) : SaTable θ :=
  let en := m.entries e
  (m.setEntry e { en with waitingThreads := en.waitingThreads - 1 }).setActivity t .running

/-- A thread sets `checked_out` and returns the SA. -/
def checkOut (m : SaTable θ) (t : θ) (e : ℕ) : SaTable θ :=
  let en := m.entries e
  (m.setEntry e { en with checkedOut := some t }).hold t en.ikeSa

/-- The responder's SPI is set when it is not known yet. -/
def learnSpi (m : SaTable θ) (s : ℕ) (spi : UInt64) : SaTable θ :=
  let sa := m.sas s
  if sa.id.responderSpi = 0 then m.setSa s { sa with id.responderSpi := spi } else m

/-- The entry has been granted. The answer of a search is given: whether this is the SA it looks for. -/
def granted (m : SaTable θ) (t : θ) (e : ℕ) (wanted : Bool) : Purpose → SaTable θ
  | .checkout => m.checkOut t e
  | .search => if wanted then m.checkOut t e else m
  | .message msg =>
    let m := m.checkOut t e
    let en := m.entries e
    let m := if msg.fragment then m else m.setEntry e { en with processing := msg.key }
    m.learnSpi en.ikeSa msg.id.responderSpi

/-- `checkout_by_message` takes the SA of the entry it has found, whether or not it was checked out. -/
def takeUnchecked (m : SaTable θ) (t : θ) (e : ℕ) (msg : SaMessage) : SaTable θ :=
  if msg.Takes then m.hold t (m.entries e).ikeSa else m

/-- The entry has been refused. -/
def refused (m : SaTable θ) (t : θ) (e : ℕ) : Purpose → SaTable θ
  | .message msg => m.takeUnchecked t e msg
  | _ => m

/-- What a thread does with the answer of `wait_for_entry`. -/
def answer (m : SaTable θ) (t : θ) (e : ℕ) (purpose : Purpose) (wanted : Bool) :
    WaitAnswer → SaTable θ
  | .wait => m.block t e purpose
  | .refused => m.refused t e purpose
  | .granted => m.granted t e wanted purpose

/-! ## Operations -/

/-- The identifier of a new SA. -/
def newId (version : UInt8) (initiator : Bool) (spi : UInt64) : IkeSaId :=
  if initiator then ⟨version, spi, 0, true⟩ else ⟨version, 0, spi, false⟩

/-- `create_new`, given the SPI that `get_spi` returns. -/
def createNew (m : SaTable θ) (t : θ) (version : UInt8) (initiator : Bool) (spi : UInt64) :
    SaTable θ :=
  if spi = 0 then m else (m.addSa (newId version initiator spi)).hold t m.nextSa

/-- `checkout`. -/
def checkout (m : SaTable θ) (t : θ) (id : IkeSaId) : SaTable θ :=
  match m.getEntryById c id with
  | some e => m.answer t e .checkout true (m.entries e).waitForEntry
  | none => m

/-- `checkout_by_message` for a message that creates an SA, given the SPI that is allocated for it. -/
def checkoutNewByMessage (m : SaTable θ) (t : θ) (id : IkeSaId) (spi : UInt64) (key : UInt32) :
    SaTable θ :=
  if spi = 0 then m
  else
    let id := { id with responderSpi := spi }
    let en := { SaEntry.create id m.nextSa with processing := key }
    (((m.addSa id).addEntry en).putEntry c m.nextEntry).checkOut t m.nextEntry

/-- `checkout_by_message` for a message that belongs to an SA. -/
def checkoutByMessage (m : SaTable θ) (t : θ) (msg : SaMessage) : SaTable θ :=
  match m.getEntryById c msg.id with
  | some e =>
    let en := m.entries e
    if en.processing = msg.key then m.takeUnchecked t e msg
    else m.answer t e (.message msg) true en.waitForEntry
  | none => m

/-- `new_initiator_spi`, given the SPI that `get_spi` returns, for an SA that the thread has checked
out. -/
def newInitiatorSpi (m : SaTable θ) (s : ℕ) (newSpi : UInt64) : SaTable θ :=
  let sa := m.sas s
  if sa.state = .connecting ∧ sa.id.isInitiator ∧ newSpi ≠ 0 then
    match m.getEntryBySa c s with
    | some e =>
      let en := m.entries e
      if en.driveoutWaitingThreads && en.driveoutNewThreads then m
      else
        let id := { sa.id with initiatorSpi := c.mergeSpi sa.id.initiatorSpi newSpi }
        (m.setSa s { sa with id }).setEntry e { en with ikeSaId := id }
    | none => m
  else m

/-- The half-open SAs are counted anew in `checkin`, for an entry whose SA is given. -/
def recount (m : SaTable θ) (e : ℕ) (sa : IkeSa) : SaTable θ :=
  let en := m.entries e
  if en.halfOpen && sa.state ≠ .connecting then
    (m.setEntry e { en with halfOpen := false }).removeHalfOpen c en
  else if en.halfOpen && !(en.other.any (ipEquals sa.otherHost)) then
    let en' := { en with other := some sa.otherHost }
    ((m.removeHalfOpen c en).setEntry e en').putHalfOpen c en'
  else if !en.halfOpen && sa.state = .connecting then
    let en' := { en with halfOpen := true, other := some sa.otherHost }
    (m.setEntry e en').putHalfOpen c en'
  else m

/-- `checkin`. -/
def checkin (m : SaTable θ) (t : θ) (s : ℕ) : SaTable θ :=
  match m.getEntryBySa c s with
  | some e =>
    let sa := m.sas s
    let en := { m.entries e with ikeSaId := sa.id, checkedOut := none, processing := noMessage }
    ((m.giveBack t s).setEntry e en).recount c e sa
  | none => (m.giveBack t s).createEntry c t s false

/-- The loop of `checkin_and_destroy`, and the removal of the entry after it. -/
def driveOut (m : SaTable θ) (t : θ) (e : ℕ) : SaTable θ :=
  if (m.entries e).waitingThreads ≠ 0 then m.setActivity t (.destroying e)
  else (m.removeEntry c e).setActivity t (.removing e)

/-- `checkin_and_destroy`. -/
def checkinAndDestroy (m : SaTable θ) (t : θ) (s : ℕ) : SaTable θ :=
  match m.getEntryBySa c s with
  | some e =>
    let en := m.entries e
    if en.driveoutWaitingThreads && en.driveoutNewThreads then
      (m.giveBack t s).setEntry e { en with checkedOut := none }
    else
      ((m.giveBack t s).setEntry e
        { en with driveoutWaitingThreads := true, driveoutNewThreads := true }).driveOut c t e
  | none => m.giveBack t s

/-- What `checkin_and_destroy` does with the entry that it has unlinked. -/
def finishRemoval (m : SaTable θ) (t : θ) (e : ℕ) : SaTable θ :=
  let en := m.entries e
  let m' := (m.setEntry e { en with gone := true }).setActivity t .running
  if en.halfOpen then m'.removeHalfOpen c en else m'

/-! ## Steps -/

/-- A step of a thread. -/
inductive Step (θ : Type) where
  | createNew (t : θ) (version : UInt8) (initiator : Bool) (spi : UInt64)
  /-- A thread works with an SA that it holds. -/
  | work (t : θ) (s : ℕ) (id : IkeSaId) (state : IkeSaState) (otherHost : Chunk)
  | checkoutNew (t : θ) (s : ℕ)
  | putEntry (t : θ)
  | checkout (t : θ) (id : IkeSaId)
  /-- A search comes to an entry. -/
  | search (t : θ) (e : ℕ) (wanted : Bool)
  | wake (t : θ) (wanted : Bool)
  | checkoutNewByMessage (t : θ) (id : IkeSaId) (spi : UInt64) (key : UInt32)
  | checkoutByMessage (t : θ) (msg : SaMessage)
  | newInitiatorSpi (t : θ) (s : ℕ) (spi : UInt64)
  | checkin (t : θ) (s : ℕ)
  | checkinAndDestroy (t : θ) (s : ℕ)
  | driveOut (t : θ)
  | finishRemoval (t : θ)

/-- The entry is in the table. -/
def Linked (m : SaTable θ) (e : ℕ) : Prop := e ∈ m.rows (c.row (m.entries e).ikeSaId)

instance (m : SaTable θ) (e : ℕ) : Decidable (m.Linked c e) :=
  inferInstanceAs (Decidable (e ∈ m.rows (c.row (m.entries e).ikeSaId)))

/-- The thread is outside of the manager and has an SA. -/
def Works (m : SaTable θ) (t : θ) (s : ℕ) : Prop := m.activity t = .running ∧ s ∈ m.held t

instance (m : SaTable θ) (t : θ) (s : ℕ) : Decidable (m.Works t s) :=
  inferInstanceAs (Decidable (_ ∧ _))

/-- The manager after a step. A step that the thread cannot take changes nothing. -/
def next (m : SaTable θ) : Step θ → SaTable θ
  | .createNew t version initiator spi =>
    if m.activity t = .running then m.createNew t version initiator spi else m
  | .work t s id state otherHost =>
    if m.Works t s ∧ (m.sas s).id.MayBecome id then
      m.setSa s { m.sas s with id, state, otherHost }
    else m
  | .checkoutNew t s =>
    if m.Works t s ∧ (m.sas s).managed = false then m.createEntry c t s true else m
  | .putEntry t =>
    match m.activity t with
    | .putting e checkout =>
      let m := (m.putEntry c e).setActivity t .running
      if checkout then m.setEntry e { m.entries e with checkedOut := some t } else m
    | _ => m
  | .checkout t id => if m.activity t = .running then m.checkout c t id else m
  | .search t e wanted =>
    if m.activity t = .running ∧ m.Linked c e then
      m.answer t e .search wanted (m.entries e).waitForEntry
    else m
  | .wake t wanted =>
    match m.activity t with
    | .waiting e purpose => (m.unblock t e).answer t e purpose wanted (m.entries e).tryEntry
    | _ => m
  | .checkoutNewByMessage t id spi key =>
    if m.activity t = .running then m.checkoutNewByMessage c t id spi key else m
  | .checkoutByMessage t msg =>
    if m.activity t = .running then m.checkoutByMessage c t msg else m
  | .newInitiatorSpi t s spi => if m.Works t s then m.newInitiatorSpi c s spi else m
  | .checkin t s => if m.Works t s then m.checkin c t s else m
  | .checkinAndDestroy t s => if m.Works t s then m.checkinAndDestroy c t s else m
  | .driveOut t =>
    match m.activity t with
    | .destroying e => m.driveOut c t e
    | _ => m
  | .finishRemoval t =>
    match m.activity t with
    | .removing e => m.finishRemoval c t e
    | _ => m

/-- The manager after a run. -/
def run (steps : List (Step θ)) : SaTable θ := Run.after (next c) create steps

/-- A thread waits with a message for an entry that it will not get, and takes its SA nevertheless. -/
def takesRefused (m : SaTable θ) : Activity → Bool
  | .waiting e (.message msg) => (m.entries e).tryEntry = .refused ∧ msg.Takes
  | _ => false

/-- A step of `checkout_by_message` returns an SA that it has not checked out: the message is being
processed, or the entry is about to be destroyed. -/
def Unchecked (m : SaTable θ) : Step θ → Prop
  | .checkoutByMessage t msg =>
    m.activity t = .running ∧ ∃ e ∈ m.getEntryById c msg.id,
      ((m.entries e).processing = msg.key ∨ (m.entries e).waitForEntry = .refused) ∧ msg.Takes
  | .wake t _ => m.takesRefused (m.activity t) = true
  | _ => False

instance decidableUnchecked (m : SaTable θ) : ∀ step : Step θ, Decidable (m.Unchecked c step)
  | .checkoutByMessage .. => inferInstanceAs (Decidable (_ ∧ _))
  | .wake .. => inferInstanceAs (Decidable (_ = true))
  | .createNew .. | .work .. | .checkoutNew .. | .putEntry .. | .checkout .. | .search ..
  | .checkoutNewByMessage .. | .newInitiatorSpi .. | .checkin .. | .checkinAndDestroy ..
  | .driveOut .. | .finishRemoval .. => instDecidableFalse

/-- No step of a run returns an SA that it has not checked out. -/
def Checked (steps : List (Step θ)) : Prop :=
  Run.Along (next c) (fun m step => ¬m.Unchecked c step) create steps

instance decidableChecked (steps : List (Step θ)) : Decidable (Checked c steps) :=
  Run.decidableAlong _ _ create steps

end SaTable

end Epdg

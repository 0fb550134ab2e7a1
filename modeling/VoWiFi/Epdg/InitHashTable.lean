import VoWiFi.Epdg.Instance
import VoWiFi.Epdg.Message
import VoWiFi.Lib.Run

/-!
# The table of init hashes

The IKE SA manager remembers the hash of every IKE_SA_INIT request together with the SPI it has allocated
for it, so that a retransmitted request is mapped to the same SPI. The hashes are kept in rows; the row
is given by the low bits of `chunk_hash`.
-/

namespace Epdg

/-- `init_hash_t`. -/
structure InitHash where
  hash : Chunk
  ourSpi : UInt64
  deriving DecidableEq, Repr

/-- `init_hashes_table`, with the number of rows as a power of two. -/
structure InitHashTable where
  bits : ℕ
  rows : ℕ → List InitHash

/-- `table_mask`. -/
def InitHashTable.mask (t : InitHashTable) : ℕ := 2 ^ t.bits - 1

def InitHashTable.setRow (t : InitHashTable) (row : ℕ) (items : List InitHash) : InitHashTable :=
  { t with rows := Function.update t.rows row items }

section

variable (chunkHash : Chunk → UInt32)

def InitHashTable.row (t : InitHashTable) (hash : Chunk) : ℕ := (chunkHash hash).toNat &&& t.mask

/-- The search in a row that `check_and_put_init_hash` begins with. -/
def InitHashTable.find (t : InitHashTable) (hash : Chunk) : Option InitHash :=
  (t.rows (t.row chunkHash hash)).find? (·.hash = hash)

/-- `check_and_put_init_hash`, given the SPI that `get_spi` allocates, which is zero if it fails. -/
def InitHashTable.checkAndPutInitHash (t : InitHashTable) (hash : Chunk) (spi : UInt64) :
    Status × Option UInt64 × InitHashTable :=
  match t.find chunkHash hash with
  | some current => (.alreadyDone, some current.ourSpi, t)
  | none =>
    if spi = 0 then (.failed, none, t)
    else
      let row := t.row chunkHash hash
      (.notFound, some spi, t.setRow row (⟨hash, spi⟩ :: t.rows row))

/-- `remove_init_hash`. -/
def InitHashTable.removeInitHash (t : InitHashTable) (hash : Chunk) : InitHashTable :=
  let row := t.row chunkHash hash
  t.setRow row ((t.rows row).eraseP (·.hash = hash))

/-- The calls that maintain the table. -/
inductive TableCall where
  | checkAndPut (hash : Chunk) (spi : UInt64)
  | remove (hash : Chunk)

def InitHashTable.call (t : InitHashTable) : TableCall → InitHashTable
  | .checkAndPut hash spi => (t.checkAndPutInitHash chunkHash hash spi).2.2
  | .remove hash => t.removeInitHash chunkHash hash

/-- The table as the manager creates it. -/
def InitHashTable.create (bits : ℕ) : InitHashTable := ⟨bits, fun _ => []⟩

/-- The table after a sequence of calls. -/
def InitHashTable.maintained (bits : ℕ) (calls : List TableCall) : InitHashTable :=
  Run.after (InitHashTable.call chunkHash) (InitHashTable.create bits) calls

end

/-- Another SPI for one hash. -/
def InitHash.withSpi (hash : Chunk) (spi : UInt64) (e : InitHash) : InitHash :=
  if e.hash = hash then { e with ourSpi := spi } else e

/-- The table in which the entry of a hash has got another SPI. -/
def InitHashTable.withSpi (t : InitHashTable) (hash : Chunk) (spi : UInt64) : InitHashTable :=
  { t with rows := fun row => (t.rows row).map (InitHash.withSpi hash spi) }

/-- What `checkout_by_message` copies into the instance for the SA it creates. -/
structure HashRef where
  initHash : Chunk
  tableMask : UInt8
  deriving DecidableEq, Repr

/-- The mask is cut to eight bits. -/
def InitHashTable.ref (t : InitHashTable) (hash : Chunk) : HashRef := ⟨hash, UInt8.ofNat t.mask⟩

end Epdg

import VoWiFi.Epdg.InitHashTable
import VoWiFi.Epdg.Update
import VoWiFi.Lib.Steps

/-!
# Changing the header of a message

`process_ike_header` goes through the names of five responses and, for the one the query is for, through
the fields of the header. An update of the responder's SPI is also stored in the table of init hashes,
in the entry of the request that the session has begun with.
-/

namespace Epdg

/-- The fields of an `ike_header_t` that a query can change. -/
structure IkeHeader where
  initiatorSpi : UInt64
  responderSpi : UInt64
  majVersion : UInt8
  minVersion : UInt8
  exchangeType : UInt8
  responseFlag : Bool
  versionFlag : Bool
  initiatorFlag : Bool
  encryptionFlag : Bool
  commitFlag : Bool
  authonlyFlag : Bool
  messageId : UInt32
  deriving DecidableEq, Repr

/-- What `process_ike_header` writes to: the header, the SPIs of the `ike_sa_id_t` and the table. -/
structure HeaderState where
  header : IkeHeader
  saIspi : UInt64
  saRspi : UInt64
  table : InitHashTable

/-- A statement of `process_ike_header`. -/
abbrev HeaderStep := HeaderState → HeaderState × Option Stop

/-! ## The table of init hashes -/

/-- The search for the entry of a hash, which begins with the first item of its row and never moves on
to the next one: the items from where it ends. -/
def searchRow (hash : Chunk) (items : List InitHash) : ℕ → Option (List InitHash)
  | 0 => none
  | fuel + 1 =>
    match items with
    | [] => some []
    | current :: _ => if current.hash = hash then some items else searchRow hash items fuel

/-- The row for the session, with the mask of the instance. -/
def HashRef.row (ref : HashRef) (chunkHash : Chunk → UInt32) : ℕ :=
  (chunkHash ref.initHash).toNat &&& ref.tableMask.toNat

/-- Store an SPI in the entry of the session. -/
def setOurSpi (chunkHash : Chunk → UInt32) (ref : HashRef) (fuel : ℕ) (spi : UInt64) : HeaderStep :=
  fun s =>
    let row := ref.row chunkHash
    match searchRow ref.initHash (s.table.rows row) fuel with
    | none => (s, some .running)
    | some [] => (s, some .nullPointer)
    | some (thash :: items) =>
      ({ s with table := s.table.setRow row ({ thash with ourSpi := spi } :: items) }, none)

/-! ## Fields -/

/-- The fields that are numbers. -/
inductive HeaderField where
  | initiatorSpi
  | responderSpi
  | majVersion
  | minVersion
  | exchangeType
  | messageId
  deriving DecidableEq, Repr

def HeaderField.name : HeaderField → Text
  | initiatorSpi => "initiator_spi".toList
  | responderSpi => "responder_spi".toList
  | majVersion => "ike_major_version".toList
  | minVersion => "ike_minor_version".toList
  | exchangeType => "exchange_type".toList
  | messageId => "message_id".toList

def HeaderField.width : HeaderField → Width
  | initiatorSpi | responderSpi => .w64
  | majVersion | minVersion | exchangeType => .w8
  | messageId => .w32

/-- The value of a field. -/
def HeaderField.get (h : IkeHeader) : HeaderField → ℕ
  | initiatorSpi => h.initiatorSpi.toNat
  | responderSpi => h.responderSpi.toNat
  | majVersion => h.majVersion.toNat
  | minVersion => h.minVersion.toNat
  | exchangeType => h.exchangeType.toNat
  | messageId => h.messageId.toNat

section

variable (chunkHash : Chunk → UInt32) (ref : HashRef) (fuel : ℕ)

/-- Store the responder's SPI in the header and in the `ike_sa_id_t`. -/
def HeaderState.setResponderSpi (s : HeaderState) (spi : UInt64) : HeaderState :=
  { s with header.responderSpi := spi, saRspi := spi }

/-- Store a number in a field, converted to the type of the field. -/
def HeaderField.set (v : ℤ) : HeaderField → HeaderStep
  | initiatorSpi => fun s =>
    ({ s with header.initiatorSpi := UInt64.ofInt v, saIspi := UInt64.ofInt v }, none)
  | responderSpi => fun s =>
    setOurSpi chunkHash ref fuel (UInt64.ofInt v) (s.setResponderSpi (UInt64.ofInt v))
  | majVersion => fun s => ({ s with header.majVersion := UInt8.ofInt v }, none)
  | minVersion => fun s => ({ s with header.minVersion := UInt8.ofInt v }, none)
  | exchangeType => fun s => ({ s with header.exchangeType := UInt8.ofInt v }, none)
  | messageId => fun s => ({ s with header.messageId := UInt32.ofInt v }, none)

/-- The number a query asks for in a field, in either of the two value types of its width. -/
def HeaderField.asked (query : Option Query) (r : Round) (f : HeaderField) : Option ℤ :=
  (askedQuery query r [f.name]).bind fun q =>
    (q.label.number? f.width .decimal).or (q.label.number? f.width .hexadecimal)

/-- The part of the loop for a field that is a number. -/
def processField (query : Option Query) (r : Round) (f : HeaderField) : HeaderStep :=
  fun s =>
    match f.asked query r with
    | some v => f.set chunkHash ref fuel v s
    | none => (s, none)

end

/-! ## Flags -/

/-- `check_flag`: the shorter one of the two texts is the beginning of the other. -/
def checkFlag (flag tmp : Text) : Bool := flag <+: tmp || tmp <+: flag

/-- The texts that set and clear a flag, in the order in which they are looked for. -/
def flagSetters : List (Text × (IkeHeader → IkeHeader)) :=
  [("responder".toList, ({ · with responseFlag := true })),
    ("no_responder".toList, ({ · with responseFlag := false })),
    ("version".toList, ({ · with versionFlag := true })),
    ("no_version".toList, ({ · with versionFlag := false })),
    ("initiator".toList, ({ · with initiatorFlag := true })),
    ("no_initiator".toList, ({ · with initiatorFlag := false })),
    ("encryption".toList, ({ · with encryptionFlag := true })),
    ("no_encryption".toList, ({ · with encryptionFlag := false })),
    ("commit".toList, ({ · with commitFlag := true })),
    ("no_commit".toList, ({ · with commitFlag := false })),
    ("authonly".toList, ({ · with authonlyFlag := true })),
    ("no_authonly".toList, ({ · with authonlyFlag := false }))]

/-- All flags that a text names. -/
def setFlags (tmp : Text) (h : IkeHeader) : IkeHeader :=
  flagSetters.foldl (fun h f => if checkFlag f.1 tmp then f.2 h else h) h

/-- The part of the loop for the flags. -/
def processFlags (query : Option Query) (r : Round) : HeaderStep :=
  fun s =>
    match (askedQuery query r ["flags".toList]).bind (·.label.string?) with
    | some tmp => ({ s with header := setFlags tmp s.header }, none)
    | none => (s, none)

/-! ## The loop -/

section

variable (chunkHash : Chunk → UInt32) (ref : HashRef) (fuel : ℕ)

/-- One pass of the loop over the responses. -/
def processHeaderFor (query : Option Query) (r : Round) : HeaderStep :=
  Steps.run
    [processField chunkHash ref fuel query r .initiatorSpi,
      processField chunkHash ref fuel query r .responderSpi,
      processField chunkHash ref fuel query r .majVersion,
      processField chunkHash ref fuel query r .minVersion,
      processField chunkHash ref fuel query r .exchangeType,
      processFlags query r,
      processField chunkHash ref fuel query r .messageId]

/-- `process_ike_header`. -/
def processIkeHeader (query : Option Query) : HeaderStep :=
  Steps.run (generatedRounds.map (processHeaderFor chunkHash ref fuel query))

end

/-! ## When a field is reached -/

/-- The entry of the session is the first one of the row it is looked for in. -/
def HashRef.First (ref : HashRef) (chunkHash : Chunk → UInt32) (t : InitHashTable) : Prop :=
  ((t.rows (ref.row chunkHash)).head?.map (·.hash)) = some ref.initHash

instance (ref : HashRef) (chunkHash : Chunk → UInt32) (t : InitHashTable) :
    Decidable (ref.First chunkHash t) := inferInstanceAs (Decidable (_ = _))

/-- The search of an update of the responder's SPI does not come before the field, or ends. -/
def HeaderField.Reached (chunkHash : Chunk → UInt32) (ref : HashRef) (query : Option Query) (r : Round)
    (t : InitHashTable) (f : HeaderField) : Prop :=
  f = .initiatorSpi ∨ f = .responderSpi ∨ HeaderField.responderSpi.asked query r = none ∨
    ref.First chunkHash t

/-- The query for a response carries a number for a field, as a numeral with a value type of the field. -/
structure HeaderField.CarriedBy (f : HeaderField) (q : Query) (r : Round) (radix : Radix) (s : Text)
    (v : ℕ) : Prop where
  round : r ∈ generatedRounds
  name : isQueryName q.label (some r.responseText) = true
  node : (getSubQueryByName q f.name).map RoseTree.label =
    some ⟨some f.name, .update, valTypeUint f.width radix, some s⟩
  numeral : Numeral radix s v
  fits : v < 2 ^ f.width.bits

end Epdg

import VoWiFi.Epdg.Instance
import VoWiFi.Lib.BitString
import VoWiFi.Lib.RoseTree

/-!
# Encoding rules, the generator and the parser

Every payload has a table of encoding rules, one for each of its fields. `generator.c` writes a payload by
going through the table, and `parser.c` reads one in the same way. Both handle single bits, so that they keep
a position inside a byte. A payload whose table ends with a list of substructures contains other payloads,
which are written and read recursively.

The tables are those of IKEv2 and of the header.
-/

namespace Epdg

open BitString

/-- `encoding_type_t`, without the lists of substructures. -/
inductive EncodingType where
  | uInt4
  | uInt8
  | uInt16
  | uInt32
  | reservedBit
  | reservedByte
  | flag
  | payloadLength
  | headerLength
  | spiSize
  | spi
  | attributeFormat
  | attributeType
  | attributeLengthOrValue
  | attributeLength
  | attributeValue
  | tsType
  | address
  | chunkData
  | ikeSpi
  deriving DecidableEq, Repr

/-- The type of the field that a rule is for. The SPIs of the header are written as they are in memory. -/
@[reducible] def EncodingType.Value : EncodingType → Type
  | uInt4 | uInt8 | reservedByte | spiSize | tsType => UInt8
  | uInt16 | payloadLength | attributeType | attributeLengthOrValue | attributeLength => UInt16
  | uInt32 | headerLength => UInt32
  | reservedBit | flag | attributeFormat => Bool
  | spi | attributeValue | address | chunkData => Chunk
  | ikeSpi => { c : Chunk // c.length = 8 }

instance EncodingType.decidableEqValue : ∀ t : EncodingType, DecidableEq t.Value
  | .uInt4 | .uInt8 | .reservedByte | .spiSize | .tsType => inferInstanceAs (DecidableEq UInt8)
  | .uInt16 | .payloadLength | .attributeType | .attributeLengthOrValue | .attributeLength =>
    inferInstanceAs (DecidableEq UInt16)
  | .uInt32 | .headerLength => inferInstanceAs (DecidableEq UInt32)
  | .reservedBit | .flag | .attributeFormat => inferInstanceAs (DecidableEq Bool)
  | .spi | .attributeValue | .address | .chunkData => inferInstanceAs (DecidableEq Chunk)
  | .ikeSpi => inferInstanceAs (DecidableEq { c : Chunk // c.length = 8 })

/-- A field of a payload, with its rule. -/
structure Field where
  type : EncodingType
  value : type.Value
  deriving DecidableEq

/-! ## Payloads and their tables -/

/-- `payload_type_t`, for IKEv2. -/
inductive PayloadKind where
  | header
  | securityAssociation
  | keyExchange
  | idInitiator
  | idResponder
  | certificate
  | certreq
  | auth
  | nonce
  | notify
  | delete
  | vendorId
  | tsInitiator
  | tsResponder
  | encrypted
  | configuration
  | eap
  | fragment
  /-- Any other type, which is kept. -/
  | unknown (type : UInt8)
  | proposalSubstructure
  | transformSubstructure
  | transformAttribute
  | trafficSelectorSubstructure
  | configurationAttribute
  deriving DecidableEq, Repr

namespace PayloadKind

/-- What the tables of the payloads of a message begin with: next payload, critical flag, seven reserved bits
and the length. -/
def genericHeader : List EncodingType :=
  [.uInt8, .flag, .reservedBit, .reservedBit, .reservedBit, .reservedBit, .reservedBit, .reservedBit,
    .reservedBit, .payloadLength]

/-- `get_encoding_rules`. A list of substructures, which is the last rule of every table that has one, is
given by `sub`. -/
def rules : PayloadKind → List EncodingType
  | header =>
    [.ikeSpi, .ikeSpi, .uInt8, .uInt4, .uInt4, .uInt8, .reservedBit, .reservedBit, .flag, .flag, .flag,
      .flag, .flag, .flag, .uInt32, .headerLength]
  | securityAssociation => genericHeader
  | keyExchange => genericHeader ++ [.uInt16, .reservedByte, .reservedByte, .chunkData]
  | idInitiator | idResponder =>
    genericHeader ++ [.uInt8, .reservedByte, .reservedByte, .reservedByte, .chunkData]
  | certificate | certreq => genericHeader ++ [.uInt8, .chunkData]
  | auth => genericHeader ++ [.uInt8, .reservedByte, .reservedByte, .reservedByte, .chunkData]
  | nonce | vendorId | eap | unknown _ => genericHeader ++ [.chunkData]
  | notify => genericHeader ++ [.uInt8, .spiSize, .uInt16, .spi, .chunkData]
  | delete => genericHeader ++ [.uInt8, .uInt8, .uInt16, .chunkData]
  | tsInitiator | tsResponder => genericHeader ++ [.uInt8, .reservedByte, .reservedByte, .reservedByte]
  | configuration => genericHeader ++ [.uInt8, .reservedByte, .reservedByte, .reservedByte]
  | encrypted => [.uInt8, .uInt8, .payloadLength, .chunkData]
  | fragment => [.uInt8, .uInt8, .payloadLength, .uInt16, .uInt16, .chunkData]
  | proposalSubstructure =>
    [.uInt8, .reservedByte, .payloadLength, .uInt8, .uInt8, .spiSize, .uInt8, .spi]
  | transformSubstructure => [.uInt8, .reservedByte, .payloadLength, .uInt8, .reservedByte, .uInt16]
  | transformAttribute => [.attributeFormat, .attributeType, .attributeLengthOrValue, .attributeValue]
  | trafficSelectorSubstructure =>
    [.tsType, .uInt8, .payloadLength, .uInt16, .uInt16, .address, .address]
  | configurationAttribute => [.reservedBit, .attributeType, .attributeLength, .attributeValue]

/-- The payloads in the list at the end of a table. -/
def sub : PayloadKind → Option PayloadKind
  | securityAssociation => some proposalSubstructure
  | proposalSubstructure => some transformSubstructure
  | transformSubstructure => some transformAttribute
  | tsInitiator | tsResponder => some trafficSelectorSubstructure
  | configuration => some configurationAttribute
  | _ => none

/-- `get_header_length`, which depends on the size of the SPI in two payloads. -/
def headerLength (spiSize : ℕ) : PayloadKind → ℕ
  | header => 28
  | securityAssociation | nonce | vendorId | eap | unknown _ | encrypted => 4
  | keyExchange | idInitiator | idResponder | auth | delete | tsInitiator | tsResponder | configuration
  | fragment | transformSubstructure | trafficSelectorSubstructure => 8
  | certificate | certreq => 5
  | notify | proposalSubstructure => 8 + spiSize
  | transformAttribute => 0
  | configurationAttribute => 4

/-- How deep the payloads in a payload can be nested. -/
def depth : PayloadKind → ℕ
  | securityAssociation => 3
  | proposalSubstructure => 2
  | transformSubstructure | tsInitiator | tsResponder | configuration => 1
  | _ => 0

end PayloadKind

structure PayloadFields where
  kind : PayloadKind
  fields : List Field
  deriving DecidableEq

/-- A payload with the payloads in it. -/
abbrev PayloadTree := RoseTree PayloadFields

def PayloadTree.kind (p : PayloadTree) : PayloadKind := p.label.kind

/-! ## The generator -/

/-- The state of a generator: the complete bytes, the byte at the position of writing, the number of bits of
it that are written, and the format of the last attribute. -/
structure Generator where
  out : Chunk
  cur : UInt8
  bit : ℕ
  attributeFormat : Bool

section

/- What the memory of the buffer holds before it is written. -/
variable (memory : ℕ → UInt8)

/-- `generator_create`. -/
def Generator.create : Generator := ⟨[], memory 0, 0, false⟩

/-- `write_bytes_to_buffer`. -/
def Generator.writeBytes (g : Generator) (bytes : Chunk) : Generator :=
  { g with out := g.out ++ bytes, cur := memory (g.out.length + bytes.length) }

/-- The part of `generate_u_int_type` for four bits: the other half of the byte is kept. -/
def Generator.generateUInt4 (g : Generator) (v : UInt8) : Generator :=
  if g.bit = 0 then { g with cur := (v <<< 4) ||| (g.cur &&& 0x0F), bit := 4 }
  else if g.bit = 4 then { g.writeBytes memory [(g.cur &&& 0xF0) ||| (v &&& 0x0F)] with bit := 0 }
  else g

/-- The part of `generate_u_int_type` for whole bytes, in network order. -/
def Generator.generateUInt (g : Generator) (bytes : Chunk) : Generator :=
  if g.bit ≠ 0 then g else g.writeBytes memory bytes

/-- The part of `generate_u_int_type` for an attribute type, which keeps the flag in front of it. -/
def Generator.generateAttributeType (g : Generator) (v : UInt16) : Generator :=
  if g.bit ≠ 1 then g
  else
    let val := (v &&& 0x7FFF) ||| (if g.cur &&& 0x80 ≠ 0 then 0x8000 else 0)
    { g.writeBytes memory (beBytes 2 val.toNat) with bit := 0 }

/-- `generate_flag`. -/
def Generator.generateFlag (g : Generator) (flag : Bool) : Generator :=
  let cur := (if g.bit = 0 then 0 else g.cur) ||| (if flag then mask g.bit else 0)
  if g.bit + 1 < 8 then { g with cur, bit := g.bit + 1 }
  else { g.writeBytes memory [cur] with bit := (g.bit + 1) % 8 }

/-- `generate_from_chunk`. -/
def Generator.generateFromChunk (g : Generator) (c : Chunk) : Generator :=
  if g.bit ≠ 0 then g else g.writeBytes memory c

/-- The body of the loop of `generate_payload`. -/
def Generator.generateField (g : Generator) : Field → Generator
  | ⟨.uInt4, v⟩ => g.generateUInt4 memory v
  | ⟨.uInt8, v⟩ | ⟨.reservedByte, v⟩ | ⟨.spiSize, v⟩ | ⟨.tsType, v⟩ => g.generateUInt memory [v]
  | ⟨.uInt16, v⟩ | ⟨.payloadLength, v⟩ | ⟨.attributeLength, v⟩ | ⟨.attributeLengthOrValue, v⟩ =>
    g.generateUInt memory (beBytes 2 v.toNat)
  | ⟨.uInt32, v⟩ | ⟨.headerLength, v⟩ => g.generateUInt memory (beBytes 4 v.toNat)
  | ⟨.ikeSpi, v⟩ => g.generateUInt memory v.1
  | ⟨.attributeType, v⟩ => g.generateAttributeType memory v
  | ⟨.reservedBit, b⟩ | ⟨.flag, b⟩ => g.generateFlag memory b
  | ⟨.attributeFormat, b⟩ => { g.generateFlag memory b with attributeFormat := b }
  | ⟨.spi, c⟩ | ⟨.address, c⟩ | ⟨.chunkData, c⟩ => g.generateFromChunk memory c
  | ⟨.attributeValue, c⟩ => if g.attributeFormat then g else g.generateFromChunk memory c

mutual

/-- `generate_payload`. -/
def generatePayload : PayloadTree → Generator → Generator
  | .node p sub, g => generateList sub (p.fields.foldl (Generator.generateField memory) g)

/-- The loop over the substructures, or over the payloads of a message. -/
def generateList : List PayloadTree → Generator → Generator
  | [], g => g
  | p :: ps, g => generateList ps (generatePayload p g)

end

end

/-! ## The parser -/

/-- The input from the position of reading on, and the bits of its first byte that are read. -/
structure Parser where
  bytes : Chunk
  bit : ℕ
  deriving DecidableEq, Repr

/-- `parse_uint4`. -/
def Parser.parseUint4 (p : Parser) : Option (UInt8 × Parser) :=
  match p.bytes with
  | [] => none
  | b :: rest =>
    if p.bit = 0 then some (b >>> 4, { p with bit := 4 })
    else if p.bit = 4 then some (b &&& 0x0F, ⟨rest, 0⟩)
    else none

/-- `parse_bytes` and `parse_chunk`. -/
def Parser.parseChunk (p : Parser) (length : ℕ) : Option (Chunk × Parser) :=
  if p.bytes.length < length then none
  else if p.bit ≠ 0 then none
  else some (p.bytes.take length, ⟨p.bytes.drop length, 0⟩)

/-- `parse_uint8`, `parse_uint16` and `parse_uint32`: a number of several bytes. -/
def Parser.parseUint (p : Parser) (length : ℕ) : Option (ℕ × Parser) :=
  (p.parseChunk length).map fun r => (beValue r.1, r.2)

/-- `parse_uint15`. -/
def Parser.parseUint15 (p : Parser) : Option (UInt16 × Parser) :=
  if p.bytes.length < 2 then none
  else if p.bit ≠ 1 then none
  else some (UInt16.ofNat (beValue (p.bytes.take 2)) &&& 0x7FFF, ⟨p.bytes.drop 2, 0⟩)

/-- `parse_bit`. -/
def Parser.parseBit (p : Parser) : Option (Bool × Parser) :=
  match p.bytes with
  | [] => none
  | b :: rest =>
    some (b &&& mask p.bit ≠ 0, if (p.bit + 1) % 8 = 0 then ⟨rest, 0⟩ else ⟨p.bytes, (p.bit + 1) % 8⟩)

/-- The variables of `parse_payload`. -/
structure ParseContext where
  payloadLength : ℕ := 0
  spiSize : ℕ := 0
  attributeLength : ℕ := 0
  attributeFormat : Bool := false
  tsType : ℕ := 0
  deriving DecidableEq, Repr

/-- What a field sets in the variables. -/
def ParseContext.after (ctx : ParseContext) : Field → ParseContext
  | ⟨.payloadLength, v⟩ => { ctx with payloadLength := v.toNat }
  | ⟨.spiSize, v⟩ => { ctx with spiSize := v.toNat }
  | ⟨.attributeFormat, b⟩ => { ctx with attributeFormat := b }
  | ⟨.attributeLength, v⟩ | ⟨.attributeLengthOrValue, v⟩ => { ctx with attributeLength := v.toNat }
  | ⟨.tsType, v⟩ => { ctx with tsType := v.toNat }
  | _ => ctx

/-- The length of an address, with `TS_IPV4_ADDR_RANGE` as 7. -/
def ParseContext.addressLength (ctx : ParseContext) : ℕ := if ctx.tsType = 7 then 4 else 16

/-- The body of the loop of `parse_payload`: the value of a field. -/
def parseValue (kind : PayloadKind) (ctx : ParseContext) (p : Parser) :
    (t : EncodingType) → Option (t.Value × Parser)
  | .uInt4 => p.parseUint4
  | .uInt8 | .reservedByte | .spiSize | .tsType =>
    (p.parseUint 1).map fun r => (UInt8.ofNat r.1, r.2)
  | .uInt16 | .attributeLength | .attributeLengthOrValue =>
    (p.parseUint 2).map fun r => (UInt16.ofNat r.1, r.2)
  | .payloadLength =>
    -- all payloads have a header of at least four bytes
    (p.parseUint 2).bind fun r => if r.1 < 4 then none else some (UInt16.ofNat r.1, r.2)
  | .uInt32 | .headerLength => (p.parseUint 4).map fun r => (UInt32.ofNat r.1, r.2)
  | .ikeSpi =>
    if h : (p.bytes.take 8).length = 8 then
      if p.bit ≠ 0 then none else some (⟨p.bytes.take 8, h⟩, ⟨p.bytes.drop 8, 0⟩)
    else none
  | .attributeType => p.parseUint15
  | .reservedBit | .flag | .attributeFormat => p.parseBit
  | .spi => p.parseChunk ctx.spiSize
  | .address => p.parseChunk ctx.addressLength
  | .chunkData =>
    if ctx.payloadLength < kind.headerLength ctx.spiSize then none
    else p.parseChunk (ctx.payloadLength - kind.headerLength ctx.spiSize)
  | .attributeValue => if ctx.attributeFormat then some ([], p) else p.parseChunk ctx.attributeLength

/-- The loop of `parse_payload` over the rules of a table. -/
def parseRules (kind : PayloadKind) :
    List EncodingType → ParseContext → Parser → Option (List Field × ParseContext × Parser)
  | [], ctx, p => some ([], ctx, p)
  | t :: rules, ctx, p =>
    match parseValue kind ctx p t with
    | none => none
    | some (v, p) =>
      (parseRules kind rules (ctx.after ⟨t, v⟩) p).map fun r => (⟨t, v⟩ :: r.1, r.2)

/-- The loop of `parse_list`, which has to end at the length exactly. Every substructure has at least one
byte, so that there are not more of them than bytes. -/
def parseList (parseSub : Parser → Option (PayloadTree × Parser)) :
    ℕ → ℕ → Parser → Option (List PayloadTree × Parser)
  | _, 0, p => some ([], p)
  | 0, _ + 1, _ => none
  | fuel + 1, length + 1, p =>
    match parseSub p with
    | none => none
    | some (q, p') =>
      if p.bytes.length - p'.bytes.length ≤ length + 1 then
        (parseList parseSub fuel (length + 1 - (p.bytes.length - p'.bytes.length)) p').map fun r =>
          (q :: r.1, r.2)
      else none

/-- The end of `parse_payload`: the list of substructures, if there is one. -/
def parseSubs (parseSub : PayloadKind → Parser → Option (PayloadTree × Parser)) (kind : PayloadKind)
    (fields : List Field) (ctx : ParseContext) (p : Parser) : Option (PayloadTree × Parser) :=
  match kind.sub with
  | none => some (.node ⟨kind, fields⟩ [], p)
  | some s =>
    let hlen := kind.headerLength ctx.spiSize
    if ctx.payloadLength < hlen then none
    else if p.bit ≠ 0 then none
    else
      (parseList (parseSub s) (ctx.payloadLength - hlen) (ctx.payloadLength - hlen) p).map fun r =>
        (.node ⟨kind, fields⟩ r.1, r.2)

/-- `parse_payload` for a payload with a bound on the depth of the payloads in it. -/
def parsePayloadAt : ℕ → PayloadKind → Parser → Option (PayloadTree × Parser)
  | 0, kind, p =>
    (parseRules kind kind.rules {} p).bind fun r => parseSubs (fun _ _ => none) kind r.1 r.2.1 r.2.2
  | depth + 1, kind, p =>
    (parseRules kind kind.rules {} p).bind fun r =>
      parseSubs (parsePayloadAt depth) kind r.1 r.2.1 r.2.2

/-- `parse_payload`. -/
def parsePayload (kind : PayloadKind) (p : Parser) : Option (PayloadTree × Parser) :=
  parsePayloadAt kind.depth kind p

/-! ## Well-formed payloads -/

/-- A field is one that the parser can have read, given the fields before it. -/
def Field.Fits (kind : PayloadKind) (ctx : ParseContext) : Field → Prop
  | ⟨.uInt4, v⟩ => v < 16
  | ⟨.attributeType, v⟩ => v < 0x8000
  | ⟨.payloadLength, v⟩ => 4 ≤ v.toNat
  | ⟨.spi, c⟩ => c.length = ctx.spiSize
  | ⟨.address, c⟩ => c.length = ctx.addressLength
  | ⟨.chunkData, c⟩ => kind.headerLength ctx.spiSize + c.length = ctx.payloadLength
  | ⟨.attributeValue, c⟩ => c.length = if ctx.attributeFormat then 0 else ctx.attributeLength
  | _ => True

/-- All fields of a payload fit. -/
def FieldsFit (kind : PayloadKind) : ParseContext → List Field → Prop
  | _, [] => True
  | ctx, f :: fs => f.Fits kind ctx ∧ FieldsFit kind (ctx.after f) fs

/-- The variables after all fields. -/
def ParseContext.afterAll (ctx : ParseContext) (fields : List Field) : ParseContext :=
  fields.foldl ParseContext.after ctx

/-- The bits of a field. -/
def Field.bits : Field → List Bool
  | ⟨.uInt4, v⟩ => (ofByte v).drop 4
  | ⟨.uInt8, v⟩ | ⟨.reservedByte, v⟩ | ⟨.spiSize, v⟩ | ⟨.tsType, v⟩ => ofByte v
  | ⟨.uInt16, v⟩ | ⟨.payloadLength, v⟩ | ⟨.attributeLength, v⟩ | ⟨.attributeLengthOrValue, v⟩ =>
    ofBytes (beBytes 2 v.toNat)
  | ⟨.uInt32, v⟩ | ⟨.headerLength, v⟩ => ofBytes (beBytes 4 v.toNat)
  | ⟨.ikeSpi, v⟩ => ofBytes v.1
  | ⟨.attributeType, v⟩ => (ofBytes (beBytes 2 v.toNat)).drop 1
  | ⟨.reservedBit, b⟩ | ⟨.flag, b⟩ | ⟨.attributeFormat, b⟩ => [b]
  | ⟨.spi, c⟩ | ⟨.address, c⟩ | ⟨.chunkData, c⟩ | ⟨.attributeValue, c⟩ => ofBytes c

mutual

/-- The fields of a payload and of the payloads in it, in the order in which they are written. -/
def PayloadTree.allFields : PayloadTree → List Field
  | .node p sub => p.fields ++ PayloadTree.fieldsOf sub

/-- The fields of a list of payloads. -/
def PayloadTree.fieldsOf : List PayloadTree → List Field
  | [] => []
  | p :: ps => PayloadTree.allFields p ++ PayloadTree.fieldsOf ps

end

/-- The bits of a list of fields. -/
def bitsOf (fields : List Field) : List Bool := fields.flatMap Field.bits

mutual

/-- The payload has the fields of its table, the fields fit, and the payloads in it are of the right kind and
fill the length. -/
def PayloadTree.WellFormed : PayloadTree → Prop
  | .node p sub =>
    p.fields.map Field.type = p.kind.rules ∧ FieldsFit p.kind {} p.fields ∧
      (p.kind.sub.isSome = true →
        8 * p.kind.headerLength (ParseContext.afterAll {} p.fields).spiSize +
          (bitsOf (PayloadTree.fieldsOf sub)).length =
            8 * (ParseContext.afterAll {} p.fields).payloadLength) ∧
      PayloadTree.AllWellFormed p.kind.sub sub

/-- All payloads of a list are well-formed and of the given kind. -/
def PayloadTree.AllWellFormed (kind : Option PayloadKind) : List PayloadTree → Prop
  | [] => True
  | p :: ps => kind = some p.kind ∧ PayloadTree.WellFormed p ∧ PayloadTree.AllWellFormed kind ps

end

instance Field.decidableFits (kind : PayloadKind) (ctx : ParseContext) : (f : Field) → Decidable (f.Fits kind ctx)
  | ⟨.uInt4, v⟩ => inferInstanceAs (Decidable (v < 16))
  | ⟨.attributeType, v⟩ => inferInstanceAs (Decidable (v < 0x8000))
  | ⟨.payloadLength, v⟩ => inferInstanceAs (Decidable (4 ≤ v.toNat))
  | ⟨.spi, c⟩ => inferInstanceAs (Decidable (c.length = ctx.spiSize))
  | ⟨.address, c⟩ => inferInstanceAs (Decidable (c.length = ctx.addressLength))
  | ⟨.chunkData, c⟩ => inferInstanceAs (Decidable (kind.headerLength ctx.spiSize + c.length = ctx.payloadLength))
  | ⟨.attributeValue, c⟩ =>
    inferInstanceAs (Decidable (c.length = if ctx.attributeFormat then 0 else ctx.attributeLength))
  | ⟨.uInt8, _⟩ | ⟨.uInt16, _⟩ | ⟨.uInt32, _⟩ | ⟨.reservedBit, _⟩ | ⟨.reservedByte, _⟩ | ⟨.flag, _⟩
  | ⟨.headerLength, _⟩ | ⟨.spiSize, _⟩ | ⟨.attributeFormat, _⟩ | ⟨.attributeLengthOrValue, _⟩
  | ⟨.attributeLength, _⟩ | ⟨.tsType, _⟩ | ⟨.ikeSpi, _⟩ => inferInstanceAs (Decidable True)

instance decidableFieldsFit (kind : PayloadKind) :
    (ctx : ParseContext) → (fields : List Field) → Decidable (FieldsFit kind ctx fields)
  | _, [] => inferInstanceAs (Decidable True)
  | ctx, f :: fields =>
    @instDecidableAnd (f.Fits kind ctx) _ _ (decidableFieldsFit kind (ctx.after f) fields)

mutual

def PayloadTree.decideWellFormed : (p : PayloadTree) → Decidable (PayloadTree.WellFormed p)
  | .node p sub =>
    @instDecidableAnd _ _ _ (@instDecidableAnd _ _ _ (@instDecidableAnd _ _ _
      (PayloadTree.decideAllWellFormed p.kind.sub sub)))

def PayloadTree.decideAllWellFormed (kind : Option PayloadKind) :
    (ps : List PayloadTree) → Decidable (PayloadTree.AllWellFormed kind ps)
  | [] => inferInstanceAs (Decidable True)
  | p :: ps =>
    @instDecidableAnd _ _ _ (@instDecidableAnd _ _ (PayloadTree.decideWellFormed p)
      (PayloadTree.decideAllWellFormed kind ps))

end

instance PayloadTree.decidableWellFormed (p : PayloadTree) : Decidable p.WellFormed := p.decideWellFormed

/-! ## Alignment -/

/-- The field has whole bytes. -/
def EncodingType.isBytes : EncodingType → Bool
  | uInt4 | flag | reservedBit | attributeFormat | attributeType => false
  | _ => true

/-- Where in a byte a field begins: at its beginning, behind its first half, or behind some flags. -/
inductive Align where
  | byte
  | nibble
  | flags (n : ℕ)
  deriving DecidableEq, Repr

/-- The number of bits of the byte that are used. -/
def Align.bit : Align → ℕ
  | byte => 0
  | nibble => 4
  | flags n => n

/-- Where the field behind one of the given type begins, if that one can be written and read here. -/
def Align.next : Align → EncodingType → Option Align
  | byte, .uInt4 => some nibble
  | nibble, .uInt4 => some byte
  | byte, .flag | byte, .reservedBit | byte, .attributeFormat => some (flags 1)
  | flags n, .flag | flags n, .reservedBit | flags n, .attributeFormat =>
    if n + 1 < 8 then some (flags (n + 1)) else some byte
  | flags n, .attributeType => if n = 1 then some byte else none
  | byte, .attributeType => none
  | byte, _ => some byte
  | _, _ => none

/-- Where the field behind a list of fields begins. -/
def Align.run (a : Align) (types : List EncodingType) : Option Align := types.foldlM Align.next a

/-! ## Values that are written -/

/-- The generator writes the field, given the format of the last attribute. -/
def Field.Written (format : Bool) : Field → Prop
  | ⟨.attributeValue, c⟩ => format = true → c = []
  | _ => True

/-- The format of the last attribute after a field. -/
def Field.formatAfter (format : Bool) : Field → Bool
  | ⟨.attributeFormat, b⟩ => b
  | _ => format

/-- The generator writes all fields. -/
def ValuesWritten : Bool → List Field → Prop
  | _, [] => True
  | format, f :: fs => f.Written format ∧ ValuesWritten (f.formatAfter format) fs

end Epdg

import VoWiFi.Epdg.Update
import VoWiFi.Lib.Fill
import VoWiFi.Lib.Steps

/-!
# Changing an EAP-AKA message

`process_extensible_authentication` looks for an attribute in the bytes of an EAP-AKA message and fills
its value, or means to remove it. It has a structure of its own for the header and cuts the rest into
attributes by itself; `parse_attributes` of libsimaka is the parser that reads the message at the other
end.
-/

namespace Epdg

/-! ## The walk over the attributes -/

/-- The attributes a query can name. -/
inductive AkaAttribute where
  | atRand
  | atAutn
  | atMac
  | atCheckcode
  deriving DecidableEq, Repr

/-- The attributes in the order in which they are handled. -/
def AkaAttribute.all : List AkaAttribute := [atRand, atAutn, atMac, atCheckcode]

/-- `AKA_TYPE_AT_RAND` and the other types. -/
def AkaAttribute.type : AkaAttribute → UInt8
  | atRand => 1
  | atAutn => 2
  | atMac => 11
  | atCheckcode => 134

def AkaAttribute.name : AkaAttribute → Text
  | atRand => "at_rand".toList
  | atAutn => "at_autn".toList
  | atMac => "at_mac".toList
  | atCheckcode => "at_checkcode".toList

/-- The size of `ehdr_t`: code, identifier, two bytes of length, subtype and two reserved bytes. -/
def ehdrLength : ℕ := 7

/-- The number of bytes behind the type and the length of an attribute, in eight bits. -/
def abytes (alen : UInt8) : UInt8 := 4 * alen - 2

/-- The loop that looks for an attribute, at position `p` with `skip` bytes still to be passed over: the
position behind the type and the length, and the length. A type in the last byte has its length behind
the end. -/
def seek (type : UInt8) : ℕ → ℕ → Chunk → Except Stop (Option (ℕ × UInt8))
  | _, _, [] => .ok none
  | p, skip + 1, _ :: bytes => seek type (p + 1) skip bytes
  | _, 0, [_] => .error .outOfBounds
  | p, 0, t :: alen :: bytes =>
    if t = type then .ok (some (p + 2, alen)) else seek type (p + 2) (abytes alen).toNat bytes

/-- The attribute that the loop ends with, if there are bytes left behind its length. -/
def findAttribute (type : UInt8) (data : Chunk) : Except Stop (Option (ℕ × UInt8)) :=
  (seek type ehdrLength 0 (data.drop ehdrLength)).map fun found =>
    found.filter fun f => f.1 < data.length

/-! ## Changes -/

/-- A statement of `process_extensible_authentication`, on the data of the payload. -/
abbrev EapStep := Chunk → Chunk × Option Stop

/-- Write one value into the bytes of an attribute but the first two. -/
def fillAttribute (p : ℕ) (alen : UInt8) (b : UInt8) : EapStep := fun data =>
  if (abytes alen).toNat ≤ 2 ∨ p + (abytes alen).toNat ≤ data.length then
    (data.fill (p + 2) (p + (abytes alen).toNat) b, none)
  else (data, some .outOfBounds)

/-- An update with a text. Any other text than the three words is meant as a sequence of digits, but
`char_to_int` is called with a character of it in place of a pointer. -/
def updateAttribute (value : Text) (p : ℕ) (alen : UInt8) : EapStep := fun data =>
  if "min".toList <+: value then fillAttribute p alen 0x00 data
  else if "max".toList <+: value then fillAttribute p alen 0xff data
  else if "median".toList <+: value then fillAttribute p alen 0x88 data
  else if value = [] ∨ (abytes alen).toNat ≤ 2 then fillAttribute p alen 0x00 data
  else (data, some .wildPointer)

/-- A drop, which writes a new length in eight bits into the header; the length of the chunk is changed
in a copy. -/
def dropAttribute (alen : UInt8) (data : Chunk) : Chunk :=
  (data.set 2 0).set 3 (UInt8.ofNat data.length - 4 * alen)

def eapName : Text := "extensible_authentication".toList

/-- The path to the node of an attribute. -/
def AkaAttribute.path (a : AkaAttribute) : List Text :=
  [eapName, "eap_aka_attribute".toList, a.name]

/-- The part of the loop for an attribute. -/
def processAttribute (query : Option Query) (r : Round) (a : AkaAttribute) : EapStep := fun data =>
  match askedQuery query r a.path with
  | none => (data, none)
  | some q =>
    match findAttribute a.type data with
    | .error stop => (data, some stop)
    | .ok none => (data, none)
    | .ok (some (p, alen)) =>
      match q.label.string? with
      | some value => updateAttribute value p alen data
      | none => if q.label.op = .drop then (dropAttribute alen data, none) else (data, none)

/-- The part of the loop for the code, the identifier or the type. The functions that are to set them are
left out of the constructor of the payload, so that a null pointer is called. -/
def processEapField (query : Option Query) (r : Round) (name : Text) : EapStep := fun data =>
  match (askedQuery query r [eapName, name]).bind (·.label.number? .w8 .decimal) with
  | none => (data, none)
  | some _ => (data, some .nullPointer)

def eapFields : List Text := ["code".toList, "id".toList, "type".toList]

/-- The responses with an EAP payload that is changed. -/
def eapRounds : List Round := [.auth 0, .auth 1]

/-- One pass of the loop over the responses. -/
def processEapFor (query : Option Query) (r : Round) : EapStep :=
  Steps.run (eapFields.map (processEapField query r) ++ AkaAttribute.all.map (processAttribute query r))

/-- `process_extensible_authentication`. -/
def processExtensibleAuthentication (query : Option Query) : EapStep :=
  Steps.run (eapRounds.map (processEapFor query))

/-! ## Messages -/

/-- An attribute with a length in words of four bytes. -/
structure Attribute where
  type : UInt8
  words : UInt8
  body : Chunk
  words_pos : 0 < words.toNat
  body_length : body.length = 4 * words.toNat - 2

def Attribute.bytes (a : Attribute) : Chunk := a.type :: a.words :: a.body

/-- The attribute with all bytes of its value set to `b`. -/
def Attribute.filled (a : Attribute) (b : UInt8) : Attribute where
  type := a.type
  words := a.words
  body := a.body.take 2 ++ List.replicate (a.body.length - 2) b
  words_pos := a.words_pos
  body_length := by
    have hpos := a.words_pos
    have hlen := a.body_length
    rw [List.length_append, List.length_take, List.length_replicate]
    omega

/-- An EAP-AKA message with a header of eight bytes. -/
structure AkaMessage where
  header : Chunk
  attributes : List Attribute
  header_length : header.length = 8

def AkaMessage.bytes (m : AkaMessage) : Chunk := m.header ++ m.attributes.flatMap Attribute.bytes

/-- Fill the first attribute of a type. -/
def fillFirst (type b : UInt8) : List Attribute → List Attribute
  | [] => []
  | a :: as => if a.type = type then a.filled b :: as else a :: fillFirst type b as

def AkaMessage.fillFirst (m : AkaMessage) (type b : UInt8) : AkaMessage :=
  { m with attributes := Epdg.fillFirst type b m.attributes }

def AkaMessage.Has (m : AkaMessage) (type : UInt8) : Prop := ∃ a ∈ m.attributes, a.type = type

/-- Where the value of the first attribute of a type begins and ends, if the attributes begin at
position `p`. -/
def valueRegion (type : UInt8) : ℕ → List Attribute → ℕ × ℕ
  | _, [] => (0, 0)
  | p, a :: as =>
    if a.type = type then (p + 4, p + 4 * a.words.toNat)
    else valueRegion type (p + 4 * a.words.toNat) as

/-! ## The parser -/

/-- An attribute at the beginning of the bytes of a message that is not encrypted: its type, its data, and
the number of bytes passed over. A length of zero would keep `parse_attributes` where it is. -/
def parseAttribute : Chunk → Option ((UInt8 × Chunk) × ℕ)
  | type :: length :: bytes =>
    let words := length.toNat
    let avail := bytes.length + 2
    -- attributes of the encrypted part, and those without data
    if type ∈ ([19, 20, 21, 132, 133] : List UInt8) then none
    else if type ∈ ([10, 13, 17] : List UInt8) then
      if words ≠ 1 ∨ avail < 4 then none else some ((type, []), 4)
    -- two bytes of data
    else if type ∈ ([12, 16, 22] : List UInt8) then
      if words ≠ 1 ∨ avail < 4 then none else some ((type, bytes.take 2), 4)
    -- a length in bits for `AT_RES` and in bytes for the others, then the data
    else if type ∈ ([3, 14, 15] : List UInt8) then
      if words = 0 ∨ avail < 4 then none
      else
        let len := (bytes.getD 0 0).toNat * 256 + (bytes.getD 1 0).toNat
        let len := if type = 3 then len / 8 else len
        if words * 4 < len ∨ avail < len then none
        else some ((type, (bytes.drop 2).take len), words * 4)
    -- two reserved bytes and sixteen bytes of data
    else if type ∈ ([2, 7, 11, 129] : List UInt8) then
      if words ≠ 5 ∨ avail < 20 then none else some ((type, (bytes.drop 2).take 16), 20)
    else if type = 4 then
      if words ≠ 4 ∨ avail < 16 then none else some ((type, bytes.take 14), 16)
    else if words = 0 ∨ avail < words * 4 ∨ avail < 4 then none
    else if type ∈ ([1, 130] : List UInt8) then
      some ((type, (bytes.drop 2).take (words * 4 - 4)), words * 4)
    else some ((type, bytes.take (words * 4 - 2)), words * 4)
  | _ => none

/-- `parse_attributes` for a message that is not encrypted, given whether the last notification had its
P bit set: the types and data in the order of the message. -/
def parseAttributes : ℕ → Bool → Chunk → Option (List (UInt8 × Chunk))
  | _, _, [] => some []
  | 0, _, _ => none
  | fuel + 1, pBit, bytes => do
    let (a, n) ← parseAttribute bytes
    if a.1 = 12 ∧ pBit = false then none
    else
      let rest ← parseAttributes fuel
        (if a.1 = 12 then a.2.getD 0 0 &&& 0x40 != 0 else pBit) (bytes.drop n)
      return a :: rest

/-- The attributes of a message, behind the eight bytes of the header. -/
def parseAkaMessage (data : Chunk) : Option (List (UInt8 × Chunk)) :=
  parseAttributes data.length true (data.drop 8)

/-- `verify` of an EAP payload. -/
def verifyEap (data : Chunk) : Bool :=
  4 ≤ data.length && (data.getD 2 0).toNat * 256 + (data.getD 3 0).toNat = data.length &&
    (data.getD 0 0 = 1 || data.getD 0 0 = 2 || (data.getD 0 0 = 3 || data.getD 0 0 = 4) && data.length = 4)

/-! ## Queries for one attribute -/

/-- What the query asks for in the EAP payload of a response is a change of one attribute. -/
structure AsksAttribute (q : Query) (r : Round) (a : AkaAttribute) (n : QNode) : Prop where
  round : r ∈ eapRounds
  name : isQueryName q.label (some r.responseText) = true
  node : (askedQuery (some q) r a.path).map RoseTree.label = some n
  fields : ∀ name ∈ eapFields, askedQuery (some q) r [eapName, name] = none
  others : ∀ b, b ≠ a → askedQuery (some q) r b.path = none

/-- The three words for a value. -/
inductive FillWord where
  | min
  | max
  | median
  deriving DecidableEq, Repr

def FillWord.text : FillWord → Text
  | min => "min".toList
  | max => "max".toList
  | median => "median".toList

def FillWord.byte : FillWord → UInt8
  | min => 0x00
  | max => 0xff
  | median => 0x88

/-- The bytes that are taken for the value of an attribute that the walk has found. -/
def walkedRegion : Option (ℕ × UInt8) → ℕ × ℕ
  | none => (0, 0)
  | some (p, alen) => (p + 2, p + (abytes alen).toNat)

/-- Cut into attributes from the seventh byte of the message on and with sizes in eight bits, the message
has a value for the type that is within its bounds, and every byte that is only in this value or only in
the value of the first attribute of the type is `b` already. -/
def AkaMessage.Agrees (m : AkaMessage) (type b : UInt8) : Prop :=
  ∃ found, findAttribute type m.bytes = .ok found ∧
    ((walkedRegion found).1 < (walkedRegion found).2 → (walkedRegion found).2 ≤ m.bytes.length) ∧
    ∀ i x, m.bytes[i]? = some x →
      ((walkedRegion found).1 ≤ i ∧ i < (walkedRegion found).2 ↔
        ¬ ((valueRegion type 8 m.attributes).1 ≤ i ∧ i < (valueRegion type 8 m.attributes).2)) →
      x = b

/-- A drop of an attribute takes the first one of its type out of the message, and keeps the message one
that is accepted. -/
def AkaMessage.Removes (m : AkaMessage) (type : UInt8) (query : Option Query) : Prop :=
  ∃ data l, processExtensibleAuthentication query m.bytes = (data, none) ∧
    parseAkaMessage m.bytes = some l ∧ parseAkaMessage data = some (l.eraseP (·.1 = type)) ∧
    (data.getD 2 0).toNat * 256 + (data.getD 3 0).toNat = data.length ∧ verifyEap data = true

end Epdg

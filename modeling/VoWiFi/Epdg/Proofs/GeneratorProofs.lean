import VoWiFi.Epdg.Encoding

/-!
# What the generator writes

A generator has written a string of bits. Every field appends its bits to it, so that a payload appends the
bits of all its fields.
-/

namespace Epdg

open BitString

theorem aligned_rules (kind : PayloadKind) : Align.byte.run kind.rules = some .byte := by
  cases kind <;> rfl

/-! ## The generator -/

/-- The bits that a generator has written. -/
def Generator.written (g : Generator) : List Bool := ofBytes g.out ++ (ofByte g.cur).take g.bit

/-- The generator is at a place in a byte. Behind flags, the rest of the byte is zero. -/
structure Generator.At (g : Generator) (a : Align) : Prop where
  bit : g.bit = a.bit
  lt : a.bit < 8
  zero : ∀ n, a = .flags n → 0 < n ∧ ∀ j, n ≤ j → g.cur.toBitVec.getMsbD j = false

section

variable {memory : ℕ → UInt8} {g : Generator} {a a' : Align}

theorem Generator.at_byte (hbit : g.bit = 0) : g.At .byte :=
  ⟨hbit, Nat.zero_lt_succ 7, fun _ h => by cases h⟩

theorem Generator.written_byte (hbit : g.bit = 0) : g.written = ofBytes g.out := by
  rw [written, hbit, List.take_zero, List.append_nil]

/-- Whole bytes are appended at the beginning of a byte. -/
theorem Generator.writeBytes_spec (hbit : g.bit = 0) (bytes : Chunk) :
    (g.writeBytes memory bytes).At .byte ∧
      (g.writeBytes memory bytes).written = g.written ++ ofBytes bytes := by
  refine ⟨at_byte hbit, ?_⟩
  rw [written_byte hbit, written_byte (g := g.writeBytes memory bytes) hbit, writeBytes, ofBytes_append]

theorem Generator.generateUInt_spec (h : g.At .byte) (bytes : Chunk) :
    (g.generateUInt memory bytes).At .byte ∧
      (g.generateUInt memory bytes).written = g.written ++ ofBytes bytes := by
  have hbit : g.bit = 0 := h.bit
  rw [generateUInt, if_neg (not_not.2 hbit)]
  exact writeBytes_spec hbit bytes

theorem Generator.generateFromChunk_spec (h : g.At .byte) (c : Chunk) :
    (g.generateFromChunk memory c).At .byte ∧
      (g.generateFromChunk memory c).written = g.written ++ ofBytes c := by
  have hbit : g.bit = 0 := h.bit
  rw [generateFromChunk, if_neg (not_not.2 hbit)]
  exact writeBytes_spec hbit c

theorem take_high_nibble (v c : UInt8) :
    (ofByte ((v <<< 4) ||| (c &&& 0x0F))).take 4 = (ofByte v).drop 4 := by
  simp [ofByte, List.range, List.range.loop]

theorem low_nibble (v c : UInt8) :
    ofByte ((c &&& 0xF0) ||| (v &&& 0x0F)) = (ofByte c).take 4 ++ (ofByte v).drop 4 := by
  simp [ofByte, List.range, List.range.loop]

theorem Generator.generateUInt4_spec (h : g.At a) (hnext : a.next .uInt4 = some a') (v : UInt8) :
    (g.generateUInt4 memory v).At a' ∧
      (g.generateUInt4 memory v).written = g.written ++ (ofByte v).drop 4 := by
  cases a with
  | byte =>
    cases hnext
    have hbit : g.bit = 0 := h.bit
    rw [generateUInt4, if_pos hbit]
    refine ⟨⟨rfl, by decide, fun _ h => by cases h⟩, ?_⟩
    rw [written_byte hbit, written]
    exact congrArg (ofBytes g.out ++ ·) (take_high_nibble v g.cur)
  | nibble =>
    cases hnext
    have hbit : g.bit = 4 := h.bit
    rw [generateUInt4, if_neg (by omega), if_pos hbit]
    refine ⟨at_byte rfl, ?_⟩
    rw [written_byte rfl, written, hbit, List.append_assoc, ← low_nibble]
    exact (ofBytes_append _ _).trans (congrArg _ (List.append_nil _))
  | flags n => cases hnext

/-- The byte that a flag is written into agrees with the old one in front of the flag and is zero from it
on. -/
theorem Generator.flag_byte (h : g.At a) (hnext : a.next .flag = some a') :
    (∀ j < g.bit, (if g.bit = 0 then 0 else g.cur).toBitVec.getMsbD j = g.cur.toBitVec.getMsbD j) ∧
      ∀ j, g.bit ≤ j → (if g.bit = 0 then 0 else g.cur).toBitVec.getMsbD j = false := by
  cases a with
  | byte =>
    have hbit : g.bit = 0 := h.bit
    refine ⟨fun j hj => absurd hj (by omega), fun j _ => ?_⟩
    rw [if_pos hbit, UInt8.toBitVec_zero, BitVec.getMsbD_zero]
  | nibble => cases hnext
  | flags n =>
    obtain ⟨hpos, hzero⟩ := h.zero n rfl
    have hbit : g.bit = n := h.bit
    have hne : g.bit ≠ 0 := by omega
    rw [if_neg hne]
    exact ⟨fun _ _ => rfl, fun j hj => hzero j (hbit ▸ hj)⟩

/-- Where a flag can be written, the next place is one bit further. -/
theorem Align.next_flag_eq (hlt : a.bit < 8) (hpos : ∀ n, a = .flags n → 0 < n)
    (hnext : a.next .flag = some a') : a' = if a.bit + 1 < 8 then .flags (a.bit + 1) else .byte := by
  cases a with
  | byte =>
    cases hnext
    rfl
  | nibble => cases hnext
  | flags n =>
    simp only [next] at hnext
    split at hnext
    · next hn =>
      cases hnext
      exact (if_pos hn).symm
    · next hn =>
      cases hnext
      exact (if_neg hn).symm

theorem Generator.generateFlag_spec (h : g.At a) (hnext : a.next .flag = some a') (b : Bool) :
    (g.generateFlag memory b).At a' ∧ (g.generateFlag memory b).written = g.written ++ [b] := by
  obtain ⟨hfront, hrest⟩ := flag_byte h hnext
  have hlt : g.bit < 8 := h.bit ▸ h.lt
  have ha' := Align.next_flag_eq h.lt (fun n hn => (h.zero n hn).1) hnext
  rw [← h.bit] at ha'
  unfold generateFlag
  generalize (if g.bit = 0 then 0 else g.cur) = c at hfront hrest ⊢
  have hbits : ∀ j, (c ||| if b = true then mask g.bit else 0).toBitVec.getMsbD j =
      (c.toBitVec.getMsbD j || (b && decide (g.bit = j))) := by
    intro j
    rw [UInt8.toBitVec_or, BitVec.getMsbD_or]
    cases b with
    | false => rw [if_neg Bool.false_ne_true, UInt8.toBitVec_zero, BitVec.getMsbD_zero, Bool.false_and]
    | true => rw [if_pos rfl, getMsbD_mask hlt, Bool.true_and]
  generalize (c ||| if b = true then mask g.bit else 0) = d at hbits ⊢
  have htake : (ofByte d).take (g.bit + 1) = (ofByte g.cur).take g.bit ++ [b] := by
    rw [take_succ_ofByte d hlt, hbits g.bit, hrest g.bit (le_refl _), decide_eq_true rfl, Bool.and_true,
      Bool.false_or]
    refine congrArg (· ++ [b]) (take_ofByte_congr (le_of_lt hlt) fun i hi => ?_)
    rw [hbits i, hfront i hi, decide_eq_false (Nat.ne_of_gt hi), Bool.and_false, Bool.or_false]
  by_cases hmore : g.bit + 1 < 8
  · rw [if_pos hmore] at ha' ⊢
    subst ha'
    refine ⟨⟨rfl, hmore, fun n hn => ?_⟩, ?_⟩
    · cases hn
      refine ⟨Nat.succ_pos _, fun j hj => ?_⟩
      show d.toBitVec.getMsbD j = false
      rw [hbits j, hrest j (by omega), decide_eq_false (by omega), Bool.and_false, Bool.or_false]
    · rw [written, written, List.append_assoc, ← htake]
  · rw [if_neg hmore] at ha' ⊢
    subst ha'
    have hseven : g.bit = 7 := by omega
    rw [hseven]
    refine ⟨at_byte rfl, ?_⟩
    rw [written_byte rfl, written, List.append_assoc, ← htake, hseven]
    refine (ofBytes_append _ _).trans (congrArg _ ?_)
    rw [List.take_of_length_le (by rw [length_ofByte])]
    exact List.append_nil _

/-- The bits of a number of 16 bits without the first one. -/
theorem drop_ofBytes_iff {a b : ℕ} :
    (ofBytes (beBytes 2 a)).drop 1 = (ofBytes (beBytes 2 b)).drop 1 ↔
      ∀ i < 15, a.testBit i = b.testBit i := by
  rw [ofBytes_beBytes, ofBytes_beBytes, show 8 * 2 = 15 + 1 from rfl, List.range_succ_eq_map,
    List.map_cons, List.map_cons, List.drop_one, List.drop_one, List.tail_cons, List.tail_cons,
    List.map_map, List.map_map, List.map_inj_left]
  constructor
  · intro h i hi
    have hget := h (14 - i) (List.mem_range.2 (by omega))
    simp only [Function.comp_apply] at hget
    rwa [show 15 + 1 - 1 - (14 - i).succ = i by omega] at hget
  · intro h i _
    exact h _ (by omega)

theorem testBit_and_low (v : UInt16) {i : ℕ} (hi : i < 15) :
    (v &&& 0x7FFF).toNat.testBit i = v.toNat.testBit i := by
  rw [UInt16.toNat_and, Nat.testBit_and, show (0x7FFF : UInt16).toNat = 2 ^ 15 - 1 from rfl,
    Nat.testBit_two_pow_sub_one, decide_eq_true hi, Bool.and_true]

theorem drop_ofBytes_and (v : UInt16) :
    (ofBytes (beBytes 2 (v &&& 0x7FFF).toNat)).drop 1 = (ofBytes (beBytes 2 v.toNat)).drop 1 :=
  drop_ofBytes_iff.2 fun _ hi => testBit_and_low v hi

/-- The flag in front of an attribute type is kept. -/
theorem ofBytes_attributeType (v : UInt16) (c : UInt8) :
    ofBytes (beBytes 2 ((v &&& 0x7FFF) ||| (if c &&& 0x80 ≠ 0 then 0x8000 else 0)).toNat) =
      (ofByte c).take 1 ++ (ofBytes (beBytes 2 v.toNat)).drop 1 := by
  have hflag : (c &&& 0x80 ≠ 0) ↔ c.toBitVec.getMsbD 0 = true :=
    and_mask_ne_zero c (i := 0) (by decide)
  have hor : ((v &&& 0x7FFF) ||| (if c &&& 0x80 ≠ 0 then 0x8000 else 0)).toNat =
      (v &&& 0x7FFF).toNat ||| (2 ^ 15 * (c.toBitVec.getMsbD 0).toNat) := by
    rw [UInt16.toNat_or]
    by_cases h : c.toBitVec.getMsbD 0 = true
    · rw [if_pos (hflag.2 h), h]
      rfl
    · rw [if_neg fun hn => h (hflag.1 hn), Bool.eq_false_iff.2 h]
      rfl
  have hdrop : (ofBytes (beBytes 2 ((v &&& 0x7FFF).toNat |||
      (2 ^ 15 * (c.toBitVec.getMsbD 0).toNat)))).drop 1 = (ofBytes (beBytes 2 v.toNat)).drop 1 := by
    refine drop_ofBytes_iff.2 fun i hi => ?_
    rw [Nat.testBit_or, testBit_and_low v hi, Nat.testBit_two_pow_mul, decide_eq_false (by omega),
      Bool.false_and, Bool.or_false]
  have htake : (ofBytes (beBytes 2 ((v &&& 0x7FFF).toNat |||
      (2 ^ 15 * (c.toBitVec.getMsbD 0).toNat)))).take 1 = (ofByte c).take 1 := by
    rw [ofBytes_beBytes, show 8 * 2 = 15 + 1 from rfl, List.range_succ_eq_map, List.map_cons]
    have hlow : (v &&& 0x7FFF).toNat.testBit 15 = false := by
      rw [UInt16.toNat_and, Nat.testBit_and, show (0x7FFF : UInt16).toNat = 2 ^ 15 - 1 from rfl,
        Nat.testBit_two_pow_sub_one, decide_eq_false (by omega), Bool.and_false]
    have hhigh : (2 ^ 15 * (c.toBitVec.getMsbD 0).toNat).testBit 15 = c.toBitVec.getMsbD 0 := by
      cases c.toBitVec.getMsbD 0 <;> rfl
    show [Nat.testBit _ 15] = [c.toBitVec.getMsbD 0]
    rw [Nat.testBit_or, hlow, hhigh, Bool.false_or]
  rw [hor, ← hdrop, ← htake, List.take_append_drop]

theorem Generator.generateAttributeType_spec (h : g.At a) (hnext : a.next .attributeType = some a')
    (v : UInt16) :
    (g.generateAttributeType memory v).At a' ∧
      (g.generateAttributeType memory v).written =
        g.written ++ (ofBytes (beBytes 2 v.toNat)).drop 1 := by
  cases a with
  | byte => cases hnext
  | nibble => cases hnext
  | flags n =>
    simp only [Align.next] at hnext
    split at hnext
    · next hn =>
      cases hnext
      have hbit : g.bit = 1 := h.bit.trans hn
      rw [generateAttributeType, if_neg (not_not.2 hbit)]
      refine ⟨at_byte rfl, ?_⟩
      rw [written_byte rfl, written, hbit, List.append_assoc, ← ofBytes_attributeType]
      exact ofBytes_append _ _
    · cases hnext

/-! The format of the last attribute is set by its own field only. -/

@[simp] theorem Generator.attributeFormat_generateUInt (bytes : Chunk) :
    (g.generateUInt memory bytes).attributeFormat = g.attributeFormat := by
  unfold generateUInt
  split <;> rfl

@[simp] theorem Generator.attributeFormat_generateFromChunk (c : Chunk) :
    (g.generateFromChunk memory c).attributeFormat = g.attributeFormat := by
  unfold generateFromChunk
  split <;> rfl

@[simp] theorem Generator.attributeFormat_generateUInt4 (v : UInt8) :
    (g.generateUInt4 memory v).attributeFormat = g.attributeFormat := by
  unfold generateUInt4
  split
  · rfl
  · split <;> rfl

@[simp] theorem Generator.attributeFormat_generateFlag (b : Bool) :
    (g.generateFlag memory b).attributeFormat = g.attributeFormat := by
  unfold generateFlag
  dsimp only
  split <;> rfl

@[simp] theorem Generator.attributeFormat_generateAttributeType (v : UInt16) :
    (g.generateAttributeType memory v).attributeFormat = g.attributeFormat := by
  unfold generateAttributeType
  split <;> rfl

theorem Generator.attributeFormat_generateField (f : Field) :
    (g.generateField memory f).attributeFormat = f.formatAfter g.attributeFormat := by
  obtain ⟨t, v⟩ := f
  cases t <;> simp only [generateField, Field.formatAfter, attributeFormat_generateUInt,
    attributeFormat_generateFromChunk, attributeFormat_generateUInt4, attributeFormat_generateFlag,
    attributeFormat_generateAttributeType]
  split
  · rfl
  · exact attributeFormat_generateFromChunk v

/-- A field of whole bytes begins a byte and ends one. -/
theorem Align.next_of_bytes {t : EncodingType} (hnext : a.next t = some a')
    (ht : t.isBytes = true) : a = .byte ∧ a' = .byte := by
  cases a with
  | byte =>
    refine ⟨rfl, ?_⟩
    cases t <;> first | exact (Option.some.inj hnext).symm | cases ht
  | nibble => cases t <;> first | (cases hnext; done) | cases ht
  | flags n => cases t <;> first | cases hnext | cases ht

theorem Generator.generateField_spec (f : Field) (h : g.At a) (hnext : a.next f.type = some a')
    (hw : f.Written g.attributeFormat) :
    (g.generateField memory f).At a' ∧ (g.generateField memory f).written = g.written ++ f.bits := by
  obtain ⟨t, v⟩ := f
  cases t with
  | uInt4 => exact generateUInt4_spec h hnext v
  | attributeType => exact generateAttributeType_spec h hnext v
  | flag => exact generateFlag_spec h hnext v
  | reservedBit => exact generateFlag_spec h ((by cases a <;> rfl : a.next .flag = _).trans hnext) v
  | attributeFormat =>
    obtain ⟨hat, hwritten⟩ :=
      @generateFlag_spec memory g a a' h ((by cases a <;> rfl : a.next .flag = _).trans hnext) v
    exact ⟨⟨hat.bit, hat.lt, hat.zero⟩, hwritten⟩
  | attributeValue =>
    obtain ⟨rfl, rfl⟩ := Align.next_of_bytes hnext rfl
    simp only [generateField, Field.bits]
    split
    · next hformat =>
      rw [hw hformat, ofBytes_nil, List.append_nil]
      exact ⟨h, rfl⟩
    · exact generateFromChunk_spec h v
  | spi | address | chunkData =>
    obtain ⟨rfl, rfl⟩ := Align.next_of_bytes hnext rfl
    exact generateFromChunk_spec h v
  | uInt8 | reservedByte | spiSize | tsType =>
    obtain ⟨rfl, rfl⟩ := Align.next_of_bytes hnext rfl
    obtain ⟨hat, hwritten⟩ := @generateUInt_spec memory g h [v]
    exact ⟨hat, hwritten.trans (congrArg _ (List.append_nil _))⟩
  | uInt16 | payloadLength | attributeLength | attributeLengthOrValue | uInt32 | headerLength =>
    obtain ⟨rfl, rfl⟩ := Align.next_of_bytes hnext rfl
    exact generateUInt_spec h _
  | ikeSpi =>
    obtain ⟨rfl, rfl⟩ := Align.next_of_bytes hnext rfl
    exact generateUInt_spec h _

/-! ## Lists of fields -/

theorem Align.run_cons (t : EncodingType) (types : List EncodingType) :
    a.run (t :: types) = (a.next t).bind fun b => b.run types := rfl

theorem Align.run_append (types types' : List EncodingType) :
    a.run (types ++ types') = (a.run types).bind fun b => b.run types' := List.foldlM_append

theorem Generator.generateFields_spec (fields : List Field) (h : g.At a)
    (hrun : a.run (fields.map Field.type) = some a') (hw : ValuesWritten g.attributeFormat fields) :
    (fields.foldl (generateField memory) g).At a' ∧
      (fields.foldl (generateField memory) g).written = g.written ++ bitsOf fields := by
  induction fields generalizing g a with
  | nil =>
    cases hrun
    exact ⟨h, (List.append_nil _).symm⟩
  | cons f fields ih =>
    rw [List.map_cons, Align.run_cons, Option.bind_eq_some_iff] at hrun
    obtain ⟨b, hnext, hrun⟩ := hrun
    obtain ⟨hat, hwritten⟩ := generateField_spec f h hnext hw.1
    have hrest : ValuesWritten (g.generateField memory f).attributeFormat fields := by
      rw [attributeFormat_generateField]
      exact hw.2
    obtain ⟨hat', hwritten'⟩ := ih hat hrun hrest
    refine ⟨hat', hwritten'.trans ?_⟩
    rw [hwritten, List.append_assoc]
    rfl

/-- Writing a list of payloads is writing all their fields. -/
theorem generateList_eq (ps : List PayloadTree)
    (h : ∀ p ∈ ps, ∀ g, generatePayload memory p g = p.allFields.foldl (Generator.generateField memory) g)
    (g : Generator) :
    generateList memory ps g = (PayloadTree.fieldsOf ps).foldl (Generator.generateField memory) g := by
  induction ps generalizing g with
  | nil => rfl
  | cons p ps ih =>
    rw [generateList, h p List.mem_cons_self, ih fun q hq => h q (List.mem_cons_of_mem p hq),
      PayloadTree.fieldsOf, List.foldl_append]

theorem generatePayload_eq (p : PayloadTree) (g : Generator) :
    generatePayload memory p g = p.allFields.foldl (Generator.generateField memory) g := by
  induction p using RoseTree.induction generalizing g with
  | h p sub ih =>
    rw [generatePayload, generateList_eq sub ih, PayloadTree.allFields, List.foldl_append]

end

end Epdg

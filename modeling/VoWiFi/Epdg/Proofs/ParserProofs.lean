import VoWiFi.Epdg.Proofs.GeneratorProofs

/-!
# What the parser reads

A parser has a string of bits before it. Reading a field takes its bits away, and the value that is read is
the one with these bits.
-/

namespace Epdg

open BitString

/-- The bits that a parser has before it. -/
def Parser.left (p : Parser) : List Bool := (ofBytes p.bytes).drop p.bit

section

variable {p p' : Parser} {n : ℕ} {c : Chunk}

theorem Parser.left_byte (hbit : p.bit = 0) : p.left = ofBytes p.bytes := by
  rw [left, hbit, List.drop_zero]

theorem Parser.parseChunk_iff (hbit : p.bit = 0) :
    p.parseChunk n = some (c, p') ↔ c.length = n ∧ p.bytes = c ++ p'.bytes ∧ p'.bit = 0 := by
  unfold parseChunk
  by_cases hshort : p.bytes.length < n
  · rw [if_pos hshort]
    refine ⟨fun h => (by cases h), fun ⟨hlen, hbytes, _⟩ => ?_⟩
    rw [hbytes, List.length_append] at hshort
    omega
  · rw [if_neg hshort, if_neg (not_not.2 hbit)]
    constructor
    · intro h
      cases h
      exact ⟨List.length_take_of_le (Nat.not_lt.1 hshort), (List.take_append_drop n p.bytes).symm, rfl⟩
    · rintro ⟨rfl, hbytes, hbit'⟩
      obtain ⟨bytes', bit'⟩ := p'
      cases hbit'
      rw [hbytes, List.take_left, List.drop_left]

theorem Parser.parseUint_iff {v : ℕ} (hbit : p.bit = 0) :
    p.parseUint n = some (v, p') ↔ v < 256 ^ n ∧ p.bytes = beBytes n v ++ p'.bytes ∧ p'.bit = 0 := by
  simp only [parseUint, Option.map_eq_some_iff, Prod.exists, Prod.mk.injEq, parseChunk_iff hbit]
  constructor
  · rintro ⟨c, q, ⟨rfl, hbytes, hbit'⟩, rfl, rfl⟩
    exact ⟨beValue_lt c, by rw [beBytes_beValue, hbytes], hbit'⟩
  · rintro ⟨hv, hbytes, hbit'⟩
    exact ⟨beBytes n v, p', ⟨length_beBytes n v, hbytes, hbit'⟩, beValue_beBytes hv, rfl⟩

/-- A number is read into a type of its size. -/
theorem Parser.parseUint_map_iff {α : Type} {ofNat : ℕ → α} {toNat : α → ℕ} (hbit : p.bit = 0)
    (hto : ∀ m < 256 ^ n, toNat (ofNat m) = m) (hof : ∀ a, ofNat (toNat a) = a)
    (hlt : ∀ a, toNat a < 256 ^ n) {a : α} :
    ((p.parseUint n).map fun r => (ofNat r.1, r.2)) = some (a, p') ↔
      p.bytes = beBytes n (toNat a) ++ p'.bytes ∧ p'.bit = 0 := by
  simp only [Option.map_eq_some_iff, Prod.exists, Prod.mk.injEq, parseUint_iff hbit]
  constructor
  · rintro ⟨m, q, ⟨hm, hbytes, hbit'⟩, rfl, rfl⟩
    rw [hto m hm]
    exact ⟨hbytes, hbit'⟩
  · rintro ⟨hbytes, hbit'⟩
    exact ⟨toNat a, p', ⟨hlt a, hbytes, hbit'⟩, hof a, rfl⟩

theorem Parser.parseUint8_iff (hbit : p.bit = 0) {v : UInt8} :
    ((p.parseUint 1).map fun r => (UInt8.ofNat r.1, r.2)) = some (v, p') ↔
      p.bytes = [v] ++ p'.bytes ∧ p'.bit = 0 := by
  have h := @parseUint_map_iff p p' 1 UInt8 UInt8.ofNat UInt8.toNat hbit
    (fun m hm => UInt8.toNat_ofNat_of_lt' hm) (fun a => UInt8.ofNat_toNat) UInt8.toNat_lt v
  rwa [show beBytes 1 v.toNat = [v] from congrArg (fun b => [b]) UInt8.ofNat_toNat] at h

theorem Parser.parseUint16_iff (hbit : p.bit = 0) {v : UInt16} :
    ((p.parseUint 2).map fun r => (UInt16.ofNat r.1, r.2)) = some (v, p') ↔
      p.bytes = beBytes 2 v.toNat ++ p'.bytes ∧ p'.bit = 0 :=
  parseUint_map_iff hbit (fun _ hm => UInt16.toNat_ofNat_of_lt' hm) (fun _ => UInt16.ofNat_toNat)
    UInt16.toNat_lt

theorem Parser.parseUint32_iff (hbit : p.bit = 0) {v : UInt32} :
    ((p.parseUint 4).map fun r => (UInt32.ofNat r.1, r.2)) = some (v, p') ↔
      p.bytes = beBytes 4 v.toNat ++ p'.bytes ∧ p'.bit = 0 :=
  parseUint_map_iff hbit (fun _ hm => UInt32.toNat_ofNat_of_lt' hm) (fun _ => UInt32.ofNat_toNat)
    UInt32.toNat_lt

/-- The bytes of a field that has whole bytes. -/
def Field.bytes : Field → Chunk
  | ⟨.uInt8, v⟩ | ⟨.reservedByte, v⟩ | ⟨.spiSize, v⟩ | ⟨.tsType, v⟩ => [v]
  | ⟨.uInt16, v⟩ | ⟨.payloadLength, v⟩ | ⟨.attributeLength, v⟩ | ⟨.attributeLengthOrValue, v⟩ =>
    beBytes 2 v.toNat
  | ⟨.uInt32, v⟩ | ⟨.headerLength, v⟩ => beBytes 4 v.toNat
  | ⟨.ikeSpi, v⟩ => v.1
  | ⟨.spi, c⟩ | ⟨.address, c⟩ | ⟨.chunkData, c⟩ | ⟨.attributeValue, c⟩ => c
  | _ => []

theorem Field.bits_eq_ofBytes (f : Field) (h : f.type.isBytes = true) : f.bits = ofBytes f.bytes := by
  obtain ⟨t, v⟩ := f
  cases t <;> first | rfl | exact (List.append_nil _).symm | cases h

variable {kind : PayloadKind} {ctx : ParseContext}

/-- A field of whole bytes is read exactly if its bytes are there. -/
theorem parseValue_bytes_iff {t : EncodingType} (ht : t.isBytes = true) (hbit : p.bit = 0)
    {v : t.Value} :
    parseValue kind ctx p t = some (v, p') ↔
      Field.Fits kind ctx ⟨t, v⟩ ∧ p.bytes = Field.bytes ⟨t, v⟩ ++ p'.bytes ∧ p'.bit = 0 := by
  cases t with
  | uInt4 | flag | reservedBit | attributeFormat | attributeType => cases ht
  | uInt8 | reservedByte | spiSize | tsType =>
    exact (Parser.parseUint8_iff hbit).trans (iff_of_eq (true_and _)).symm
  | uInt16 | attributeLength | attributeLengthOrValue =>
    exact (Parser.parseUint16_iff hbit).trans (iff_of_eq (true_and _)).symm
  | uInt32 | headerLength => exact (Parser.parseUint32_iff hbit).trans (iff_of_eq (true_and _)).symm
  | payloadLength =>
    simp only [parseValue, Option.bind_eq_some_iff, Prod.exists, Parser.parseUint_iff hbit]
    constructor
    · rintro ⟨m, q, ⟨hm, hbytes, hbit'⟩, hv⟩
      split at hv
      · cases hv
      · next hfour =>
        cases hv
        have hto : (UInt16.ofNat m).toNat = m := UInt16.toNat_ofNat_of_lt' hm
        refine ⟨?_, ?_, hbit'⟩
        · show 4 ≤ (UInt16.ofNat m).toNat
          omega
        · show p.bytes = beBytes 2 (UInt16.ofNat m).toNat ++ p'.bytes
          rw [hto, hbytes]
    · rintro ⟨hfour, hbytes, hbit'⟩
      refine ⟨v.toNat, p', ⟨v.toNat_lt, hbytes, hbit'⟩, ?_⟩
      rw [if_neg (Nat.not_lt.2 hfour), UInt16.ofNat_toNat]
  | ikeSpi =>
    simp only [parseValue, Field.Fits, Field.bytes, true_and]
    constructor
    · intro h
      split at h
      · rw [if_neg (not_not.2 hbit)] at h
        cases h
        exact ⟨(List.take_append_drop 8 p.bytes).symm, rfl⟩
      · cases h
    · rintro ⟨hbytes, hbit'⟩
      obtain ⟨c, hc⟩ := v
      obtain ⟨bytes', bit'⟩ := p'
      cases hbit'
      have htake : p.bytes.take 8 = c := by rw [hbytes, List.take_left' hc]
      have hdrop : p.bytes.drop 8 = bytes' := by rw [hbytes, List.drop_left' hc]
      rw [dif_pos (by rw [htake, hc]), if_neg (not_not.2 hbit)]
      simp only [htake, hdrop]
  | spi | address =>
    exact Parser.parseChunk_iff hbit
  | chunkData =>
    simp only [parseValue, Field.Fits, Field.bytes]
    by_cases hshort : ctx.payloadLength < kind.headerLength ctx.spiSize
    · rw [if_pos hshort]
      exact ⟨fun h => (by cases h), fun h => absurd h.1 (by omega)⟩
    · rw [if_neg hshort, Parser.parseChunk_iff hbit]
      refine and_congr_left fun _ => ?_
      omega
  | attributeValue =>
    simp only [parseValue, Field.Fits, Field.bytes]
    by_cases hformat : ctx.attributeFormat = true
    · rw [if_pos hformat, if_pos hformat]
      constructor
      · intro h
        cases h
        exact ⟨rfl, rfl, hbit⟩
      · rintro ⟨hlen, hbytes, hbit'⟩
        rw [List.length_eq_zero_iff] at hlen
        subst hlen
        obtain ⟨bytes, bit⟩ := p
        obtain ⟨bytes', bit'⟩ := p'
        cases hbit
        cases hbit'
        cases hbytes
        rfl
    · rw [if_neg hformat, if_neg hformat]
      exact Parser.parseChunk_iff hbit

/-! ## Fields that are not whole bytes -/

theorem Parser.left_cons {b : UInt8} {bytes : Chunk} (hbytes : p.bytes = b :: bytes) (hlt : p.bit < 8) :
    p.left = b.toBitVec.getMsbD p.bit :: ((ofByte b).drop (p.bit + 1) ++ ofBytes bytes) := by
  rw [left, hbytes, ofBytes_cons, List.drop_append_of_le_length (by rw [length_ofByte]; omega),
    drop_ofByte b hlt, List.cons_append]

/-- A parser behind a bit of the byte. -/
theorem Parser.left_advance {b : UInt8} {bytes : Chunk} (hlt : p.bit < 8) :
    (if (p.bit + 1) % 8 = 0 then (⟨bytes, 0⟩ : Parser) else ⟨b :: bytes, (p.bit + 1) % 8⟩).left =
      (ofByte b).drop (p.bit + 1) ++ ofBytes bytes := by
  by_cases hmore : p.bit + 1 < 8
  · rw [Nat.mod_eq_of_lt hmore, if_neg (Nat.succ_ne_zero _)]
    show (ofBytes (b :: bytes)).drop (p.bit + 1) = _
    rw [ofBytes_cons, List.drop_append_of_le_length (by rw [length_ofByte]; omega)]
  · have hseven : p.bit = 7 := by omega
    rw [hseven, if_pos rfl, left_byte rfl, List.drop_of_length_le (by rw [length_ofByte]), List.nil_append]

theorem Parser.bit_advance {bytes bytes' : Chunk} {m : ℕ} :
    (if m = 0 then (⟨bytes, 0⟩ : Parser) else ⟨bytes', m⟩).bit = m := by
  split
  · next h => exact h.symm
  · rfl

theorem Parser.parseBit_of_left {b : Bool} {rest : List Bool} (hlt : p.bit < 8)
    (hleft : p.left = b :: rest) :
    ∃ p', p.parseBit = some (b, p') ∧ p'.bit = (p.bit + 1) % 8 ∧ p'.left = rest := by
  cases hbytes : p.bytes with
  | nil =>
    rw [left, hbytes, ofBytes_nil, List.drop_nil] at hleft
    cases hleft
  | cons x bytes =>
    rw [left_cons hbytes hlt, List.cons.injEq] at hleft
    obtain ⟨rfl, rfl⟩ := hleft
    refine ⟨if (p.bit + 1) % 8 = 0 then ⟨bytes, 0⟩ else ⟨x :: bytes, (p.bit + 1) % 8⟩, ?_, bit_advance,
      left_advance hlt⟩
    simp only [parseBit, hbytes]
    rw [Bool.decide_congr (and_mask_ne_zero x hlt), Bool.decide_eq_true]

theorem Parser.left_of_parseBit {b : Bool} (hlt : p.bit < 8) (h : p.parseBit = some (b, p')) :
    p'.bit = (p.bit + 1) % 8 ∧ p.left = b :: p'.left := by
  unfold parseBit at h
  split at h
  · cases h
  · next x bytes hbytes =>
    rw [hbytes, Option.some.injEq, Prod.mk.injEq] at h
    obtain ⟨rfl, rfl⟩ := h
    refine ⟨bit_advance, ?_⟩
    rw [left_advance hlt, left_cons hbytes hlt, Bool.decide_congr (and_mask_ne_zero x hlt),
      Bool.decide_eq_true]

/-- A number below 16 is its last four bits. -/
theorem eq_of_drop_ofByte {v w : UInt8} (hv : v < 16) (hw : w < 16)
    (h : (ofByte v).drop 4 = (ofByte w).drop 4) : v = w := by
  have hzero : ∀ x : UInt8, x < 16 → (ofByte x).take 4 = List.replicate 4 false := by
    intro x hx
    have hbit : ∀ i, 4 ≤ i → x.toNat.testBit i = false := by
      intro i hi
      have hpow : 2 ^ 4 ≤ 2 ^ i := Nat.pow_le_pow_right Nat.two_pos hi
      exact Nat.testBit_lt_two_pow (lt_of_lt_of_le (UInt8.lt_iff_toNat_lt.1 hx) hpow)
    rw [← UInt8.ofNat_toNat (x := x), ofByte_ofNat]
    simp [List.range, List.range.loop, hbit]
  refine ofByte_injective ?_
  rw [← List.take_append_drop 4 (ofByte v), ← List.take_append_drop 4 (ofByte w), hzero v hv, hzero w hw, h]

theorem shiftRight_nibble (x : UInt8) : x >>> 4 < 16 ∧ (ofByte (x >>> 4)).drop 4 = (ofByte x).take 4 := by
  refine ⟨?_, by simp [ofByte, List.range, List.range.loop]⟩
  have hx := x.toNat_lt
  rw [UInt8.lt_iff_toNat_lt, UInt8.toNat_shiftRight, Nat.shiftRight_eq_div_pow]
  exact Nat.div_lt_of_lt_mul hx

theorem and_nibble (x : UInt8) : x &&& 0x0F < 16 ∧ (ofByte (x &&& 0x0F)).drop 4 = (ofByte x).drop 4 := by
  refine ⟨?_, by simp [ofByte, List.range, List.range.loop]⟩
  rw [UInt8.lt_iff_toNat_lt, UInt8.toNat_and]
  exact Nat.lt_succ_of_le Nat.and_le_right

variable {a a' : Align}

theorem Parser.parseUint4_of_left {v : UInt8} {rest : List Bool} (hbit : p.bit = a.bit)
    (hnext : a.next .uInt4 = some a') (hv : v < 16) (hleft : p.left = (ofByte v).drop 4 ++ rest) :
    ∃ p', p.parseUint4 = some (v, p') ∧ p'.bit = a'.bit ∧ p'.left = rest := by
  cases hbytes : p.bytes with
  | nil =>
    rw [left, hbytes, ofBytes_nil, List.drop_nil] at hleft
    exact absurd (congrArg List.length hleft) (by simp [length_ofByte]; omega)
  | cons x bytes =>
    cases a with
    | byte =>
      cases hnext
      have hzero : p.bit = 0 := hbit
      rw [left_byte hzero, hbytes, ofBytes_cons, ← List.take_append_drop 4 (ofByte x), List.append_assoc] at hleft
      obtain ⟨hhigh, hrest⟩ := List.append_inj hleft (by simp)
      refine ⟨⟨x :: bytes, 4⟩, ?_, rfl, ?_⟩
      · simp only [parseUint4, hbytes]
        rw [if_pos hzero, eq_of_drop_ofByte hv (shiftRight_nibble x).1
          (hhigh.symm.trans (shiftRight_nibble x).2.symm)]
      · rw [left, ofBytes_cons, List.drop_append_of_le_length (by simp), hrest]
    | nibble =>
      cases hnext
      have hfour : p.bit = 4 := hbit
      rw [left, hfour, hbytes, ofBytes_cons, List.drop_append_of_le_length (by simp)] at hleft
      obtain ⟨hlow, hrest⟩ := List.append_inj hleft (by simp)
      refine ⟨⟨bytes, 0⟩, ?_, rfl, (left_byte rfl).trans hrest⟩
      simp only [parseUint4, hbytes]
      rw [if_neg (by omega), if_pos hfour, eq_of_drop_ofByte hv (and_nibble x).1
        (hlow.symm.trans (and_nibble x).2.symm)]
    | flags n => cases hnext

theorem Parser.left_of_parseUint4 {v : UInt8} (hbit : p.bit = a.bit) (hnext : a.next .uInt4 = some a')
    (h : p.parseUint4 = some (v, p')) :
    v < 16 ∧ p'.bit = a'.bit ∧ p.left = (ofByte v).drop 4 ++ p'.left := by
  unfold parseUint4 at h
  split at h
  · cases h
  · next x bytes hbytes =>
    cases a with
    | byte =>
      cases hnext
      have hzero : p.bit = 0 := hbit
      rw [if_pos hzero] at h
      cases h
      refine ⟨(shiftRight_nibble x).1, rfl, ?_⟩
      rw [left_byte hzero, left, hbytes, ofBytes_cons, List.drop_append_of_le_length (by simp),
        (shiftRight_nibble x).2, ← List.append_assoc, List.take_append_drop]
    | nibble =>
      cases hnext
      have hfour : p.bit = 4 := hbit
      rw [if_neg (by omega), if_pos hfour] at h
      cases h
      refine ⟨(and_nibble x).1, rfl, ?_⟩
      rw [left, left_byte rfl, hfour, hbytes, ofBytes_cons, List.drop_append_of_le_length (by simp),
        (and_nibble x).2]
    | flags n => cases hnext

theorem and_low_lt (w : UInt16) : w &&& 0x7FFF < 0x8000 := by
  rw [UInt16.lt_iff_toNat_lt, UInt16.toNat_and]
  exact Nat.lt_succ_of_le Nat.and_le_right

/-- A number of 15 bits is given by its bits. -/
theorem and_low_eq {v w : UInt16} (hv : v < 0x8000)
    (h : ∀ i < 15, w.toNat.testBit i = v.toNat.testBit i) : w &&& 0x7FFF = v := by
  have hhigh : ∀ x : UInt16, x < 0x8000 → ∀ i, 15 ≤ i → x.toNat.testBit i = false := by
    intro x hx i hi
    have hpow : 2 ^ 15 ≤ 2 ^ i := Nat.pow_le_pow_right Nat.two_pos hi
    exact Nat.testBit_lt_two_pow (lt_of_lt_of_le (UInt16.lt_iff_toNat_lt.1 hx) hpow)
  refine UInt16.toNat_inj.1 (Nat.eq_of_testBit_eq fun i => ?_)
  by_cases hi : i < 15
  · rw [testBit_and_low w hi, h i hi]
  · rw [hhigh v hv i (Nat.not_lt.1 hi), hhigh _ (and_low_lt w) i (Nat.not_lt.1 hi)]

/-- The bits behind a flag, when there are two bytes. -/
theorem Parser.left_two (hbit : p.bit = 1) (hlen : ¬ p.bytes.length < 2) :
    p.left = (ofBytes (beBytes 2 (beValue (p.bytes.take 2)))).drop 1 ++ ofBytes (p.bytes.drop 2) := by
  have htwo : (p.bytes.take 2).length = 2 := List.length_take_of_le (Nat.not_lt.1 hlen)
  have hbytes : beBytes 2 (beValue (p.bytes.take 2)) = p.bytes.take 2 := by
    have h := beBytes_beValue (p.bytes.take 2)
    rwa [htwo] at h
  rw [hbytes, left, hbit]
  nth_rewrite 1 [← List.take_append_drop 2 p.bytes]
  rw [ofBytes_append, List.drop_append_of_le_length (by rw [length_ofBytes, htwo]; omega)]

theorem toNat_beValue_take (hlen : ¬ p.bytes.length < 2) :
    (UInt16.ofNat (beValue (p.bytes.take 2))).toNat = beValue (p.bytes.take 2) := by
  have hlt := beValue_lt (p.bytes.take 2)
  rw [List.length_take_of_le (Nat.not_lt.1 hlen)] at hlt
  exact UInt16.toNat_ofNat_of_lt' hlt

theorem Parser.parseUint15_of_left {v : UInt16} {rest : List Bool} (hbit : p.bit = 1) (hv : v < 0x8000)
    (hleft : p.left = (ofBytes (beBytes 2 v.toNat)).drop 1 ++ rest) :
    ∃ p', p.parseUint15 = some (v, p') ∧ p'.bit = 0 ∧ p'.left = rest := by
  have hlen : ¬ p.bytes.length < 2 := by
    have h := congrArg List.length hleft
    rw [left, hbit, List.length_drop, length_ofBytes, List.length_append, List.length_drop,
      length_ofBytes, length_beBytes] at h
    omega
  rw [left_two hbit hlen] at hleft
  obtain ⟨hbits, hrest⟩ := List.append_inj hleft (by simp)
  refine ⟨⟨p.bytes.drop 2, 0⟩, ?_, rfl, (left_byte rfl).trans hrest⟩
  have hvalue : UInt16.ofNat (beValue (p.bytes.take 2)) &&& 0x7FFF = v := by
    refine and_low_eq hv ?_
    rw [toNat_beValue_take hlen]
    exact drop_ofBytes_iff.1 hbits
  rw [parseUint15, if_neg hlen, if_neg (not_not.2 hbit), hvalue]

theorem Parser.left_of_parseUint15 {v : UInt16} (h : p.parseUint15 = some (v, p')) :
    v < 0x8000 ∧ p'.bit = 0 ∧ p.left = (ofBytes (beBytes 2 v.toNat)).drop 1 ++ p'.left := by
  unfold parseUint15 at h
  split at h
  · cases h
  next hlen =>
  split at h
  · cases h
  next hbit =>
  cases h
  refine ⟨and_low_lt _, rfl, ?_⟩
  rw [left_two (not_not.1 hbit) hlen, left_byte rfl, drop_ofBytes_and, toNat_beValue_take hlen]

/-! ## Fields -/

theorem Align.bit_next_flag (hlt : a.bit < 8) (hnext : a.next .flag = some a') :
    a'.bit = (a.bit + 1) % 8 := by
  cases a with
  | byte =>
    cases hnext
    rfl
  | nibble => cases hnext
  | flags n =>
    have hn : n < 8 := hlt
    simp only [next] at hnext
    split at hnext
    · next hmore =>
      cases hnext
      exact (Nat.mod_eq_of_lt hmore).symm
    · cases hnext
      show 0 = (n + 1) % 8
      omega

theorem Align.next_attributeType (hnext : a.next .attributeType = some a') :
    a.bit = 1 ∧ a' = .byte := by
  cases a with
  | byte => cases hnext
  | nibble => cases hnext
  | flags n =>
    simp only [next] at hnext
    split at hnext
    · next hn =>
      cases hnext
      exact ⟨hn, rfl⟩
    · cases hnext

theorem parseValue_bytes_of_left {f : Field} {rest : List Bool} (ht : f.type.isBytes = true)
    (hbit : p.bit = 0) (hfits : f.Fits kind ctx) (hleft : p.left = f.bits ++ rest) :
    ∃ p', parseValue kind ctx p f.type = some (f.value, p') ∧ p'.bit = 0 ∧ p'.left = rest := by
  rw [Parser.left_byte hbit, f.bits_eq_ofBytes ht] at hleft
  have hlen : f.bytes.length ≤ p.bytes.length := by
    have h := congrArg List.length hleft
    rw [length_ofBytes, List.length_append, length_ofBytes] at h
    omega
  rw [← List.take_append_drop f.bytes.length p.bytes, ofBytes_append] at hleft
  obtain ⟨hbytes, hrest⟩ := ofBytes_append_inj (List.length_take_of_le hlen) hleft
  refine ⟨⟨p.bytes.drop f.bytes.length, 0⟩, ?_, rfl, (Parser.left_byte rfl).trans hrest⟩
  refine (parseValue_bytes_iff ht hbit).2 ⟨hfits, ?_, rfl⟩
  exact (List.take_append_drop _ _).symm.trans (congrArg (· ++ _) hbytes)

/-- A parser with the bits of a field before it reads the field. -/
theorem parseValue_of_left (f : Field) {rest : List Bool} (hbit : p.bit = a.bit) (hlt : a.bit < 8)
    (hnext : a.next f.type = some a') (hfits : f.Fits kind ctx) (hleft : p.left = f.bits ++ rest) :
    ∃ p', parseValue kind ctx p f.type = some (f.value, p') ∧ p'.bit = a'.bit ∧ p'.left = rest := by
  by_cases ht : f.type.isBytes = true
  · obtain ⟨rfl, rfl⟩ := Align.next_of_bytes hnext ht
    exact parseValue_bytes_of_left ht hbit hfits hleft
  · obtain ⟨t, v⟩ := f
    have hflag : ∀ b : Bool, a.next .flag = some a' → p.left = [b] ++ rest →
        ∃ p', p.parseBit = some (b, p') ∧ p'.bit = a'.bit ∧ p'.left = rest := by
      intro b hnext hleft
      rw [Align.bit_next_flag hlt hnext, ← hbit]
      exact Parser.parseBit_of_left (hbit ▸ hlt) hleft
    cases t with
    | uInt4 => exact Parser.parseUint4_of_left hbit hnext hfits hleft
    | attributeType =>
      obtain ⟨hone, rfl⟩ := Align.next_attributeType hnext
      exact Parser.parseUint15_of_left (hbit.trans hone) hfits hleft
    | flag => exact hflag v hnext hleft
    | reservedBit | attributeFormat =>
      exact hflag v ((by cases a <;> rfl : a.next .flag = _).trans hnext) hleft
    | _ => exact absurd rfl ht

/-- What a parser reads is a field that fits, and its bits were before the parser. -/
theorem left_of_parseValue {t : EncodingType} {v : t.Value} (hbit : p.bit = a.bit) (hlt : a.bit < 8)
    (hnext : a.next t = some a') (h : parseValue kind ctx p t = some (v, p')) :
    Field.Fits kind ctx ⟨t, v⟩ ∧ p'.bit = a'.bit ∧ p.left = Field.bits ⟨t, v⟩ ++ p'.left := by
  by_cases ht : t.isBytes = true
  · obtain ⟨rfl, rfl⟩ := Align.next_of_bytes hnext ht
    obtain ⟨hfits, hbytes, hbit'⟩ := (parseValue_bytes_iff ht hbit).1 h
    refine ⟨hfits, hbit', ?_⟩
    rw [Parser.left_byte hbit, Parser.left_byte hbit', Field.bits_eq_ofBytes _ ht, ← ofBytes_append,
      hbytes]
  · have hflag : ∀ b : Bool, a.next .flag = some a' → p.parseBit = some (b, p') →
        p'.bit = a'.bit ∧ p.left = [b] ++ p'.left := by
      intro b hnext h
      rw [Align.bit_next_flag hlt hnext, ← hbit]
      exact Parser.left_of_parseBit (hbit ▸ hlt) h
    cases t with
    | uInt4 => exact Parser.left_of_parseUint4 hbit hnext h
    | attributeType =>
      obtain ⟨-, rfl⟩ := Align.next_attributeType hnext
      exact Parser.left_of_parseUint15 h
    | flag => exact ⟨trivial, hflag v hnext h⟩
    | reservedBit | attributeFormat =>
      exact ⟨trivial, hflag v ((by cases a <;> rfl : a.next .flag = _).trans hnext) h⟩
    | _ => exact absurd rfl ht

/-! ## Tables -/

theorem Align.bit_next_lt {t : EncodingType} (hlt : a.bit < 8) (hnext : a.next t = some a') :
    a'.bit < 8 := by
  by_cases ht : t.isBytes = true
  · obtain ⟨-, rfl⟩ := Align.next_of_bytes hnext ht
    exact Nat.zero_lt_succ 7
  · have hflag : a.next .flag = some a' → a'.bit < 8 := fun h => by
      rw [Align.bit_next_flag hlt h]
      exact Nat.mod_lt _ (Nat.zero_lt_succ 7)
    cases t with
    | uInt4 => cases a <;> cases hnext <;> exact of_decide_eq_true rfl
    | attributeType =>
      obtain ⟨-, rfl⟩ := Align.next_attributeType hnext
      exact Nat.zero_lt_succ 7
    | flag => exact hflag hnext
    | reservedBit | attributeFormat =>
      exact hflag ((by cases a <;> rfl : a.next .flag = _).trans hnext)
    | _ => exact absurd rfl ht

theorem parseRules_of_left (fields : List Field) {rest : List Bool} (hbit : p.bit = a.bit)
    (hlt : a.bit < 8) (hrun : a.run (fields.map Field.type) = some a') (hfits : FieldsFit kind ctx fields)
    (hleft : p.left = bitsOf fields ++ rest) :
    ∃ p', parseRules kind (fields.map Field.type) ctx p = some (fields, ctx.afterAll fields, p') ∧
      p'.bit = a'.bit ∧ p'.left = rest := by
  induction fields generalizing p ctx a with
  | nil =>
    cases hrun
    exact ⟨p, rfl, hbit, hleft⟩
  | cons f fields ih =>
    rw [List.map_cons, Align.run_cons, Option.bind_eq_some_iff] at hrun
    obtain ⟨b, hnext, hrun⟩ := hrun
    rw [bitsOf, List.flatMap_cons, List.append_assoc] at hleft
    obtain ⟨q, hvalue, hbitq, hleftq⟩ := parseValue_of_left f hbit hlt hnext hfits.1 hleft
    obtain ⟨p', hrules, hbit', hleft'⟩ := ih hbitq (Align.bit_next_lt hlt hnext) hrun hfits.2 hleftq
    refine ⟨p', ?_, hbit', hleft'⟩
    rw [List.map_cons, parseRules, hvalue]
    simp only [hrules, Option.map_some]
    rfl

theorem left_of_parseRules {rules : List EncodingType} {fields : List Field} {ctx' : ParseContext}
    (hbit : p.bit = a.bit) (hlt : a.bit < 8) (hrun : a.run rules = some a')
    (h : parseRules kind rules ctx p = some (fields, ctx', p')) :
    fields.map Field.type = rules ∧ FieldsFit kind ctx fields ∧ ctx' = ctx.afterAll fields ∧
      p'.bit = a'.bit ∧ p.left = bitsOf fields ++ p'.left := by
  induction rules generalizing p ctx a fields with
  | nil =>
    cases hrun
    cases h
    exact ⟨rfl, trivial, rfl, hbit, rfl⟩
  | cons t rules ih =>
    rw [Align.run_cons, Option.bind_eq_some_iff] at hrun
    obtain ⟨b, hnext, hrun⟩ := hrun
    rw [parseRules] at h
    split at h
    · cases h
    · next v q hvalue =>
      simp only [Option.map_eq_some_iff, Prod.exists, Prod.mk.injEq] at h
      obtain ⟨fields, ctx', p', hrules, rfl, rfl, rfl⟩ := h
      obtain ⟨hfits, hbitq, hleftq⟩ := left_of_parseValue hbit hlt hnext hvalue
      obtain ⟨rfl, hfits', hctx, hbit', hleft'⟩ :=
        ih hbitq (Align.bit_next_lt hlt hnext) hrun hrules
      refine ⟨rfl, ⟨hfits, hfits'⟩, hctx, hbit', ?_⟩
      rw [hleftq, hleft', ← List.append_assoc]
      rfl

end

end Epdg

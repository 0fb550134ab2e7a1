import VoWiFi.Epdg.Content
import VoWiFi.Epdg.Proofs.EncodingProofs

/-!
# The content of an encrypted payload is read back

The loop that reads the content succeeds exactly on a chain of well-formed payloads whose bits the content
begins with. The generator writes these bits unless it leaves out the value of a configuration attribute, which
it does behind a transform attribute with the short format. The order of the payloads decides about that.
-/

namespace Epdg

open BitString

/-! ## The generic header -/

/-- The fields of a generic header and the fields behind it. -/
theorem generic_fields {kind : PayloadKind} {fields : List Field} {types : List EncodingType}
    (htypes : fields.map Field.type = PayloadKind.genericHeader ++ types) (hfits : FieldsFit kind {} fields) :
    ∃ (next : UInt8) (flags : List Bool) (len : UInt16) (rest : List Field), flags.length = 8 ∧
      bitsOf fields = ofByte next ++ (flags ++ (ofBytes (beBytes 2 len.toNat) ++ bitsOf rest)) ∧
      rest.map Field.type = types ∧ FieldsFit kind { payloadLength := len.toNat } rest ∧
      ParseContext.afterAll {} fields = ParseContext.afterAll { payloadLength := len.toNat } rest := by
  obtain ⟨⟨_, next⟩, l₁, rfl, rfl, h₁⟩ := List.map_eq_cons_iff.1 htypes
  obtain ⟨⟨_, b₀⟩, l₂, rfl, rfl, h₂⟩ := List.map_eq_cons_iff.1 h₁
  obtain ⟨⟨_, b₁⟩, l₃, rfl, rfl, h₃⟩ := List.map_eq_cons_iff.1 h₂
  obtain ⟨⟨_, b₂⟩, l₄, rfl, rfl, h₄⟩ := List.map_eq_cons_iff.1 h₃
  obtain ⟨⟨_, b₃⟩, l₅, rfl, rfl, h₅⟩ := List.map_eq_cons_iff.1 h₄
  obtain ⟨⟨_, b₄⟩, l₆, rfl, rfl, h₆⟩ := List.map_eq_cons_iff.1 h₅
  obtain ⟨⟨_, b₅⟩, l₇, rfl, rfl, h₇⟩ := List.map_eq_cons_iff.1 h₆
  obtain ⟨⟨_, b₆⟩, l₈, rfl, rfl, h₈⟩ := List.map_eq_cons_iff.1 h₇
  obtain ⟨⟨_, b₇⟩, l₉, rfl, rfl, h₉⟩ := List.map_eq_cons_iff.1 h₈
  obtain ⟨⟨_, len⟩, rest, rfl, rfl, hrest⟩ := List.map_eq_cons_iff.1 h₉
  exact ⟨next, [b₀, b₁, b₂, b₃, b₄, b₅, b₆, b₇], len, rest, rfl, rfl, hrest,
    hfits.2.2.2.2.2.2.2.2.2.2, rfl⟩

/-- The size of a field that says nothing about the others. -/
def EncodingType.plainSize : EncodingType → Option ℕ
  | uInt8 | reservedByte => some 1
  | uInt16 => some 2
  | _ => none

/-- The size of such fields, if there are no others. -/
def plainSizes : List EncodingType → Option ℕ
  | [] => some 0
  | t :: types => t.plainSize.bind fun n => (plainSizes types).map (n + ·)

theorem plain_field {kind : PayloadKind} {ctx : ParseContext} {f : Field} {n : ℕ}
    (h : f.type.plainSize = some n) :
    f.bits.length = 8 * n ∧ f.Fits kind ctx ∧ ctx.after f = ctx := by
  obtain ⟨t, v⟩ := f
  cases t with
  | uInt8 | reservedByte =>
    cases h
    exact ⟨length_ofByte v, trivial, rfl⟩
  | uInt16 =>
    cases h
    refine ⟨?_, trivial, rfl⟩
    show (ofBytes (beBytes 2 v.toNat)).length = 16
    rw [length_ofBytes, length_beBytes]
  | _ => cases h

/-- Fields that say nothing about the others are skipped. -/
theorem plain_fields {kind : PayloadKind} {ctx : ParseContext} {fields : List Field}
    {plain types : List EncodingType} {n : ℕ} (htypes : fields.map Field.type = plain ++ types)
    (hplain : plainSizes plain = some n) :
    ∃ rest : List Field, rest.map Field.type = types ∧
      (bitsOf fields).length = 8 * n + (bitsOf rest).length ∧
      (FieldsFit kind ctx fields ↔ FieldsFit kind ctx rest) ∧ ctx.afterAll fields = ctx.afterAll rest := by
  induction plain generalizing fields n with
  | nil =>
    cases hplain
    exact ⟨fields, htypes, by omega, Iff.rfl, rfl⟩
  | cons t plain ih =>
    obtain ⟨f, fields, rfl, rfl, hrest⟩ := List.map_eq_cons_iff.1 htypes
    rw [plainSizes, Option.bind_eq_some_iff] at hplain
    obtain ⟨m, hm, hplain⟩ := hplain
    rw [Option.map_eq_some_iff] at hplain
    obtain ⟨k, hk, rfl⟩ := hplain
    obtain ⟨hbits, hfits, hafter⟩ := @plain_field kind ctx f m hm
    obtain ⟨rest, htypes', hlen, hiff, hctx⟩ := ih hrest hk
    refine ⟨rest, htypes', ?_, ?_, ?_⟩
    · rw [bitsOf, List.flatMap_cons, List.length_append, hbits, ← bitsOf, hlen]
      omega
    · rw [FieldsFit, hafter, hiff]
      exact and_iff_right hfits
    · rw [← hctx]
      show (ctx.after f).afterAll fields = ctx.afterAll fields
      rw [hafter]

/-- What is behind the generic header of a payload of a message. -/
theorem PayloadKind.sendable_cases {kind : PayloadKind} (h : kind.sendable = true) :
    (∃ plain n, kind.rules = genericHeader ++ (plain ++ [.chunkData]) ∧ plainSizes plain = some n ∧
      kind.sub = none ∧ kind.headerLength 0 = 4 + n) ∨
    (∃ plain n, kind.rules = genericHeader ++ (plain ++ []) ∧ plainSizes plain = some n ∧
      kind.sub.isSome = true ∧ kind.headerLength 0 = 4 + n) ∨ kind = .notify := by
  cases kind with
  | notify => exact .inr (.inr rfl)
  | securityAssociation => exact .inr (.inl ⟨[], 0, rfl, rfl, rfl, rfl⟩)
  | tsInitiator | tsResponder | configuration =>
    exact .inr (.inl ⟨[.uInt8, .reservedByte, .reservedByte, .reservedByte], 4, rfl, rfl, rfl, rfl⟩)
  | keyExchange => exact .inl ⟨[.uInt16, .reservedByte, .reservedByte], 4, rfl, rfl, rfl, rfl⟩
  | idInitiator | idResponder | auth =>
    exact .inl ⟨[.uInt8, .reservedByte, .reservedByte, .reservedByte], 4, rfl, rfl, rfl, rfl⟩
  | certificate | certreq => exact .inl ⟨[.uInt8], 1, rfl, rfl, rfl, rfl⟩
  | delete => exact .inl ⟨[.uInt8, .uInt8, .uInt16], 4, rfl, rfl, rfl, rfl⟩
  | nonce | vendorId | eap | unknown => exact .inl ⟨[], 0, rfl, rfl, rfl, rfl⟩
  | _ => cases h

theorem PayloadKind.sendable_generic {kind : PayloadKind} (h : kind.sendable = true) :
    ∃ types, kind.rules = genericHeader ++ types ∧ .payloadLength ∉ types := by
  cases kind <;> first | exact ⟨_, rfl, by decide⟩ | cases h

theorem PayloadKind.sendable_first {kind : PayloadKind} (h : kind.sendable = true) :
    ∃ types, kind.rules = .uInt8 :: types :=
  (sendable_generic h).imp' _ fun _ hrules => hrules.1

theorem payloadLength_afterAll {ctx : ParseContext} {fields : List Field}
    (h : .payloadLength ∉ fields.map Field.type) :
    (ctx.afterAll fields).payloadLength = ctx.payloadLength := by
  induction fields generalizing ctx with
  | nil => rfl
  | cons f fields ih =>
    rw [List.map_cons, List.mem_cons, not_or] at h
    have hf : (ctx.after f).payloadLength = ctx.payloadLength := by
      obtain ⟨t, v⟩ := f
      cases t <;> first | rfl | exact absurd rfl h.1
    show ((ctx.after f).afterAll fields).payloadLength = ctx.payloadLength
    rw [ih h.2, hf]

theorem chunk_field {kind : PayloadKind} {ctx : ParseContext} {fields : List Field}
    (htypes : fields.map Field.type = [.chunkData]) (hfits : FieldsFit kind ctx fields) :
    8 * kind.headerLength ctx.spiSize + (bitsOf fields).length = 8 * ctx.payloadLength := by
  obtain ⟨⟨_, c⟩, rest, rfl, rfl, hrest⟩ := List.map_eq_cons_iff.1 htypes
  obtain rfl := List.map_eq_nil_iff.1 hrest
  have hlen : kind.headerLength ctx.spiSize + c.length = ctx.payloadLength := hfits.1
  have hbits : (bitsOf [⟨.chunkData, c⟩]).length = 8 * c.length := by
    rw [bitsOf, List.flatMap_singleton]
    exact length_ofBytes c
  omega

/-- The fields of a notify payload behind the generic header. -/
theorem notify_fields {ctx : ParseContext} {fields : List Field}
    (htypes : fields.map Field.type = [.uInt8, .spiSize, .uInt16, .spi, .chunkData])
    (hfits : FieldsFit .notify ctx fields) : 32 + (bitsOf fields).length = 8 * ctx.payloadLength := by
  obtain ⟨⟨_, proto⟩, l₁, rfl, rfl, h₁⟩ := List.map_eq_cons_iff.1 htypes
  obtain ⟨⟨_, size⟩, l₂, rfl, rfl, h₂⟩ := List.map_eq_cons_iff.1 h₁
  obtain ⟨⟨_, type⟩, l₃, rfl, rfl, h₃⟩ := List.map_eq_cons_iff.1 h₂
  obtain ⟨⟨_, spi⟩, l₄, rfl, rfl, h₄⟩ := List.map_eq_cons_iff.1 h₃
  have hspi : spi.length = size.toNat := hfits.2.2.2.1
  have hchunk := chunk_field h₄ hfits.2.2.2.2
  have hheader : PayloadKind.notify.headerLength size.toNat = 8 + size.toNat := rfl
  have hbits : bitsOf (⟨.uInt8, proto⟩ :: ⟨.spiSize, size⟩ :: ⟨.uInt16, type⟩ :: ⟨.spi, spi⟩ :: l₄) =
      ofByte proto ++ (ofByte size ++ (ofBytes (beBytes 2 type.toNat) ++ (ofBytes spi ++ bitsOf l₄))) := rfl
  have hchunk' : 8 * (8 + size.toNat) + (bitsOf l₄).length = 8 * ctx.payloadLength := hchunk
  rw [hbits]
  simp only [List.length_append, length_ofByte, length_ofBytes, length_beBytes, hspi]
  omega

/-- A payload of a message begins with the generic header, and its length is the length that is written
there. -/
theorem PayloadTree.generic {p : PayloadTree} (hkind : p.kind.sendable = true) (h : p.WellFormed) :
    ∃ (next : UInt8) (flags : List Bool) (rest : List Bool), flags.length = 8 ∧
      bitsOf p.allFields = ofByte next ++ (flags ++ (ofBytes (beBytes 2 p.getLength) ++ rest)) ∧
      (bitsOf p.allFields).length = 8 * p.getLength ∧ p.getLength < 2 ^ 16 := by
  obtain ⟨⟨kind, fields⟩, sub⟩ := p
  replace hkind : kind.sendable = true := hkind
  obtain ⟨htypes, hfits, hlen, hsub⟩ := h
  dsimp only at htypes hfits hlen hsub
  obtain ⟨types, hrules, hnotin⟩ := PayloadKind.sendable_generic hkind
  obtain ⟨next, flags, len, rest, hflags, hbits, hrest, hfits', hctx⟩ :=
    generic_fields (htypes.trans hrules) hfits
  have hget : getLength (.node ⟨kind, fields⟩ sub) = len.toNat := by
    rw [getLength, RoseTree.label_node, hctx, payloadLength_afterAll (hrest ▸ hnotin)]
  rw [hget]
  refine ⟨next, flags, bitsOf rest ++ bitsOf (fieldsOf sub), hflags, ?_, ?_, len.toNat_lt⟩
  · rw [bitsOf_allFields, hbits]
    simp only [List.append_assoc]
  have hnone (hs : kind.sub = none) : sub = [] := by
    rw [hs, allWellFormed_iff] at hsub
    refine List.eq_nil_iff_forall_not_mem.2 fun q hq => ?_
    cases (hsub q hq).1
  rw [bitsOf_allFields, hbits]
  simp only [List.length_append, length_ofByte, length_ofBytes, length_beBytes, hflags]
  rcases PayloadKind.sendable_cases hkind with
    ⟨plain, n, hrules', hplain, hs, hhead⟩ | ⟨plain, n, hrules', hplain, hs, hhead⟩ | rfl
  · obtain rfl := List.append_cancel_left (hrules.symm.trans hrules')
    obtain ⟨last, hlast, hsize, hiff, -⟩ := plain_fields hrest hplain
    have hchunk : 8 * kind.headerLength 0 + (bitsOf last).length = 8 * len.toNat :=
      chunk_field hlast (hiff.1 hfits')
    obtain rfl := hnone hs
    have hzero : (bitsOf (fieldsOf [])).length = 0 := rfl
    omega
  · obtain rfl := List.append_cancel_left (hrules.symm.trans hrules')
    obtain ⟨last, hlast, hsize, -, hctx'⟩ :=
      @plain_fields kind { payloadLength := len.toNat } rest plain [] n hrest hplain
    obtain rfl := List.map_eq_nil_iff.1 hlast
    have hzero : (bitsOf []).length = 0 := rfl
    have htotal : 8 * kind.headerLength 0 + (bitsOf (fieldsOf sub)).length = 8 * len.toNat := by
      have := hlen hs
      rwa [hctx, hctx'] at this
    omega
  · obtain rfl : types = [.uInt8, .spiSize, .uInt16, .spi, .chunkData] :=
      List.append_cancel_left hrules.symm
    obtain rfl := hnone rfl
    have hnotify : 32 + (bitsOf rest).length = 8 * len.toNat := notify_fields hrest hfits'
    have hzero : (bitsOf (fieldsOf [])).length = 0 := rfl
    omega

/-! ## The loop that reads -/

/-- The payloads follow the types, from a first one on. -/
def TypeChain : UInt8 → List PayloadTree → Prop
  | type, [] => type = 0
  | type, q :: qs => type ≠ 0 ∧ PayloadKind.ofType type = q.kind ∧ TypeChain q.getNextType qs

section

variable {verify : PayloadTree → Bool} {plain : Chunk} {p : Parser}

/-- The loop succeeds exactly on a chain of well-formed payloads that pass their checks. -/
theorem parseLoop_iff {fuel : ℕ} {type : UInt8} {qs : List PayloadTree} (hbit : p.bit = 0)
    (hfuel : p.bytes.length < fuel) :
    parseLoop verify plain fuel type p = (.success, qs) ↔
      TypeChain type qs ∧ (∀ q ∈ qs, q.WellFormed ∧ verify q = true) ∧
        (qs ≠ [] → lengthValid plain = true) ∧ bitsOf (PayloadTree.fieldsOf qs) <+: p.left := by
  induction fuel generalizing type p qs with
  | zero => exact absurd hfuel (Nat.not_lt_zero _)
  | succ fuel ih =>
    rw [parseLoop]
    constructor
    · intro h
      split at h
      · next htype =>
        cases h
        exact ⟨htype, by simp, fun h => absurd rfl h, List.nil_prefix⟩
      · next htype =>
        split at h
        · cases h
        · next hvalid =>
          split at h
          · cases h
          · next q p' hparse =>
            obtain ⟨hkind, hwf, hbit', hleft⟩ := parsePayloadAt_readsOnly le_rfl _ _ _ hbit hparse
            split at h
            · cases h
            · next hverify =>
              rw [Prod.mk.injEq] at h
              obtain ⟨hstatus, rfl⟩ := h
              have hpos := PayloadTree.bits_pos hwf
              have hlen := congrArg List.length hleft
              rw [List.length_append, Parser.length_left hbit, Parser.length_left hbit'] at hlen
              obtain ⟨hchain, hall, -, hbits⟩ := (ih hbit' (by omega)).1 (Prod.ext hstatus rfl)
              refine ⟨⟨htype, hkind.symm, hchain⟩, List.forall_mem_cons.2
                ⟨⟨hwf, Bool.not_eq_false _ ▸ hverify⟩, hall⟩, fun _ => Bool.not_eq_false _ ▸ hvalid, ?_⟩
              rw [bitsOf_fieldsOf_cons, hleft]
              exact (List.prefix_append_right_inj _).2 hbits
    · rintro ⟨hchain, hall, hvalid, hbits⟩
      cases qs with
      | nil => exact if_pos hchain
      | cons q qs =>
        obtain ⟨htype, hkind, hchain⟩ := hchain
        rw [List.forall_mem_cons] at hall
        obtain ⟨rest, hrest⟩ := hbits
        rw [bitsOf_fieldsOf_cons, List.append_assoc] at hrest
        obtain ⟨p', hparse, hbit', hleft'⟩ := parsePayloadAt_readsBack le_rfl rfl hall.1.1 p _ hbit hrest.symm
        have hpos := PayloadTree.bits_pos hall.1.1
        have hlen := congrArg List.length hrest
        rw [List.length_append, ← hleft', Parser.length_left hbit, Parser.length_left hbit'] at hlen
        have hloop := (@ih p' q.getNextType qs hbit' (by omega)).2
          ⟨hchain, hall.2, fun _ => hvalid (List.cons_ne_nil q qs), hleft' ▸ List.prefix_append _ _⟩
        rw [if_neg htype, if_neg (by simp [hvalid]), hkind, parsePayload, hparse]
        dsimp only
        rw [if_neg (by simp [hall.1.2]), hloop]

theorem parseContent_iff {type : UInt8} {qs : List PayloadTree} :
    parseContent verify type plain = (.success, qs) ↔
      TypeChain type qs ∧ (∀ q ∈ qs, q.WellFormed ∧ verify q = true) ∧
        (qs ≠ [] → lengthValid plain = true) ∧ bitsOf (PayloadTree.fieldsOf qs) <+: ofBytes plain :=
  parseLoop_iff rfl (Nat.lt_succ_self _)

end

/-- The check of the length passes on the bits of a payload of a message. -/
theorem lengthValid_of_prefix {plain : Chunk} {q : PayloadTree} (hkind : q.kind.sendable = true)
    (hwf : q.WellFormed) (h : bitsOf q.allFields <+: ofBytes plain) : lengthValid plain = true := by
  obtain ⟨next, flags, rest, hflags, hbits, hlen, hlt⟩ := PayloadTree.generic hkind hwf
  have hle := h.length_le
  rw [length_ofBytes, hlen] at hle
  obtain ⟨more, hmore⟩ := h
  have hfour : 4 ≤ q.getLength := by
    rw [hbits] at hlen
    simp only [List.length_append, length_ofByte, length_ofBytes, length_beBytes, hflags] at hlen
    omega
  rw [hbits, ← List.take_append_drop 2 plain, ofBytes_append] at hmore
  have hhead : (ofByte next ++ flags).length = (ofBytes (plain.take 2)).length := by
    rw [List.length_append, length_ofByte, hflags, length_ofBytes, List.length_take_of_le (by omega)]
  have hsplit : (ofByte next ++ flags) ++ (ofBytes (beBytes 2 q.getLength) ++ (rest ++ more)) =
      ofBytes (plain.take 2) ++ ofBytes (plain.drop 2) := by
    rw [← hmore]
    simp only [List.append_assoc]
  have htail := (List.append_inj hsplit hhead).2
  rw [← List.take_append_drop 2 (plain.drop 2), ofBytes_append] at htail
  have hfield := (ofBytes_append_inj (by
    rw [length_beBytes, List.length_take_of_le (by rw [List.length_drop]; omega)]) htail).1
  rw [lengthValid, ← hfield, beValue_beBytes (Nat.lt_of_lt_of_le hlt (by decide))]
  exact decide_eq_true ⟨by omega, by omega⟩

/-! ## Next types -/

theorem PayloadTree.kind_setNextType (p : PayloadTree) (t : ℕ) : (p.setNextType t).kind = p.kind := rfl

theorem PayloadTree.getNextType_setNextType (p : PayloadTree) (t : ℕ) :
    (p.setNextType t).getNextType = UInt8.ofNat t := rfl

theorem PayloadTree.wellFormed_setNextType {p : PayloadTree} (hkind : p.kind.sendable = true)
    (h : p.WellFormed) (t : ℕ) : (p.setNextType t).WellFormed := by
  obtain ⟨⟨kind, fields⟩, sub⟩ := p
  obtain ⟨htypes, hfits, hlen, hsub⟩ := h
  obtain ⟨types, hrules⟩ := PayloadKind.sendable_first hkind
  obtain ⟨⟨_, v⟩, fields, rfl, rfl, hrest⟩ := List.map_eq_cons_iff.1 (htypes.trans hrules)
  exact ⟨htypes, ⟨trivial, hfits.2⟩, hlen, hsub⟩

theorem PayloadKind.ofType_type {kind : PayloadKind} (h : kind.sendable = true) :
    UInt8.ofNat kind.type ≠ 0 ∧ ofType (UInt8.ofNat kind.type) = kind := by
  cases kind with
  | unknown t =>
    have ht : t ≠ 0 ∧ ofType t = unknown t := of_decide_eq_true h
    rwa [type, UInt8.ofNat_toNat]
  | _ => first | cases h; done | exact ⟨of_decide_eq_true rfl, rfl⟩

theorem map_kind_setNextTypes (ps : List PayloadTree) :
    (setNextTypes ps).map PayloadTree.kind = ps.map PayloadTree.kind := by
  induction ps using setNextTypes.induct with
  | case1 => rfl
  | case2 p => rfl
  | case3 p q ps ih => rw [setNextTypes, List.map_cons, ih, PayloadTree.kind_setNextType, ← List.map_cons]

theorem typeChain_setNextTypes {ps : List PayloadTree} (h : ∀ p ∈ ps, p.kind.sendable = true) :
    TypeChain (firstType ps) (setNextTypes ps) := by
  induction ps using setNextTypes.induct with
  | case1 => rfl
  | case2 p =>
    obtain ⟨hne, hof⟩ := PayloadKind.ofType_type (h p List.mem_cons_self)
    exact ⟨hne, hof, rfl⟩
  | case3 p q ps ih =>
    obtain ⟨hne, hof⟩ := PayloadKind.ofType_type (h p List.mem_cons_self)
    exact ⟨hne, hof, ih fun q hq => h q (List.mem_cons_of_mem p hq)⟩

theorem wellFormed_setNextTypes {ps : List PayloadTree} (h : ∀ p ∈ ps, p.kind.sendable = true)
    (hwf : ∀ p ∈ ps, p.WellFormed) : ∀ q ∈ setNextTypes ps, q.WellFormed := by
  induction ps using setNextTypes.induct with
  | case1 => exact fun q hq => absurd hq List.not_mem_nil
  | case2 p =>
    rw [setNextTypes, List.forall_mem_singleton]
    exact PayloadTree.wellFormed_setNextType (h p List.mem_cons_self) (hwf p List.mem_cons_self) 0
  | case3 p q ps ih =>
    rw [List.forall_mem_cons] at h hwf
    rw [setNextTypes, List.forall_mem_cons]
    exact ⟨PayloadTree.wellFormed_setNextType h.1 hwf.1 _, ih h.2 hwf.2⟩

/-! ## What the generator leaves out -/

section

variable {memory : ℕ → UInt8} {g : Generator} {a a' : Align}

/-- A value that is not written leaves the generator as it is. -/
theorem Generator.generateField_of_not_written {f : Field} (hnext : a.next f.type = some a')
    (hw : ¬ f.Written g.attributeFormat) :
    g.generateField memory f = g ∧ a = a' ∧ 0 < f.bits.length := by
  obtain ⟨t, c⟩ := f
  cases t with
  | attributeValue =>
    have hw : ¬ (g.attributeFormat = true → c = []) := hw
    rw [Classical.not_imp] at hw
    obtain ⟨rfl, rfl⟩ := Align.next_of_bytes hnext rfl
    refine ⟨if_pos hw.1, rfl, ?_⟩
    show 0 < (ofBytes c).length
    rw [length_ofBytes]
    have := List.length_pos_iff.2 hw.2
    omega
  | _ => exact absurd trivial hw

/-- The generator writes no more bits than the fields have, and fewer if it leaves out a value. -/
theorem Generator.length_generateFields (fields : List Field) (h : g.At a)
    (hrun : a.run (fields.map Field.type) = some a') :
    (fields.foldl (generateField memory) g).At a' ∧
      (fields.foldl (generateField memory) g).written.length ≤ g.written.length + (bitsOf fields).length ∧
      (¬ ValuesWritten g.attributeFormat fields →
        (fields.foldl (generateField memory) g).written.length <
          g.written.length + (bitsOf fields).length) := by
  induction fields generalizing g a with
  | nil =>
    cases hrun
    exact ⟨h, le_rfl, fun hw => absurd trivial hw⟩
  | cons f fields ih =>
    rw [List.map_cons, Align.run_cons, Option.bind_eq_some_iff] at hrun
    obtain ⟨b, hnext, hrun⟩ := hrun
    have hbits : (bitsOf (f :: fields)).length = f.bits.length + (bitsOf fields).length :=
      List.length_append
    rw [List.foldl_cons, hbits]
    by_cases hf : f.Written g.attributeFormat
    · obtain ⟨hat, hwritten⟩ := @generateField_spec memory g a b f h hnext hf
      obtain ⟨hat', hle, hlt⟩ := ih hat hrun
      rw [hwritten, List.length_append] at hle hlt
      refine ⟨hat', by omega, fun hw => ?_⟩
      have hrest : ¬ ValuesWritten (g.generateField memory f).attributeFormat fields := by
        rw [attributeFormat_generateField]
        exact fun hrest => hw ⟨hf, hrest⟩
      have := hlt hrest
      omega
    · obtain ⟨heq, rfl, hpos⟩ := @generateField_of_not_written memory g a b f hnext hf
      rw [heq]
      obtain ⟨hat', hle, -⟩ := ih h hrun
      exact ⟨hat', by omega, fun _ => by omega⟩

end

theorem generateContent_eq (memory : ℕ → UInt8) (ps : List PayloadTree) :
    generateContent memory ps = ((PayloadTree.fieldsOf (setNextTypes ps)).foldl
      (Generator.generateField memory) (Generator.create memory)).out := by
  rw [generateContent, generateList_eq _ fun p _ g => generatePayload_eq p g]

/-- The next type is not an attribute. -/
theorem PayloadTree.written_setNextType {p : PayloadTree} (hkind : p.kind.sendable = true)
    (h : p.WellFormed) (t : ℕ) (format : Bool) :
    (ValuesWritten format (p.setNextType t).allFields ↔ ValuesWritten format p.allFields) ∧
      formatAfterAll format (p.setNextType t).allFields = formatAfterAll format p.allFields := by
  obtain ⟨⟨kind, fields⟩, sub⟩ := p
  obtain ⟨types, hrules⟩ := PayloadKind.sendable_first hkind
  obtain ⟨⟨_, v⟩, fields, rfl, rfl, -⟩ := List.map_eq_cons_iff.1 (h.1.trans hrules)
  exact ⟨Iff.rfl, rfl⟩

theorem valuesWritten_setNextTypes {ps : List PayloadTree} (hkind : ∀ p ∈ ps, p.kind.sendable = true)
    (hwf : ∀ p ∈ ps, p.WellFormed) (format : Bool) :
    ValuesWritten format (PayloadTree.fieldsOf (setNextTypes ps)) ↔
      ValuesWritten format (PayloadTree.fieldsOf ps) := by
  induction ps using setNextTypes.induct generalizing format with
  | case1 => rfl
  | case2 p =>
    rw [List.forall_mem_singleton] at hkind hwf
    obtain ⟨hiff, -⟩ := PayloadTree.written_setNextType hkind hwf 0 format
    simp only [setNextTypes, PayloadTree.fieldsOf, List.append_nil, hiff]
  | case3 p q ps ih =>
    rw [List.forall_mem_cons] at hkind hwf
    obtain ⟨hiff, hformat⟩ := PayloadTree.written_setNextType hkind.1 hwf.1 q.kind.type format
    rw [setNextTypes, PayloadTree.fieldsOf, PayloadTree.fieldsOf, valuesWritten_append, valuesWritten_append,
      hiff, hformat, ih hkind.2 hwf.2]

/-- What is written is read back exactly if no value is left out. -/
theorem read_back_iff {memory : ℕ → UInt8} {verify : PayloadTree → Bool} {ps : List PayloadTree}
    (hkind : ∀ p ∈ ps, p.kind.sendable = true) (hwf : ∀ p ∈ ps, p.WellFormed)
    (hverify : ∀ q ∈ setNextTypes ps, verify q = true) :
    parseContent verify (firstType ps) (generateContent memory ps) = (.success, setNextTypes ps) ↔
      ValuesWritten false (PayloadTree.fieldsOf ps) := by
  have hwf' := wellFormed_setNextTypes hkind hwf
  have hrun := fieldsOf_aligned fun q hq => PayloadTree.aligned (hwf' q hq)
  rw [parseContent_iff, generateContent_eq, ← valuesWritten_setNextTypes hkind hwf]
  constructor
  · rintro ⟨-, -, -, hbits⟩
    by_contra hw
    obtain ⟨hat, -, hlt⟩ := @Generator.length_generateFields memory (Generator.create memory) .byte .byte _
      (Generator.at_byte rfl) hrun
    have hshort := hlt hw
    rw [Generator.written_byte hat.bit] at hshort
    have hle := hbits.length_le
    have hzero : (Generator.create memory).written.length = 0 := rfl
    omega
  · intro hw
    have hout := @ofBytes_out_generate memory _ hrun hw
    rw [hout]
    refine ⟨typeChain_setNextTypes hkind, fun q hq => ⟨hwf' q hq, hverify q hq⟩, fun hne => ?_,
      List.prefix_refl _⟩
    obtain ⟨q, qs, hqs⟩ := List.exists_cons_of_ne_nil hne
    have hq : q.kind.sendable = true := by
      have hmem : q.kind ∈ ps.map PayloadTree.kind := by
        rw [← map_kind_setNextTypes, hqs]
        exact List.mem_cons_self
      obtain ⟨p, hp, hpq⟩ := List.mem_map.1 hmem
      exact hpq ▸ hkind p hp
    refine lengthValid_of_prefix hq (hwf' q (hqs ▸ List.mem_cons_self)) ?_
    rw [hout, hqs, bitsOf_fieldsOf_cons]
    exact List.prefix_append _ _

/-! ## The order of the payloads -/

theorem PayloadTree.formatAfterAll_of_no_format {p : PayloadTree} (hkind : p.kind.hasFormat = false)
    (h : p.WellFormed) (format : Bool) : formatAfterAll format p.allFields = format :=
  formatAfterAll_of_not_mem (not_mem_attributeFormat hkind h)

/-- No value is left out if no payload with values is behind one with formats. -/
theorem valuesWritten_of_pairwise {ps : List PayloadTree} (hwf : ∀ p ∈ ps, p.WellFormed)
    (h : ps.Pairwise fun p q => p.kind.hasFormat = true → q.kind.hasValue = false) :
    ValuesWritten false (PayloadTree.fieldsOf ps) := by
  induction ps with
  | nil => trivial
  | cons p ps ih =>
    rw [List.forall_mem_cons] at hwf
    rw [List.pairwise_cons] at h
    rw [PayloadTree.fieldsOf, valuesWritten_append]
    refine ⟨PayloadTree.valuesWritten_false hwf.1, ?_⟩
    by_cases hformat : p.kind.hasFormat = true
    · exact fieldsOf_valuesWritten (fun q hq => PayloadTree.valuesWritten (h.1 q hq hformat) (hwf.2 q hq)) _
    · rw [PayloadTree.formatAfterAll_of_no_format (Bool.eq_false_iff.2 hformat) hwf.1]
      exact ih hwf.2 h.2

/-- The rank of a payload that is no notify depends on its kind only. -/
theorem rank_takes {order : List PayloadOrder} {p : PayloadTree} (hne : p.kind.type ≠ 41) :
    RuleOrder.rank (order.map PayloadOrder.takes) p =
      order.findIdx fun o => decide (p.kind.type = o.type.type) := by
  rw [RuleOrder.rank, List.findIdx_map]
  congr 1
  funext o
  rw [Function.comp_apply, PayloadOrder.takes, decide_eq_decide]
  refine and_iff_left_of_imp fun htype => .inl fun ho => hne ?_
  rw [htype, ho]
  rfl

theorem PayloadKind.eq_configuration {kind : PayloadKind} (h : kind.sendable = true)
    (hvalue : kind.hasValue = true) : kind = .configuration := by
  cases kind with
  | configuration => rfl
  | configurationAttribute => cases h
  | _ => cases hvalue

theorem PayloadKind.eq_securityAssociation {kind : PayloadKind} (h : kind.sendable = true)
    (hformat : kind.hasFormat = true) : kind = .securityAssociation := by
  cases kind with
  | securityAssociation => rfl
  | proposalSubstructure | transformSubstructure | transformAttribute => cases h
  | _ => cases hformat

/-- The rank of the payloads of a kind. -/
def kindRank (order : List PayloadOrder) (kind : PayloadKind) : ℕ :=
  order.findIdx fun o => decide (kind.type = o.type.type)

/-- Payloads of two kinds whose ranks differ are in the order of the ranks. -/
theorem orderPayloads_pairwise {order : List PayloadOrder} {k k' : PayloadKind} (hk : k.type ≠ 41)
    (hk' : k'.type ≠ 41) (hlt : kindRank order k' < kindRank order k) (ps : List PayloadTree) :
    (orderPayloads order ps).Pairwise fun p q => p.kind = k → q.kind ≠ k' := by
  refine (RuleOrder.orderBy_pairwise _ ps).imp fun {p q} hle hp hq => ?_
  subst hp
  subst hq
  rw [rank_takes hk, rank_takes hk'] at hle
  exact absurd hle (Nat.not_le.2 hlt)

theorem configuration_first {exchange : ExchangeType} {request : Bool} {order : List PayloadOrder}
    (horder : messageOrder exchange request = some order) (hne : exchange ≠ .createChildSa) :
    kindRank order .configuration < kindRank order .securityAssociation := by
  cases exchange with
  | ikeAuth | informational => cases request <;> cases horder <;> decide
  | createChildSa => exact absurd rfl hne
  | _ => cases request <;> cases horder

theorem securityAssociation_first {request : Bool} {order : List PayloadOrder}
    (horder : messageOrder .createChildSa request = some order) :
    kindRank order .securityAssociation < kindRank order .configuration := by
  cases request <;> cases horder <;> decide

theorem valuesWritten_orderPayloads {exchange : ExchangeType} {request : Bool} {order : List PayloadOrder}
    {ps : List PayloadTree} (horder : messageOrder exchange request = some order)
    (hne : exchange ≠ .createChildSa) (hkind : ∀ p ∈ ps, p.kind.sendable = true)
    (hwf : ∀ p ∈ ps, p.WellFormed) :
    ValuesWritten false (PayloadTree.fieldsOf (orderPayloads order ps)) := by
  have hmem {p : PayloadTree} (hp : p ∈ orderPayloads order ps) : p ∈ ps := RuleOrder.mem_orderBy.1 hp
  refine valuesWritten_of_pairwise (fun p hp => hwf p (hmem hp)) ?_
  have hpairs := orderPayloads_pairwise (by decide) (by decide) (configuration_first horder hne) ps
  refine hpairs.imp_of_mem fun {p q} hp hq hpq hformat => ?_
  by_contra hvalue
  exact hpq (PayloadKind.eq_securityAssociation (hkind p (hmem hp)) hformat)
    (PayloadKind.eq_configuration (hkind q (hmem hq)) (Bool.not_eq_false _ ▸ hvalue))

/-- In IKE_AUTH and INFORMATIONAL, whatever payloads a message has are ordered, written and read back. -/
theorem parseContent_orderPayloads (memory : ℕ → UInt8) (verify : PayloadTree → Bool)
    (exchange : ExchangeType) (request : Bool) (order : List PayloadOrder) (ps : List PayloadTree)
    (horder : messageOrder exchange request = some order) (hne : exchange ≠ .createChildSa)
    (hkind : ∀ p ∈ ps, p.kind.sendable = true) (hwf : ∀ p ∈ ps, p.WellFormed)
    (hverify : ∀ q ∈ setNextTypes (orderPayloads order ps), verify q = true) :
    (orderPayloads order ps).Perm ps ∧
      parseContent verify (firstType (orderPayloads order ps))
        (generateContent memory (orderPayloads order ps)) =
          (.success, setNextTypes (orderPayloads order ps)) := by
  have hperm : (orderPayloads order ps).Perm ps := RuleOrder.orderBy_perm _ ps
  refine ⟨hperm, (read_back_iff (fun p hp => ?_) (fun p hp => ?_) hverify).2
    (valuesWritten_orderPayloads horder hne hkind hwf)⟩
  · exact hkind p (hperm.mem_iff.1 hp)
  · exact hwf p (hperm.mem_iff.1 hp)

/-- A generic header without a next type and flags. -/
def genericFields (length : UInt16) : List Field :=
  [⟨.uInt8, 0⟩, ⟨.flag, false⟩, ⟨.reservedBit, false⟩, ⟨.reservedBit, false⟩, ⟨.reservedBit, false⟩,
    ⟨.reservedBit, false⟩, ⟨.reservedBit, false⟩, ⟨.reservedBit, false⟩, ⟨.reservedBit, false⟩,
    ⟨.payloadLength, length⟩]

/-- A security association with one proposal, for a key length of 128 bits. -/
def shortSa : PayloadTree :=
  .node ⟨.securityAssociation, genericFields 24⟩ [.node ⟨.proposalSubstructure,
    [⟨.uInt8, 0⟩, ⟨.reservedByte, 0⟩, ⟨.payloadLength, 20⟩, ⟨.uInt8, 1⟩, ⟨.uInt8, 1⟩, ⟨.spiSize, 0⟩,
      ⟨.uInt8, 1⟩, ⟨.spi, []⟩]⟩ [.node ⟨.transformSubstructure,
    [⟨.uInt8, 0⟩, ⟨.reservedByte, 0⟩, ⟨.payloadLength, 12⟩, ⟨.uInt8, 1⟩, ⟨.reservedByte, 0⟩,
      ⟨.uInt16, 12⟩]⟩ [.node ⟨.transformAttribute,
    [⟨.attributeFormat, true⟩, ⟨.attributeType, 14⟩, ⟨.attributeLengthOrValue, 128⟩,
      ⟨.attributeValue, []⟩]⟩ []]]]

/-- A configuration with the request of an address. -/
def addressRequest : PayloadTree :=
  .node ⟨.configuration, genericFields 16 ++
    [⟨.uInt8, 1⟩, ⟨.reservedByte, 0⟩, ⟨.reservedByte, 0⟩, ⟨.reservedByte, 0⟩]⟩
    [.node ⟨.configurationAttribute,
      [⟨.reservedBit, false⟩, ⟨.attributeType, 1⟩, ⟨.attributeLength, 4⟩, ⟨.attributeValue, [10, 0, 0, 1]⟩]⟩
      []]

theorem wellFormed_saAndRequest : ∀ p ∈ [shortSa, addressRequest], p.WellFormed := by decide +kernel

theorem parseContent_orderPayloads_ikeAuth :
    (orderPayloads ikeAuthIOrder [shortSa, addressRequest]).Perm [shortSa, addressRequest] ∧
      parseContent (fun _ => true) (firstType (orderPayloads ikeAuthIOrder [shortSa, addressRequest]))
        (generateContent (fun _ => 0) (orderPayloads ikeAuthIOrder [shortSa, addressRequest])) =
          (.success, setNextTypes (orderPayloads ikeAuthIOrder [shortSa, addressRequest])) :=
  parseContent_orderPayloads (fun _ => 0) (fun _ => true) .ikeAuth true ikeAuthIOrder
    [shortSa, addressRequest] rfl (by decide) (by decide) wellFormed_saAndRequest fun _ _ => rfl

/-! ## A value that is lost -/

/-- The format that fields set does not depend on the format before them. -/
theorem formatAfterAll_true {fields : List Field} (h : formatAfterAll false fields = true) :
    formatAfterAll true fields = true := by
  induction fields with
  | nil => rfl
  | cons f fields ih =>
    replace h : formatAfterAll (f.formatAfter false) fields = true := h
    show formatAfterAll (f.formatAfter true) fields = true
    obtain ⟨t, v⟩ := f
    cases t <;> first | exact ih h | exact h

theorem formatAfterAll_append (format : Bool) (fields fields' : List Field) :
    formatAfterAll format (fields ++ fields') = formatAfterAll (formatAfterAll format fields) fields' :=
  List.foldl_append

theorem fieldsOf_append (ps qs : List PayloadTree) :
    PayloadTree.fieldsOf (ps ++ qs) = PayloadTree.fieldsOf ps ++ PayloadTree.fieldsOf qs := by
  rw [fieldsOf_eq, fieldsOf_eq, fieldsOf_eq, List.flatMap_append]

/-- Payloads that keep the short format. -/
theorem formatAfterAll_fieldsOf {ps : List PayloadTree}
    (hkeep : ∀ p ∈ ps, formatAfterAll true p.allFields = true) :
    formatAfterAll true (PayloadTree.fieldsOf ps) = true := by
  induction ps with
  | nil => rfl
  | cons p ps ih =>
    rw [List.forall_mem_cons] at hkeep
    rw [PayloadTree.fieldsOf, formatAfterAll_append, hkeep.1, ih hkeep.2]

/-- A value behind the short format is empty or it is not written. -/
theorem eq_nil_of_valuesWritten {fields : List Field} {c : Chunk}
    (h : .attributeFormat ∉ fields.map Field.type) (hw : ValuesWritten true fields)
    (hmem : ⟨.attributeValue, c⟩ ∈ fields) : c = [] := by
  obtain ⟨xs, ys, rfl⟩ := List.append_of_mem hmem
  rw [List.map_append, List.mem_append, not_or] at h
  rw [valuesWritten_append, formatAfterAll_of_not_mem h.1] at hw
  exact hw.2.1 rfl

/-- In CREATE_CHILD_SA, the configuration payload comes behind the security association. If that ends with a
short attribute, a configuration with a value is not read back. -/
theorem parseContent_createChildSa_ne (memory : ℕ → UInt8) (verify : PayloadTree → Bool) (request : Bool)
    (order : List PayloadOrder) (ps : List PayloadTree) (sa cp : PayloadTree) (c : Chunk)
    (horder : messageOrder .createChildSa request = some order)
    (hkind : ∀ p ∈ ps, p.kind.sendable = true) (hwf : ∀ p ∈ ps, p.WellFormed)
    (hverify : ∀ q ∈ setNextTypes (orderPayloads order ps), verify q = true)
    (hsa : sa ∈ ps) (hsaKind : sa.kind = .securityAssociation)
    (hshort : ∀ p ∈ ps, p.kind = .securityAssociation → formatAfterAll false p.allFields = true)
    (hcp : cp ∈ ps) (hcpKind : cp.kind = .configuration) (hvalue : ⟨.attributeValue, c⟩ ∈ cp.allFields)
    (hc : c ≠ []) :
    parseContent verify (firstType (orderPayloads order ps))
        (generateContent memory (orderPayloads order ps)) ≠
          (.success, setNextTypes (orderPayloads order ps)) := by
  have hmem {p : PayloadTree} : p ∈ orderPayloads order ps ↔ p ∈ ps := RuleOrder.mem_orderBy
  intro hread
  rw [read_back_iff (fun p hp => hkind p (hmem.1 hp)) (fun p hp => hwf p (hmem.1 hp)) hverify] at hread
  have hpairs := @orderPayloads_pairwise order .configuration .securityAssociation (by decide) (by decide)
    (securityAssociation_first horder) ps
  -- the security association is in front of the configuration
  obtain ⟨xs, ys, hsplit⟩ := List.append_of_mem (hmem.2 hcp)
  have hfront : sa ∈ xs := by
    have hin := hmem.2 hsa
    rw [hsplit] at hpairs hin
    rcases List.mem_append.1 hin with hxs | hys
    · exact hxs
    · rcases List.mem_cons.1 hys with heq | hys
      · rw [heq, hcpKind] at hsaKind
        cases hsaKind
      · exact absurd hsaKind ((List.pairwise_cons.1 (List.pairwise_append.1 hpairs).2.1).1 sa hys hcpKind)
  have hin (p : PayloadTree) (hp : p ∈ xs) : p ∈ ps :=
    hmem.1 (hsplit ▸ List.mem_append_left _ hp)
  have hkeep (p : PayloadTree) (hp : p ∈ xs) : formatAfterAll true p.allFields = true := by
    by_cases hk : p.kind = .securityAssociation
    · exact formatAfterAll_true (hshort p (hin p hp) hk)
    · refine PayloadTree.formatAfterAll_of_no_format (Bool.eq_false_iff.2 fun hf => hk ?_)
        (hwf p (hin p hp)) true
      exact PayloadKind.eq_securityAssociation (hkind p (hin p hp)) hf
  have hformat : formatAfterAll false (PayloadTree.fieldsOf xs) = true := by
    obtain ⟨as, bs, rfl⟩ := List.append_of_mem hfront
    rw [fieldsOf_append, formatAfterAll_append, PayloadTree.fieldsOf, formatAfterAll_append]
    have hsaFormat : formatAfterAll (formatAfterAll false (PayloadTree.fieldsOf as)) sa.allFields = true := by
      cases formatAfterAll false (PayloadTree.fieldsOf as) with
      | false => exact hshort sa hsa hsaKind
      | true => exact hkeep sa hfront
    rw [hsaFormat]
    exact formatAfterAll_fieldsOf fun p hp =>
      hkeep p (List.mem_append_right as (List.mem_cons_of_mem sa hp))
  rw [hsplit, fieldsOf_append, valuesWritten_append, hformat, PayloadTree.fieldsOf, valuesWritten_append]
    at hread
  refine hc (eq_nil_of_valuesWritten (PayloadTree.not_mem_attributeFormat ?_ (hwf cp hcp)) hread.2.1 hvalue)
  rw [hcpKind]
  rfl

theorem parseContent_createChildSa_addressRequest :
    parseContent (fun _ => true) (firstType (orderPayloads createChildSaIOrder [shortSa, addressRequest]))
        (generateContent (fun _ => 0) (orderPayloads createChildSaIOrder [shortSa, addressRequest])) ≠
          (.success, setNextTypes (orderPayloads createChildSaIOrder [shortSa, addressRequest])) :=
  parseContent_createChildSa_ne (fun _ => 0) (fun _ => true) true createChildSaIOrder
    [shortSa, addressRequest] shortSa addressRequest [10, 0, 0, 1] rfl (by decide) wellFormed_saAndRequest
    (fun _ _ => rfl) List.mem_cons_self rfl (by decide) (List.mem_cons_of_mem _ List.mem_cons_self) rfl
    (by decide) (by decide)

end Epdg

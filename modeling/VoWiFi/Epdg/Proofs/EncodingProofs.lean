import VoWiFi.Epdg.Proofs.ParserProofs

/-!
# The parser reads what the generator writes

Lists of substructures are read by a parser of one substructure, and payloads by induction on the depth of
the payloads in them. A payload can be read exactly when it is well-formed and its bits are before the parser,
and these are the bits that the generator writes.
-/

namespace Epdg

open BitString

/-! ## Lists of fields -/

theorem bitsOf_append (fields fields' : List Field) :
    bitsOf (fields ++ fields') = bitsOf fields ++ bitsOf fields' := List.flatMap_append

theorem bitsOf_allFields (p : PayloadFields) (sub : List PayloadTree) :
    bitsOf (PayloadTree.allFields (.node p sub)) = bitsOf p.fields ++ bitsOf (PayloadTree.fieldsOf sub) := by
  rw [PayloadTree.allFields, bitsOf_append]

theorem bitsOf_fieldsOf_cons (p : PayloadTree) (ps : List PayloadTree) :
    bitsOf (PayloadTree.fieldsOf (p :: ps)) = bitsOf p.allFields ++ bitsOf (PayloadTree.fieldsOf ps) := by
  rw [PayloadTree.fieldsOf, bitsOf_append]

theorem PayloadTree.allWellFormed_iff {kind : Option PayloadKind} {ps : List PayloadTree} :
    PayloadTree.AllWellFormed kind ps ↔ ∀ p ∈ ps, kind = some p.kind ∧ PayloadTree.WellFormed p := by
  induction ps with
  | nil => exact ⟨fun _ => by simp, fun _ => trivial⟩
  | cons p ps ih =>
    rw [PayloadTree.AllWellFormed, ih, List.forall_mem_cons, and_assoc]

/-- The first field of every table has at least one bit. -/
theorem bits_pos {kind : PayloadKind} {fields : List Field}
    (h : fields.map Field.type = kind.rules) : 0 < (bitsOf fields).length := by
  cases fields with
  | nil => cases kind <;> cases h
  | cons f fields =>
    rw [bitsOf, List.flatMap_cons, List.length_append]
    refine Nat.add_pos_left ?_ _
    have hfirst : kind.rules.head? = some f.type := by rw [← h]; rfl
    obtain ⟨t, v⟩ := f
    have ht : t = .uInt8 ∨ t = .ikeSpi ∨ t = .tsType ∨ t = .attributeFormat ∨ t = .reservedBit := by
      cases kind <;> cases hfirst <;> simp
    rcases ht with rfl | rfl | rfl | rfl | rfl
    · exact Nat.lt_of_lt_of_eq (Nat.zero_lt_succ 7) (length_ofByte v).symm
    · have hlen := length_ofBytes v.1
      rw [v.2] at hlen
      exact Nat.lt_of_lt_of_eq (Nat.zero_lt_succ 63) hlen.symm
    · exact Nat.lt_of_lt_of_eq (Nat.zero_lt_succ 7) (length_ofByte v).symm
    · exact Nat.zero_lt_one
    · exact Nat.zero_lt_one

theorem PayloadTree.bits_pos {p : PayloadTree} (h : p.WellFormed) : 0 < (bitsOf p.allFields).length := by
  obtain ⟨p, sub⟩ := p
  rw [bitsOf_allFields, List.length_append]
  exact Nat.add_pos_left (Epdg.bits_pos h.1) _

/-! ## Lists of substructures -/

section

variable {p p' : Parser} {kind : PayloadKind}

theorem Parser.length_left (hbit : p.bit = 0) : p.left.length = 8 * p.bytes.length := by
  rw [left_byte hbit, length_ofBytes]

/-- A payload can be read wherever its bits are before a parser. -/
def ReadsBack (parseSub : Parser → Option (PayloadTree × Parser)) (q : PayloadTree) : Prop :=
  ∀ (p : Parser) (rest : List Bool), p.bit = 0 → p.left = bitsOf q.allFields ++ rest →
    ∃ p', parseSub p = some (q, p') ∧ p'.bit = 0 ∧ p'.left = rest

/-- What is read is a well-formed payload of a kind, and its bits were before the parser. -/
def ReadsOnly (parseSub : Parser → Option (PayloadTree × Parser)) (kind : PayloadKind) : Prop :=
  ∀ (p p' : Parser) (q : PayloadTree), p.bit = 0 → parseSub p = some (q, p') →
    q.kind = kind ∧ q.WellFormed ∧ p'.bit = 0 ∧ p.left = bitsOf q.allFields ++ p'.left

variable {parseSub : Parser → Option (PayloadTree × Parser)}

theorem parseList_of_left {ps : List PayloadTree} {fuel length : ℕ} {rest : List Bool}
    (hread : ∀ q ∈ ps, ReadsBack parseSub q) (hpos : ∀ q ∈ ps, 0 < (bitsOf q.allFields).length)
    (hlen : (bitsOf (PayloadTree.fieldsOf ps)).length = 8 * length) (hfuel : length ≤ fuel)
    (hbit : p.bit = 0) (hleft : p.left = bitsOf (PayloadTree.fieldsOf ps) ++ rest) :
    ∃ p', parseList parseSub fuel length p = some (ps, p') ∧ p'.bit = 0 ∧ p'.left = rest := by
  induction ps generalizing p fuel length with
  | nil =>
    have hzero : length = 0 := by
      have : 0 = 8 * length := hlen
      omega
    subst hzero
    exact ⟨p, by cases fuel <;> rfl, hbit, hleft⟩
  | cons q ps ih =>
    rw [List.forall_mem_cons] at hread hpos
    rw [bitsOf_fieldsOf_cons] at hlen hleft
    rw [List.append_assoc] at hleft
    obtain ⟨p₁, hsub, hbit₁, hleft₁⟩ := hread.1 p _ hbit hleft
    -- the bytes that the substructure takes
    have hbytes : 8 * p.bytes.length = (bitsOf q.allFields).length + 8 * p₁.bytes.length := by
      rw [← Parser.length_left hbit, ← Parser.length_left hbit₁, hleft, hleft₁, List.length_append]
    have hposq := hpos.1
    rw [List.length_append] at hlen
    obtain ⟨length, rfl⟩ : ∃ m, length = m + 1 := ⟨length - 1, by omega⟩
    obtain ⟨fuel, rfl⟩ : ∃ m, fuel = m + 1 := ⟨fuel - 1, by omega⟩
    obtain ⟨p', hlist, hbit', hleft'⟩ :=
      @ih p₁ fuel (length + 1 - (p.bytes.length - p₁.bytes.length)) hread.2 hpos.2 (by omega) (by omega)
        hbit₁ hleft₁
    refine ⟨p', ?_, hbit', hleft'⟩
    rw [parseList, hsub]
    simp only [hlist, Option.map_some]
    exact if_pos (by omega)

theorem left_of_parseList {ps : List PayloadTree} {fuel length : ℕ} (hread : ReadsOnly parseSub kind)
    (hbit : p.bit = 0) (h : parseList parseSub fuel length p = some (ps, p')) :
    PayloadTree.AllWellFormed (some kind) ps ∧ p'.bit = 0 ∧
      p.left = bitsOf (PayloadTree.fieldsOf ps) ++ p'.left ∧
      (bitsOf (PayloadTree.fieldsOf ps)).length = 8 * length := by
  induction fuel generalizing p ps length with
  | zero =>
    cases length with
    | zero =>
      cases h
      exact ⟨trivial, hbit, rfl, rfl⟩
    | succ length => cases h
  | succ fuel ih =>
    cases length with
    | zero =>
      cases h
      exact ⟨trivial, hbit, rfl, rfl⟩
    | succ length =>
      rw [parseList] at h
      split at h
      · cases h
      · next q p₁ hsub =>
        obtain ⟨hkind, hwf, hbit₁, hleft₁⟩ := hread p p₁ q hbit hsub
        split at h
        · next hle =>
          rw [Option.map_eq_some_iff] at h
          obtain ⟨⟨qs, p₂⟩, hlist, heq⟩ := h
          cases heq
          obtain ⟨hall, hbit', hleft', hlen⟩ := ih hbit₁ hlist
          refine ⟨⟨by rw [hkind], hwf, hall⟩, hbit', ?_, ?_⟩
          · rw [bitsOf_fieldsOf_cons, List.append_assoc, ← hleft', hleft₁]
          · have hbytes := congrArg List.length hleft₁
            rw [List.length_append, Parser.length_left hbit, Parser.length_left hbit₁] at hbytes
            rw [bitsOf_fieldsOf_cons, List.length_append, hlen]
            omega
        · cases h

/-! ## Payloads -/

variable {parseSub : PayloadKind → Parser → Option (PayloadTree × Parser)}

/-- The loop over the rules and the list at the end, with a parser of the substructures. -/
def parseWith (parseSub : PayloadKind → Parser → Option (PayloadTree × Parser)) (kind : PayloadKind)
    (p : Parser) : Option (PayloadTree × Parser) :=
  (parseRules kind kind.rules {} p).bind fun r => parseSubs parseSub kind r.1 r.2.1 r.2.2

theorem parseWith_readsBack (hread : ∀ s, kind.sub = some s → ∀ q : PayloadTree, q.kind = s → q.WellFormed →
    ReadsBack (parseSub s) q) {q : PayloadTree} (hkind : q.kind = kind) (hwf : q.WellFormed) :
    ReadsBack (parseWith parseSub kind) q := by
  intro p rest hbit hleft
  obtain ⟨⟨k, fields⟩, sub⟩ := q
  obtain rfl : k = kind := hkind
  obtain ⟨htypes, hfits, hlen, hsub⟩ := hwf
  rw [bitsOf_allFields, List.append_assoc] at hleft
  obtain ⟨p₁, hrules, hbit₁, hleft₁⟩ := @parseRules_of_left p k {} .byte .byte fields _ hbit
    (Nat.zero_lt_succ 7) ((congrArg Align.byte.run htypes).trans (aligned_rules k)) hfits hleft
  have hbit₁ : p₁.bit = 0 := hbit₁
  replace hrules : parseRules k k.rules {} p = some (fields, ParseContext.afterAll {} fields, p₁) :=
    htypes ▸ hrules
  rw [parseWith, hrules, Option.bind_some, parseSubs]
  rw [PayloadTree.allWellFormed_iff] at hsub
  dsimp only at hlen hsub
  split
  · next hnone =>
    obtain rfl : sub = [] := by
      refine List.eq_nil_iff_forall_not_mem.2 fun q hq => ?_
      have := (hsub q hq).1
      rw [hnone] at this
      cases this
    exact ⟨p₁, rfl, hbit₁, hleft₁⟩
  · next s hs =>
    rw [hs] at hlen hsub
    specialize hlen rfl
    have hle : k.headerLength (ParseContext.afterAll {} fields).spiSize ≤
        (ParseContext.afterAll {} fields).payloadLength := by omega
    obtain ⟨p', hlist, hbit', hleft'⟩ := @parseList_of_left p₁ (parseSub s) sub
      ((ParseContext.afterAll {} fields).payloadLength -
        k.headerLength (ParseContext.afterAll {} fields).spiSize) _ rest
      (fun q hq => hread s hs q (Option.some.inj (hsub q hq).1).symm (hsub q hq).2)
      (fun q hq => PayloadTree.bits_pos (hsub q hq).2) (by omega) le_rfl hbit₁ hleft₁
    refine ⟨p', ?_, hbit', hleft'⟩
    simp only [hlist, Option.map_some]
    rw [if_neg (Nat.not_lt.2 hle), if_neg (not_not.2 hbit₁)]

theorem parseWith_readsOnly (hread : ∀ s, kind.sub = some s → ReadsOnly (parseSub s) s) :
    ReadsOnly (parseWith parseSub kind) kind := by
  intro p p' q hbit h
  rw [parseWith, Option.bind_eq_some_iff] at h
  obtain ⟨⟨fields, ctx, p₁⟩, hrules, h⟩ := h
  obtain ⟨htypes, hfits, rfl, hbit₁, hleft₁⟩ :=
    @left_of_parseRules p p₁ kind {} .byte .byte kind.rules fields ctx hbit (Nat.zero_lt_succ 7)
      (aligned_rules kind) hrules
  have hbit₁ : p₁.bit = 0 := hbit₁
  dsimp only [parseSubs] at h
  split at h
  · next hnone =>
    cases h
    refine ⟨rfl, ⟨htypes, hfits, ?_, trivial⟩, hbit₁, ?_⟩
    · dsimp only
      intro hsome
      rw [hnone] at hsome
      cases hsome
    · rw [hleft₁, bitsOf_allFields]
      simp [PayloadTree.fieldsOf, bitsOf]
  · next s hs =>
    split at h
    · cases h
    · next hle =>
      split at h
      · cases h
      · rw [Option.map_eq_some_iff] at h
        obtain ⟨⟨sub, p₂⟩, hlist, heq⟩ := h
        cases heq
        obtain ⟨hall, hbit', hleft', hlen⟩ := left_of_parseList (hread s hs) hbit₁ hlist
        refine ⟨rfl, ⟨htypes, hfits, ?_, hs ▸ hall⟩, hbit', ?_⟩
        · dsimp only
          intro _
          omega
        · rw [hleft₁, hleft', bitsOf_allFields, List.append_assoc]

/-- The payloads in a payload are nested less deep. -/
theorem PayloadKind.depth_sub {s : PayloadKind} (h : kind.sub = some s) : s.depth < kind.depth := by
  cases kind <;> cases h <;> exact of_decide_eq_true rfl

theorem parsePayloadAt_readsBack {depth : ℕ} (hdepth : kind.depth ≤ depth) {q : PayloadTree}
    (hkind : q.kind = kind) (hwf : q.WellFormed) : ReadsBack (parsePayloadAt depth kind) q := by
  induction depth generalizing kind q with
  | zero =>
    refine @parseWith_readsBack kind (fun _ _ => none) (fun s hs => ?_) q hkind hwf
    have := PayloadKind.depth_sub hs
    omega
  | succ depth ih =>
    refine @parseWith_readsBack kind (parsePayloadAt depth) (fun s hs q hq hwf => ?_) q hkind hwf
    have := PayloadKind.depth_sub hs
    exact ih (by omega) hq hwf

theorem parsePayloadAt_readsOnly {depth : ℕ} (hdepth : kind.depth ≤ depth) :
    ReadsOnly (parsePayloadAt depth kind) kind := by
  induction depth generalizing kind with
  | zero =>
    refine @parseWith_readsOnly kind (fun _ _ => none) fun s hs => ?_
    have := PayloadKind.depth_sub hs
    omega
  | succ depth ih =>
    refine @parseWith_readsOnly kind (parsePayloadAt depth) fun s hs => ih ?_
    have := PayloadKind.depth_sub hs
    omega

end

/-! ## What is written -/

/-- The table has an attribute format, or a payload in the payload has. -/
def PayloadKind.hasFormat : PayloadKind → Bool
  | securityAssociation | proposalSubstructure | transformSubstructure | transformAttribute => true
  | _ => false

/-- The table has an attribute value without a format, or a payload in the payload has. -/
def PayloadKind.hasValue : PayloadKind → Bool
  | configuration | configurationAttribute => true
  | _ => false

theorem PayloadKind.hasFormat_sub {kind s : PayloadKind} (h : kind.sub = some s) :
    s.hasFormat = kind.hasFormat := by
  cases kind <;> cases h <;> rfl

theorem PayloadKind.hasValue_sub {kind s : PayloadKind} (h : kind.sub = some s) :
    s.hasValue = kind.hasValue := by
  cases kind <;> cases h <;> rfl

/-- The format of the last attribute after a list of fields. -/
def formatAfterAll (format : Bool) (fields : List Field) : Bool :=
  fields.foldl (fun b f => f.formatAfter b) format

theorem valuesWritten_append {format : Bool} {fields fields' : List Field} :
    ValuesWritten format (fields ++ fields') ↔
      ValuesWritten format fields ∧ ValuesWritten (formatAfterAll format fields) fields' := by
  induction fields generalizing format with
  | nil => exact (iff_of_eq (true_and _)).symm
  | cons f fields ih =>
    rw [List.cons_append, ValuesWritten, ValuesWritten, ih, and_assoc]
    rfl

theorem formatAfterAll_of_not_mem {format : Bool} {fields : List Field}
    (h : .attributeFormat ∉ fields.map Field.type) : formatAfterAll format fields = format := by
  induction fields with
  | nil => rfl
  | cons f fields ih =>
    rw [List.map_cons, List.mem_cons, not_or] at h
    have hf : f.formatAfter format = format := by
      obtain ⟨t, v⟩ := f
      cases t <;> first | rfl | exact absurd rfl h.1
    show formatAfterAll (f.formatAfter format) fields = format
    rw [hf, ih h.2]

theorem valuesWritten_of_not_mem_format {fields : List Field}
    (h : .attributeFormat ∉ fields.map Field.type) : ValuesWritten false fields := by
  induction fields with
  | nil => trivial
  | cons f fields ih =>
    rw [List.map_cons, List.mem_cons, not_or] at h
    obtain ⟨t, v⟩ := f
    cases t <;> first | exact ⟨trivial, ih h.2⟩ | exact absurd rfl h.1 |
      exact ⟨fun hf => absurd hf Bool.false_ne_true, ih h.2⟩

theorem valuesWritten_of_not_mem_value {format : Bool} {fields : List Field}
    (h : .attributeValue ∉ fields.map Field.type) : ValuesWritten format fields := by
  induction fields generalizing format with
  | nil => trivial
  | cons f fields ih =>
    rw [List.map_cons, List.mem_cons, not_or] at h
    obtain ⟨t, v⟩ := f
    cases t <;> first | exact ⟨trivial, ih h.2⟩ | exact absurd rfl h.1

/-- The value of a transform attribute is empty if its format is set. -/
theorem valuesWritten_transformAttribute {format : Bool} {fields : List Field}
    (htypes : fields.map Field.type = PayloadKind.transformAttribute.rules)
    (hfits : FieldsFit .transformAttribute {} fields) : ValuesWritten format fields := by
  obtain ⟨⟨_, b⟩, fields₁, rfl, rfl, htypes₁⟩ := List.map_eq_cons_iff.1 htypes
  obtain ⟨⟨_, _⟩, fields₂, rfl, rfl, htypes₂⟩ := List.map_eq_cons_iff.1 htypes₁
  obtain ⟨⟨_, _⟩, fields₃, rfl, rfl, htypes₃⟩ := List.map_eq_cons_iff.1 htypes₂
  obtain ⟨⟨_, c⟩, fields₄, rfl, rfl, htypes₄⟩ := List.map_eq_cons_iff.1 htypes₃
  obtain rfl := List.map_eq_nil_iff.1 htypes₄
  refine ⟨trivial, trivial, trivial, fun hb => ?_, trivial⟩
  have hb : b = true := hb
  have hlen := hfits.2.2.2.1
  subst hb
  exact List.length_eq_zero_iff.1 hlen

theorem valuesWritten_fields {kind : PayloadKind} {fields : List Field} (hkind : kind.hasValue = false)
    (htypes : fields.map Field.type = kind.rules) (hfits : FieldsFit kind {} fields) (format : Bool) :
    ValuesWritten format fields := by
  by_cases hattr : kind = .transformAttribute
  · subst hattr
    exact valuesWritten_transformAttribute htypes hfits
  · refine valuesWritten_of_not_mem_value ?_
    rw [htypes]
    cases kind <;> first | exact of_decide_eq_true rfl | exact absurd rfl hattr | cases hkind

theorem fieldsOf_eq (ps : List PayloadTree) :
    PayloadTree.fieldsOf ps = ps.flatMap PayloadTree.allFields := by
  induction ps with
  | nil => rfl
  | cons p ps ih => rw [PayloadTree.fieldsOf, ih, List.flatMap_cons]

theorem fieldsOf_valuesWritten {ps : List PayloadTree}
    (h : ∀ p ∈ ps, ∀ format, ValuesWritten format p.allFields) (format : Bool) :
    ValuesWritten format (PayloadTree.fieldsOf ps) := by
  induction ps generalizing format with
  | nil => trivial
  | cons p ps ih =>
    rw [List.forall_mem_cons] at h
    rw [PayloadTree.fieldsOf, valuesWritten_append]
    exact ⟨h.1 format, ih h.2 _⟩

theorem fieldsOf_aligned {ps : List PayloadTree}
    (h : ∀ p ∈ ps, Align.byte.run (p.allFields.map Field.type) = some .byte) :
    Align.byte.run ((PayloadTree.fieldsOf ps).map Field.type) = some .byte := by
  induction ps with
  | nil => rfl
  | cons p ps ih =>
    rw [List.forall_mem_cons] at h
    rw [PayloadTree.fieldsOf, List.map_append, Align.run_append, h.1, Option.bind_some, ih h.2]

namespace PayloadTree

/-- A payload without values of its own is written whatever the last format was. -/
theorem valuesWritten {p : PayloadTree} (hkind : p.kind.hasValue = false) (h : p.WellFormed)
    (format : Bool) : ValuesWritten format p.allFields := by
  induction p using RoseTree.induction generalizing format with
  | h p sub ih =>
    obtain ⟨htypes, hfits, -, hsub⟩ := h
    rw [allWellFormed_iff] at hsub
    rw [allFields, valuesWritten_append]
    refine ⟨valuesWritten_fields hkind htypes hfits format, fieldsOf_valuesWritten (fun q hq => ?_) _⟩
    exact ih q hq ((PayloadKind.hasValue_sub (hsub q hq).1).trans hkind) (hsub q hq).2

theorem not_mem_attributeFormat {p : PayloadTree} (hkind : p.kind.hasFormat = false)
    (h : p.WellFormed) : .attributeFormat ∉ p.allFields.map Field.type := by
  induction p using RoseTree.induction with
  | h p sub ih =>
    obtain ⟨htypes, -, -, hsub⟩ := h
    rw [allWellFormed_iff] at hsub
    rw [allFields, List.map_append, List.mem_append, htypes, not_or, fieldsOf_eq, List.map_flatMap,
      List.mem_flatMap]
    constructor
    · have hkind : p.kind.hasFormat = false := hkind
      revert hkind
      generalize p.kind = kind
      cases kind <;> intro hkind <;> first | exact of_decide_eq_true rfl | cases hkind
    · rintro ⟨q, hq, hmem⟩
      exact ih q hq ((PayloadKind.hasFormat_sub (hsub q hq).1).trans hkind) (hsub q hq).2 hmem

theorem valuesWritten_false {p : PayloadTree} (h : p.WellFormed) : ValuesWritten false p.allFields := by
  by_cases hkind : p.kind.hasValue = true
  · refine valuesWritten_of_not_mem_format (not_mem_attributeFormat ?_ h)
    revert hkind
    generalize p.kind = kind
    cases kind <;> intro hkind <;> first | rfl | cases hkind
  · exact valuesWritten (Bool.eq_false_iff.2 hkind) h false

theorem aligned {p : PayloadTree} (h : p.WellFormed) :
    Align.byte.run (p.allFields.map Field.type) = some .byte := by
  induction p using RoseTree.induction with
  | h p sub ih =>
    obtain ⟨htypes, -, -, hsub⟩ := h
    rw [allWellFormed_iff] at hsub
    rw [allFields, List.map_append, Align.run_append, htypes, aligned_rules, Option.bind_some]
    exact fieldsOf_aligned fun q hq => ih q hq (hsub q hq).2

end PayloadTree

variable {memory : ℕ → UInt8}

/-- Fields that are written from the beginning and end with a byte. -/
theorem ofBytes_out_generate {fields : List Field}
    (hrun : Align.byte.run (fields.map Field.type) = some .byte) (hw : ValuesWritten false fields) :
    ofBytes (fields.foldl (Generator.generateField memory) (Generator.create memory)).out =
      bitsOf fields := by
  obtain ⟨hat, hwritten⟩ := @Generator.generateFields_spec memory (Generator.create memory) .byte .byte fields
    (Generator.at_byte rfl) hrun hw
  rw [Generator.written_byte hat.bit] at hwritten
  rw [hwritten, Generator.written_byte rfl]
  rfl

theorem ofBytes_out_generatePayload {q : PayloadTree} (hwf : q.WellFormed) :
    ofBytes (generatePayload memory q (Generator.create memory)).out = bitsOf q.allFields := by
  rw [generatePayload_eq]
  exact ofBytes_out_generate (PayloadTree.aligned hwf) (PayloadTree.valuesWritten_false hwf)

/-- What the generator writes for a well-formed payload is read back. -/
theorem parsePayload_generatePayload {q : PayloadTree} (hwf : q.WellFormed) (rest : Chunk) :
    parsePayload q.kind ⟨(generatePayload memory q (Generator.create memory)).out ++ rest, 0⟩ =
      some (q, ⟨rest, 0⟩) := by
  have hleft : Parser.left ⟨(generatePayload memory q (Generator.create memory)).out ++ rest, 0⟩ =
      bitsOf q.allFields ++ ofBytes rest := by
    rw [Parser.left_byte rfl, ofBytes_append, ofBytes_out_generatePayload hwf]
  obtain ⟨⟨bytes, bit⟩, hr, hbit, hleft'⟩ := parsePayloadAt_readsBack le_rfl rfl hwf _ _ rfl hleft
  obtain rfl : bit = 0 := hbit
  rw [Parser.left_byte rfl] at hleft'
  obtain rfl : bytes = rest := ofBytes_injective hleft'
  exact hr

/-- A payload is read exactly when it is well-formed and the bytes begin with those that the generator writes
for it. -/
theorem parsePayload_iff (memory : ℕ → UInt8) (kind : PayloadKind) (bytes : Chunk) (q : PayloadTree)
    (p' : Parser) :
    parsePayload kind ⟨bytes, 0⟩ = some (q, p') ↔
      q.kind = kind ∧ q.WellFormed ∧ p'.bit = 0 ∧
        bytes = (generatePayload memory q (Generator.create memory)).out ++ p'.bytes := by
  constructor
  · intro h
    obtain ⟨hkind, hwf, hbit, hleft⟩ := parsePayloadAt_readsOnly le_rfl _ _ _ rfl h
    refine ⟨hkind, hwf, hbit, ofBytes_injective ?_⟩
    rw [ofBytes_append, ofBytes_out_generatePayload hwf, ← Parser.left_byte hbit, ← hleft]
    exact (@Parser.left_byte ⟨bytes, 0⟩ rfl).symm
  · rintro ⟨rfl, hwf, hbit, rfl⟩
    obtain ⟨bytes, bit⟩ := p'
    obtain rfl : bit = 0 := hbit
    exact parsePayload_generatePayload hwf bytes

end Epdg

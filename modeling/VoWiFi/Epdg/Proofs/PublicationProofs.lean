import VoWiFi.Epdg.Proofs.DecoderProofs
import VoWiFi.Epdg.Publication

/-!
# One publication for each message

Inside a block the decoder always has a current node, and this node has a parent after the line of an
attribute. Every line of a subtree keeps that and publishes nothing (`exists_silent`), by induction over
the tree; the line that closes the message publishes.
-/

namespace Epdg

open Control

/-! ## Sequences of lines -/

theorem decodeEach_cons {d d' : Decoder} {l : Text} {q : Option Query}
    (h : d.decodeLine l = .ok (d', q)) (ls : List Text) :
    d.decodeEach (l :: ls) = (d'.decodeEach ls).map fun r => (r.1, q :: r.2) := by
  rw [Decoder.decodeEach, h]
  cases hr : d'.decodeEach ls <;> simp [bind, Except.bind, pure, Except.pure, Except.map, hr]

theorem decodeEach_cons_eq_ok {d : Decoder} {l : Text} {ls : List Text}
    {r : Decoder × List (Option Query)} (h : d.decodeEach (l :: ls) = .ok r) :
    ∃ d' q r', d.decodeLine l = .ok (d', q) ∧ d'.decodeEach ls = .ok r' ∧ r = (r'.1, q :: r'.2) := by
  cases hl : d.decodeLine l with
  | error e => simp [Decoder.decodeEach, hl, bind, Except.bind] at h
  | ok p =>
    obtain ⟨d', q⟩ := p
    rw [decodeEach_cons hl] at h
    cases hls : d'.decodeEach ls with
    | error e =>
      rw [hls] at h
      cases h
    | ok r' =>
      rw [hls] at h
      exact ⟨d', q, r', rfl, hls, (Except.ok.inj h).symm⟩

theorem decodeEach_append {d d' : Decoder} {ls : List Text} {ps : List (Option Query)}
    (h : d.decodeEach ls = .ok (d', ps)) (ms : List Text) :
    d.decodeEach (ls ++ ms) = (d'.decodeEach ms).map fun r => (r.1, ps ++ r.2) := by
  induction ls generalizing d ps with
  | nil =>
    rw [Decoder.decodeEach, Except.ok.injEq, Prod.mk.injEq] at h
    obtain ⟨rfl, rfl⟩ := h
    rw [List.nil_append]
    cases d.decodeEach ms <;> rfl
  | cons l ls ih =>
    obtain ⟨d₁, q, ⟨d₂, qs⟩, hl, hls, hr⟩ := decodeEach_cons_eq_ok h
    obtain ⟨rfl, rfl⟩ := Prod.mk.inj hr
    rw [List.cons_append, decodeEach_cons hl, ih hls]
    cases d'.decodeEach ms <;> rfl

/-- Lines that are decoded fit into the buffer. -/
theorem length_lt_of_decodeEach {d : Decoder} {ls : List Text} {r : Decoder × List (Option Query)}
    (h : d.decodeEach ls = .ok r) : ∀ l ∈ ls, l.length < maxMessageLen := by
  induction ls generalizing d r with
  | nil => exact List.forall_mem_nil _
  | cons l ls ih =>
    obtain ⟨d', q, r', hl, hls, -⟩ := decodeEach_cons_eq_ok h
    exact List.forall_mem_cons.2 ⟨length_lt_of_decodeLine hl, ih hls⟩

/-! ## Inside a block -/

/-- The decoder is inside a block. -/
structure Decoder.Open (d : Decoder) : Prop where
  depth : 1 ≤ d.depth
  query : ∃ c, d.query = some c ∧ (d.ptype = msgTypeAttribute → 0 < c.depth)

/-- The lines take the decoder to another state inside a block and publish nothing. -/
structure Silent (d : Decoder) (ls : List Text) (d' : Decoder) : Prop where
  run : d.decodeEach ls = .ok (d', List.replicate ls.length none)
  opened : d'.Open

theorem Silent.append {d d₁ d₂ : Decoder} {ls ms : List Text} (h₁ : Silent d ls d₁)
    (h₂ : Silent d₁ ms d₂) : Silent d (ls ++ ms) d₂ where
  run := by
    rw [decodeEach_append h₁.run, h₂.run, List.length_append, List.replicate_add]
    rfl
  opened := h₂.opened

theorem Silent.single {d d' : Decoder} {l : Text} (h : d.decodeLine l = .ok (d', none))
    (hopen : d'.Open) : Silent d [l] d' where
  run := by
    rw [decodeEach_cons h]
    rfl
  opened := hopen

section Line

variable {d : Decoder} {s : Spis} {it : Item}

theorem exists_silent_attribute (hd : d.Open) (hne : javaText it.name ≠ []) (ht : it.type = .attribute)
    (hlen : (it.line s).length < maxMessageLen) :
    ∃ d', Silent d [it.line s] d' ∧ d'.depth = d.depth := by
  obtain ⟨query, k, p⟩ := d
  obtain ⟨c, rfl, hc⟩ := hd.query
  have hk : 1 ≤ k := hd.depth
  obtain ⟨q, hq⟩ : ∃ q : Cursor QNode, if p = msgTypeAttribute then c.parent? = some q else c = q := by
    by_cases hp : p = msgTypeAttribute
    · obtain ⟨q, hq, -, -⟩ := Cursor.exists_parent (hc hp)
      exact ⟨q, by rwa [if_pos hp]⟩
    · exact ⟨c, by rw [if_neg hp]⟩
  refine ⟨_, .single (decodeLine_attribute hne ht hlen (show k ≠ 0 by omega) hq) ⟨hk, _, rfl, ?_⟩, rfl⟩
  intro _
  rw [Cursor.depth_addSub]
  omega

theorem exists_silent_start (hd : d.Open) (hne : javaText it.name ≠ []) (ht : it.type ≠ .attribute)
    (hlen : (it.line s).length < maxMessageLen) :
    ∃ d', Silent d [it.line s] d' ∧ d'.depth = d.depth + 1 := by
  obtain ⟨query, k, p⟩ := d
  obtain ⟨c, rfl, -⟩ := hd.query
  have hk : 1 ≤ k := hd.depth
  refine ⟨_, .single (decodeLine_start hne ht hlen (show k + 1 ≠ 0 by omega)) ⟨?_, _, rfl, ?_⟩, rfl⟩
  · show 1 ≤ k + 1
    omega
  · intro h
    exact absurd h (show msgTypeBlockStart ≠ msgTypeAttribute by decide)

theorem exists_silent_end (hd : d.Open) (hk : 2 ≤ d.depth) :
    ∃ d', Silent d [endLine s] d' ∧ d'.depth = d.depth - 1 := by
  obtain ⟨query, k, p⟩ := d
  obtain ⟨c, rfl, -⟩ := hd.query
  have hk : 2 ≤ k := hk
  refine ⟨_, .single (decodeLine_end (show k ≠ 1 by omega)) ⟨?_, _, rfl, ?_⟩, rfl⟩
  · show 1 ≤ k - 1
    omega
  · intro h
    exact absurd h (show msgTypeBlockEnd ≠ msgTypeAttribute by decide)

end Line

/-! ## Subtrees -/

theorem LineTexts.name_ne {it : Item} (h : LineTexts it) : javaText it.name ≠ [] := by
  obtain ⟨n, hname, hn⟩ := h.name
  rw [hname]
  exact hn.1

/-- The lines of several subtrees, given what the lines of each of them do. -/
theorem exists_silent_flatMap {s : Spis} {ts : List Testcase}
    (h : ∀ t ∈ ts, ∀ d : Decoder, d.Open →
      ∃ d', Silent d (sendMessage s t).1 d' ∧ d'.depth = d.depth) {d : Decoder} (hd : d.Open) :
    ∃ d', Silent d (ts.flatMap fun t => (sendMessage s t).1) d' ∧ d'.depth = d.depth := by
  induction ts generalizing d with
  | nil => exact ⟨d, ⟨rfl, hd⟩, rfl⟩
  | cons t ts ih =>
    rw [List.forall_mem_cons] at h
    obtain ⟨d₁, hrun₁, hdepth₁⟩ := h.1 d hd
    obtain ⟨d₂, hrun₂, hdepth₂⟩ := ih h.2 hrun₁.opened
    rw [List.flatMap_cons]
    exact ⟨d₂, hrun₁.append hrun₂, hdepth₂.trans hdepth₁⟩

/-- The lines of a subtree publish nothing and bring the decoder back to its depth. -/
theorem exists_silent {s : Spis} {t : Testcase} (htexts : t.All LineTexts)
    (hfits : ∀ l ∈ (sendMessage s t).1, l.length < maxMessageLen) {d : Decoder} (hd : d.Open) :
    ∃ d', Silent d (sendMessage s t).1 d' ∧ d'.depth = d.depth := by
  induction t using RoseTree.induction generalizing d with
  | h it ts ih =>
    obtain ⟨hit, htexts⟩ := (RoseTree.all_node _ _ _).1 htexts
    obtain ⟨us, hus, hlines⟩ := exists_sendMessage_lines s it ts
    rw [hlines] at hfits ⊢
    have hline : (it.line s).length < maxMessageLen := hfits _ List.mem_cons_self
    have hsub : ∀ t ∈ us, ∀ l ∈ (sendMessage s t).1, l.length < maxMessageLen := by
      intro t ht l hl
      apply hfits
      rw [List.cons_append, List.mem_cons, List.mem_append, List.mem_flatMap]
      exact .inr (.inl ⟨t, ht, hl⟩)
    have hchildren : ∀ d : Decoder, d.Open → ∃ d', Silent d (us.flatMap fun t => (sendMessage s t).1) d' ∧
        d'.depth = d.depth := by
      intro d hd
      refine exists_silent_flatMap (fun t ht d hd => ?_) hd
      exact ih t (hus.subset ht) (htexts t (hus.subset ht)) (hsub t ht) hd
    by_cases ht : it.type = .attribute
    · -- an attribute opens no block, whether or not it has children
      obtain ⟨d₁, hstart, hdepth₁⟩ := exists_silent_attribute hd hit.name_ne ht hline
      obtain ⟨d₂, hrun, hdepth₂⟩ := hchildren d₁ hstart.opened
      rw [Item.closing, if_neg (not_not.2 ht), List.append_nil]
      exact ⟨d₂, hstart.append hrun, hdepth₂.trans hdepth₁⟩
    · obtain ⟨d₁, hstart, hdepth₁⟩ := exists_silent_start hd hit.name_ne ht hline
      obtain ⟨d₂, hrun, hdepth₂⟩ := hchildren d₁ hstart.opened
      have hdepth := hd.depth
      obtain ⟨d₃, hend, hdepth₃⟩ := exists_silent_end (s := s) hrun.opened (by omega)
      rw [Item.closing, if_pos ht]
      refine ⟨d₃, (hstart.append hrun).append hend, ?_⟩
      omega

/-! ## Messages -/

/-- A message whose lines fit publishes one query at its last line. -/
theorem exists_decodeEach_message {m : SentMessage} (hfits : ∀ l ∈ m.lines, l.length < maxMessageLen) :
    ∃ q, ∀ p, Decoder.decodeEach ⟨none, 0, p⟩ m.lines =
      .ok (⟨none, 0, msgTypeBlockEnd⟩, m.publications q) := by
  obtain ⟨s, ⟨it, ts⟩, hroot, htexts⟩ := m
  have ht : it.type ≠ .attribute := by
    rw [show it.type = .message from hroot]
    nofun
  obtain ⟨hit, htexts⟩ := (RoseTree.all_node _ _ _).1 htexts
  obtain ⟨us, hus, hlines⟩ := exists_sendMessage_lines s it ts
  simp only [SentMessage.publications, SentMessage.lines, hlines, Item.closing, ht, ne_eq,
    not_false_eq_true, if_true] at hfits ⊢
  have hopen : Decoder.Open ⟨some (.single (readFields it)), 1, msgTypeBlockStart⟩ :=
    ⟨le_rfl, _, rfl, fun h => absurd h (show msgTypeBlockStart ≠ msgTypeAttribute by decide)⟩
  have hsub : ∀ t ∈ us, ∀ l ∈ (sendMessage s t).1, l.length < maxMessageLen := by
    intro t ht l hl
    apply hfits
    rw [List.cons_append, List.mem_cons, List.mem_append, List.mem_flatMap]
    exact .inr (.inl ⟨t, ht, hl⟩)
  obtain ⟨⟨query, k, p'⟩, hrun, hdepth⟩ := exists_silent_flatMap
    (fun t ht d hd => exists_silent (htexts t (hus.subset ht)) (hsub t ht) hd) hopen
  obtain ⟨c, rfl, -⟩ := hrun.opened.query
  obtain rfl : k = 1 := hdepth
  refine ⟨(c.parent?.getD c).tree, fun p => ?_⟩
  have hfirst := decodeLine_root (s := s) (p := p) hit.name_ne ht (hfits _ List.mem_cons_self)
  rw [List.cons_append, decodeEach_cons hfirst, decodeEach_append hrun.run,
    decodeEach_cons decodeLine_last]
  simp [Decoder.decodeEach, Except.map, List.replicate_succ]

theorem newline_notMem_spis (s : Spis) : '\n' ∉ s.text := by
  have hspi : ∀ o : Option Spi, '\n' ∉ spiText o := by
    intro o
    cases o with
    | none => decide
    | some i => exact i.2.2
  rw [Spis.text, List.mem_append, not_or]
  exact ⟨hspi _, hspi _⟩

theorem isLine_endLine (s : Spis) : Text.IsLine (endLine s) := by
  refine ⟨'3' :: s.text, rfl, ?_⟩
  rw [List.mem_cons, not_or]
  exact ⟨by decide, newline_notMem_spis s⟩

theorem isLine_line {s : Spis} {it : Item} (h : LineTexts it) : Text.IsLine (it.line s) := by
  obtain ⟨n, hname, hn⟩ := h.name
  have hdigits : ∀ vt : ValueType, '\n' ∉ Nat.toDigits 10 vt.getValueTypeAsInteger := by
    intro vt
    cases vt <;> decide
  have hsuffix : '\n' ∉ it.suffix := by
    rw [Item.suffix]
    cases ho : it.op with
    | none => exact List.not_mem_nil
    | some o =>
      have ho := h.op o ho
      cases hv : it.value with
      | none =>
        simp only [List.mem_cons, not_or]
        exact ⟨by decide, ho⟩
      | some v =>
        have hv := h.value v hv
        simp only [List.mem_cons, List.mem_append, not_or, List.cons_append]
        exact ⟨by decide, ⟨ho, by decide, hdigits _⟩, by decide, hv⟩
  have hmark : '\n' ≠ it.mark := by
    rw [Item.mark]
    split <;> decide
  refine ⟨it.mark :: s.text ++ javaText it.name ++ it.suffix, rfl, ?_⟩
  simp only [List.cons_append, List.mem_cons, List.mem_append, not_or, hname]
  exact ⟨hmark, ⟨newline_notMem_spis s, hn.2.2⟩, hsuffix⟩

theorem isLine_of_mem_lines {m : SentMessage} {l : Text} (hl : l ∈ m.lines) : Text.IsLine l := by
  rcases mem_lines m.spis m.texts hl with ⟨it, hit, rfl⟩ | rfl
  · exact isLine_line hit
  · exact isLine_endLine m.spis

/-- A stream of messages is cut into their lines. -/
theorem cutLines_messages (ms : List SentMessage) :
    Text.cutLines (ms.flatMap SentMessage.lines).flatten = ms.flatMap SentMessage.lines := by
  apply Text.cutLines_flatten
  intro l hl
  obtain ⟨m, -, hl⟩ := List.mem_flatMap.1 hl
  exact isLine_of_mem_lines hl

theorem cutLines_message (m : SentMessage) : Text.cutLines m.lines.flatten = m.lines :=
  Text.cutLines_flatten fun _ hl => isLine_of_mem_lines hl

/-- The stream of several messages, from an empty decoder. -/
theorem exists_decodeEach_messages {ms : List SentMessage}
    (hfits : ∀ m ∈ ms, ∀ l ∈ m.lines, l.length < maxMessageLen) :
    ∃ qs, List.Forall₂ SentMessage.Publishes ms qs ∧ ∀ p, ∃ p',
      Decoder.decodeEach ⟨none, 0, p⟩ (ms.flatMap SentMessage.lines) =
        .ok (⟨none, 0, p'⟩, (ms.zip qs).flatMap fun mq => mq.1.publications mq.2) := by
  induction ms with
  | nil => exact ⟨[], .nil, fun p => ⟨p, rfl⟩⟩
  | cons m ms ih =>
    rw [List.forall_mem_cons] at hfits
    obtain ⟨q, hq⟩ := exists_decodeEach_message hfits.1
    obtain ⟨qs, hqs, hrun⟩ := ih hfits.2
    refine ⟨q :: qs, .cons ⟨msgTypeBlockEnd, ?_⟩ hqs, fun p => ?_⟩
    · rw [cutLines_message]
      exact hq _
    · -- the next message starts where this one ended, with no current query
      obtain ⟨p', hp'⟩ := hrun msgTypeBlockEnd
      refine ⟨p', ?_⟩
      rw [List.flatMap_cons, decodeEach_append (hq p), hp']
      rfl

/-- The messages are published one by one exactly when none of their lines overruns the buffer. -/
theorem oncePerMessage_iff (ms : List SentMessage) :
    OncePerMessage ms ↔ ∀ m ∈ ms, ∀ l ∈ m.lines, l.length < maxMessageLen := by
  constructor
  · rintro ⟨qs, -, p, hrun⟩ m hm l hl
    rw [cutLines_messages] at hrun
    exact length_lt_of_decodeEach hrun l (List.mem_flatMap.2 ⟨m, hm, hl⟩)
  · intro hfits
    obtain ⟨qs, hqs, hrun⟩ := exists_decodeEach_messages hfits
    refine ⟨qs, hqs, ?_⟩
    rw [cutLines_messages]
    exact hrun _

theorem length_value_lt_line (s : Spis) (it : Item) {o : Text} {v : ValueType × Text}
    (ho : it.op = some o) (hv : it.value = some v) : v.2.length < (it.line s).length := by
  rw [Item.line, Item.suffix, ho, hv]
  simp only [List.length_append, List.length_cons]
  omega

/-- An attribute with a value of as many digits as the buffer has bytes. -/
def longValue : Item :=
  { type := .attribute, name := some "nonce".toList, op := some "update".toList,
    value := some (.integer, List.replicate maxMessageLen '7'), iter := none }

/-- A message that sets the nonce to such a value. -/
def longMessage : SentMessage where
  spis := ⟨none, none⟩
  testcase := .node
    { type := .message, name := some "ike_sa_init_response".toList, op := none, value := none,
      iter := some 0 } [.node longValue []]
  root := rfl
  texts := by
    have hdigits : '\n' ∉ List.replicate maxMessageLen '7' := by
      rw [List.mem_replicate]
      rintro ⟨-, h⟩
      exact absurd h (by decide)
    refine (RoseTree.all_node _ _ _).2 ⟨by decide, ?_⟩
    intro t ht
    obtain rfl := List.mem_singleton.1 ht
    refine (RoseTree.all_node _ _ _).2 ⟨⟨⟨"nonce".toList, rfl, by decide⟩, by decide, ?_⟩,
      List.forall_mem_nil _⟩
    intro v hv
    obtain rfl := Option.some.inj hv
    exact hdigits

/-- The line of the attribute overruns the buffer of the listener. -/
theorem not_oncePerMessage_longMessage : ¬ OncePerMessage [longMessage] := by
  rintro ⟨qs, -, p, hrun⟩
  rw [cutLines_messages] at hrun
  have hline : longValue.line ⟨none, none⟩ ∈ [longMessage].flatMap SentMessage.lines := by
    rw [List.flatMap_singleton]
    exact .tail _ (.head _)
  have hlt := length_lt_of_decodeEach hrun _ hline
  have hgt := length_value_lt_line ⟨none, none⟩ longValue rfl rfl
  rw [List.length_replicate] at hgt
  omega

end Epdg

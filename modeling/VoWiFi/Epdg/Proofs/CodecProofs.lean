import VoWiFi.Epdg.Proofs.DecoderProofs

/-!
# From the testcase to the query

The lines of a message, fed to the decoder, publish the query the message asks for exactly if the
message is a chain of blocks whose texts survive and whose lines fit.
-/

namespace Epdg

open Control

/-- A node below a message as the constructor builds it, with plain texts and a line that fits. -/
structure Sendable (s : Spis) (t : Testcase) : Prop where
  rewound : Rewound t
  isSub : IsSub t
  wf : WellFormed t.label
  fits : (t.label.line s).length < maxMessageLen

theorem Sendable.wf' {s : Spis} {it : Item} {ts : List Testcase} (h : Sendable s (.node it ts)) :
    WellFormed it := h.wf

theorem Sendable.fits' {s : Spis} {it : Item} {ts : List Testcase}
    (h : Sendable s (.node it ts)) : (it.line s).length < maxMessageLen := h.fits

/-- The tree the decoder makes of a chain. -/
def readTree (t : Testcase) : Query := (t.map readFields).mirror

theorem readTree_node (it : Item) (ts : List Testcase) :
    readTree (.node it ts) = .node (readFields it) (ts.map readTree).reverse := by
  simp [readTree, Function.comp_def]

variable {s : Spis} {it : Item} {ts : List Testcase}

theorem lines_attribute (h : Sendable s (.node it ts)) (ht : it.type = .attribute) :
    ts = [] ∧ (sendMessage s (.node it ts)).1 = [it.line s] := by
  have hts : ts = [] := by
    by_contra hne
    have htype := h.isSub
    rw [IsSub, RoseTree.label_node, RoseTree.sub_node, if_neg hne, ht] at htype
    cases htype
  rw [sendMessage_lines s h.rewound, hts]
  simp [Item.closing, ht]

theorem lines_block (h : Rewound (.node it ts)) (ht : it.type ≠ .attribute) :
    (sendMessage s (.node it ts)).1 =
      it.line s :: ((ts.flatMap fun t => (sendMessage s t).1) ++ [endLine s]) := by
  rw [sendMessage_lines s h, Item.closing, if_pos ht, List.cons_append]

theorem sub_ne_nil (h : Sendable s (.node it ts)) (ht : it.type ≠ .attribute) : ts ≠ [] := by
  rintro rfl
  exact ht (by simpa [IsSub] using h.isSub)

/-! ## Chains -/

/-- Attributes that follow an attribute become its siblings. -/
theorem decodeLines_attributes (hs : ∀ t ∈ ts, t.Every (Sendable s))
    (hattr : ∀ t ∈ ts, t.label.type = .attribute) {c q : Cursor QNode} {k : ℤ} (hk : k ≠ 0)
    (hq : c.parent? = some q) :
    ∃ c', Decoder.decodeLines ⟨some c, k, msgTypeAttribute⟩
        (ts.flatMap fun t => (sendMessage s t).1) = .ok (⟨some c', k, msgTypeAttribute⟩, []) ∧
      c'.parent? = some ⟨q.label, (ts.map readTree).reverse ++ q.sub, q.up⟩ := by
  induction ts generalizing c q with
  | nil => exact ⟨c, rfl, by simpa using hq⟩
  | cons t ts ih =>
    rw [List.forall_mem_cons] at hs hattr
    obtain ⟨it, us⟩ := t
    have hroot := hs.1.root
    have ht : it.type = .attribute := hattr.1
    obtain ⟨rfl, hlines⟩ := lines_attribute hroot ht
    have hstep := decodeLine_attribute (p := msgTypeAttribute) hroot.wf'.name_ne ht hroot.fits' hk
      (by rw [if_pos rfl]; exact hq)
    obtain ⟨c', hrun, hparent⟩ := ih hs.2 hattr.2 (Cursor.parent?_addSub q (readFields it))
    refine ⟨c', ?_, ?_⟩
    · rw [List.flatMap_cons, hlines, List.singleton_append]
      rw [decodeLines_cons hstep, hrun]
      rfl
    · rw [hparent, List.map_cons, readTree_node]
      simp

/-- The children of a chain node. The pointer ends up so that the closing line brings it back to the
node. -/
theorem decodeLines_chain_sub (hs : ∀ t ∈ ts, t.Every (Sendable s))
    (hchain : ChainNode (.node it ts)) {b : Cursor QNode} {k : ℤ} (hk : k ≠ 0)
    (hb : b.sub = []) (hne : ts ≠ [] ∨ b.up = [])
    (ih : ∀ t ∈ ts, t.label.type ≠ .attribute →
      Decoder.decodeLines ⟨some b, k, msgTypeBlockStart⟩ (sendMessage s t).1 =
        .ok (⟨some ⟨readFields t.label, (t.sub.map readTree).reverse, (b.label, b.sub) :: b.up⟩, k,
          msgTypeBlockEnd⟩, [])) :
    ∃ c p, Decoder.decodeLines ⟨some b, k, msgTypeBlockStart⟩
        (ts.flatMap fun t => (sendMessage s t).1) = .ok (⟨some c, k, p⟩, []) ∧
      c.parent?.getD c = ⟨b.label, (ts.map readTree).reverse, b.up⟩ := by
  cases ts with
  | nil =>
    have hup : b.up = [] := hne.resolve_left fun h => h rfl
    obtain ⟨a, us, up⟩ := b
    obtain rfl : us = [] := hb
    obtain rfl : up = [] := hup
    exact ⟨_, _, rfl, rfl⟩
  | cons t ts =>
    rw [List.forall_mem_cons] at hs
    obtain ⟨jt, us⟩ := t
    by_cases ht : jt.type = .attribute
    · -- every child is an attribute: a single child that is one included
      have hattr : ∀ u ∈ ts, u.label.type = .attribute := by
        rcases hchain with hall | hlen
        · exact fun u hu => hall u (List.mem_cons_of_mem _ hu)
        · have hnil : ts = [] := by simpa using hlen
          simp [hnil]
      have hroot := hs.1.root
      obtain ⟨rfl, hlines⟩ := lines_attribute hroot ht
      have hstep := decodeLine_attribute (c := b) (p := msgTypeBlockStart) hroot.wf'.name_ne ht hroot.fits'
        hk (by rw [if_neg (by decide)])
      obtain ⟨c', hrun, hparent⟩ :=
        decodeLines_attributes hs.2 hattr hk (Cursor.parent?_addSub b (readFields jt))
      refine ⟨c', msgTypeAttribute, ?_, ?_⟩
      · rw [List.flatMap_cons, hlines, List.singleton_append, decodeLines_cons hstep, hrun]
        rfl
      · rw [hparent, Option.getD_some, List.map_cons, readTree_node, hb]
        simp
    · -- the only child is a block
      have hnil : ts = [] := by
        rcases hchain with hall | hlen
        · exact absurd (hall _ List.mem_cons_self) ht
        · simpa using hlen
      subst hnil
      refine ⟨⟨readFields jt, (us.map readTree).reverse, (b.label, b.sub) :: b.up⟩,
        msgTypeBlockEnd, ?_, ?_⟩
      · rw [List.flatMap_cons, List.flatMap_nil, List.append_nil]
        exact ih _ List.mem_cons_self ht
      · rw [List.map_cons, readTree_node, hb]
        rfl

/-- The lines of a chain below a message rebuild it as the first child of the node the pointer was
at, and leave the pointer at its root. -/
theorem decodeLines_chain (t : Testcase) (hs : t.Every (Sendable s)) (hchain : t.Every ChainNode)
    (ht : t.label.type ≠ .attribute) {c : Cursor QNode} {k : ℤ} (hk : 1 ≤ k) (p : ℕ) :
    Decoder.decodeLines ⟨some c, k, p⟩ (sendMessage s t).1 =
      .ok (⟨some ⟨readFields t.label, (t.sub.map readTree).reverse, (c.label, c.sub) :: c.up⟩, k,
        msgTypeBlockEnd⟩, []) := by
  induction t using RoseTree.induction generalizing c k p with
  | h it ts ih =>
    have hroot := hs.root
    rw [RoseTree.every_node] at hs hchain
    have hstart := decodeLine_start (c := c) (p := p) hroot.wf'.name_ne ht hroot.fits'
      (show k + 1 ≠ 0 by omega)
    obtain ⟨c', p', hrun, hback⟩ := decodeLines_chain_sub (b := c.addSub (readFields it))
      (k := k + 1) hs.2 hchain.1 (by omega) rfl (.inl (sub_ne_nil hroot ht))
      (fun u hu hut => ih u hu (hs.2 u hu) (hchain.2 u hu) hut (by omega) _)
    rw [lines_block hroot.rewound ht, decodeLines_cons hstart, decodeLines_append hrun,
      decodeLines_cons (decodeLine_end (by omega)), hback]
    simp [Decoder.decodeLines, Except.map, Cursor.addSub]

/-! ## Arbitrary trees -/

/-- The pointer is at least as deep as a child of the block that is being read, at depth `m` of the
message, or at least as deep as the block itself when its first line has just been read. -/
def DeepEnough (m : ℕ) (c : Cursor QNode) (p : ℕ) : Prop :=
  m ≤ c.depth + if p = msgTypeBlockStart then 1 else 0

/-- Nodes have been added for all nodes of `ts`, which sit at depth `m` of the message and below:
with the fields that were read, and nowhere higher. -/
structure Grown (c c' : Cursor QNode) (m : ℕ) (ts : List Testcase) : Prop where
  labels : ∀ f : QNode → ℕ, c'.whole.wsum (fun _ => f) 0 =
    c.whole.wsum (fun _ => f) 0 + (ts.map (RoseTree.wsum (fun _ it => f (readFields it)) m)).sum
  depths : c.whole.depthSum 0 + (ts.map (RoseTree.depthSum m)).sum ≤ c'.whole.depthSum 0

/-- The children that may still follow for the tree to be a chain, given the type of the line before
them. -/
def ChainFrom (p : ℕ) (ts : List Testcase) : Prop :=
  if p = msgTypeBlockStart then (∀ t ∈ ts, t.label.type = .attribute) ∨ ts.length = 1
  else if p = msgTypeAttribute then ∀ t ∈ ts, t.label.type = .attribute
  else ts = []

/-- What the lines of one block do, whatever its shape. -/
structure BlockRun (s : Spis) (c : Cursor QNode) (k : ℤ) (p m : ℕ) (t : Testcase)
    (c' : Cursor QNode) : Prop where
  run : Decoder.decodeLines ⟨some c, k, p⟩ (sendMessage s t).1 =
    .ok (⟨some c', k, msgTypeBlockEnd⟩, [])
  deep : m ≤ c'.depth
  grown : Grown c c' m [t]
  /-- A block that is attached too deep adds more than it should. -/
  strict : c'.whole.depthSum 0 ≤ c.whole.depthSum 0 + t.depthSum m →
    c.depth + 1 = m ∧ t.Every ChainNode

/-- What the lines of a list of children do, whatever their shape. -/
structure SubRun (s : Spis) (c : Cursor QNode) (k : ℤ) (p m : ℕ) (ts : List Testcase)
    (c' : Cursor QNode) (p' : ℕ) : Prop where
  run : Decoder.decodeLines ⟨some c, k, p⟩ (ts.flatMap fun t => (sendMessage s t).1) =
    .ok (⟨some c', k, p'⟩, [])
  deep : DeepEnough m c' p'
  moved : ts = [] ∧ p' = p ∨ p' ≠ msgTypeBlockStart
  grown : Grown c c' m ts
  strict : c'.whole.depthSum 0 ≤ c.whole.depthSum 0 + (ts.map (RoseTree.depthSum m)).sum →
    ChainFrom p ts ∧ ∀ t ∈ ts, t.Every ChainNode

/-- Where an attribute is attached: in the same tree, not higher than it should be, and lower after
a block. -/
theorem exists_attach {m p : ℕ} {c : Cursor QNode} (hm : 1 ≤ m) (hdeep : DeepEnough m c p) :
    ∃ q : Cursor QNode, (if p = msgTypeAttribute then c.parent? = some q else c = q) ∧
      q.whole = c.whole ∧ m ≤ q.depth + 1 ∧
      (p ≠ msgTypeBlockStart → p ≠ msgTypeAttribute → m ≤ q.depth) := by
  unfold DeepEnough at hdeep
  by_cases hp : p = msgTypeAttribute
  · have hne : p ≠ msgTypeBlockStart := by rw [hp]; decide
    rw [if_neg hne] at hdeep
    obtain ⟨q, hq, hdepth, hwhole⟩ := Cursor.exists_parent (c := c) (by omega)
    exact ⟨q, by rw [if_pos hp]; exact hq, hwhole, by omega, fun _ h => absurd hp h⟩
  · refine ⟨c, by rw [if_neg hp], rfl, ?_, fun h _ => ?_⟩
    · split at hdeep <;> omega
    · rw [if_neg h] at hdeep
      omega

/-- The children of a block, given what its blocks do. -/
theorem exists_subRun (hs : ∀ t ∈ ts, t.Every (Sendable s)) {m : ℕ} (hm : 1 ≤ m) {k : ℤ}
    (hk : 1 ≤ k)
    (ih : ∀ t ∈ ts, t.label.type ≠ .attribute → ∀ c p, m ≤ c.depth + 1 →
      ∃ c', BlockRun s c k p m t c')
    (c : Cursor QNode) (p : ℕ) (hdeep : DeepEnough m c p) :
    ∃ c' p', SubRun s c k p m ts c' p' := by
  induction ts generalizing c p with
  | nil =>
    refine ⟨c, p, rfl, hdeep, .inl ⟨rfl, rfl⟩, ⟨by simp, by simp⟩, fun _ => ⟨?_, by simp⟩⟩
    unfold ChainFrom
    split
    · simp
    · split <;> simp
  | cons t ts ihts =>
    rw [List.forall_mem_cons] at hs ih
    obtain ⟨it, us⟩ := t
    have hroot := hs.1.root
    by_cases ht : it.type = .attribute
    · obtain ⟨q, hq, hwhole, hqm, hlow⟩ := exists_attach hm hdeep
      obtain ⟨rfl, hlines⟩ := lines_attribute hroot ht
      have hstep := decodeLine_attribute hroot.wf'.name_ne ht hroot.fits' (show k ≠ 0 by omega) hq
      have hdeep' : DeepEnough m (q.addSub (readFields it)) msgTypeAttribute := by
        rw [DeepEnough, if_neg (by decide), Cursor.depth_addSub]
        exact hqm
      obtain ⟨c', p', h⟩ := ihts hs.2 ih.2 _ _ hdeep'
      have hdepths := Cursor.depthSum_whole_addSub q (readFields it)
      rw [hwhole] at hdepths
      have hgrown := h.grown.depths
      refine ⟨c', p', ?_, h.deep, ?_, ⟨fun f => ?_, ?_⟩, fun hle => ?_⟩
      · rw [List.flatMap_cons, hlines, List.singleton_append, decodeLines_cons hstep, h.run]
        rfl
      · rcases h.moved with ⟨-, rfl⟩ | hne
        · exact .inr (by decide)
        · exact .inr hne
      · rw [h.grown.labels f, Cursor.wsum_whole_addSub, hwhole]
        simp [Nat.add_assoc]
      · simp only [List.map_cons, List.sum_cons, RoseTree.depthSum_node, List.map_nil, List.sum_nil]
        omega
      · simp only [List.map_cons, List.sum_cons, RoseTree.depthSum_node, List.map_nil,
          List.sum_nil] at hle
        obtain ⟨hfrom, hsub⟩ := h.strict (by omega)
        rw [ChainFrom, if_neg (by decide), if_pos rfl] at hfrom
        refine ⟨?_, List.forall_mem_cons.2 ⟨by simp [ChainNode], hsub⟩⟩
        have hall : ∀ t ∈ RoseTree.node it [] :: ts, t.label.type = .attribute :=
          List.forall_mem_cons.2 ⟨ht, hfrom⟩
        unfold ChainFrom
        split
        · exact .inl hall
        · split
          · exact hall
          · rename_i hp₁ hp₂
            have := hlow hp₁ hp₂
            omega
    · have hcm : m ≤ c.depth + 1 := by
        unfold DeepEnough at hdeep
        split at hdeep <;> omega
      obtain ⟨c₁, hblock⟩ := ih.1 ht c p hcm
      have hdeep₁ : DeepEnough m c₁ msgTypeBlockEnd := by
        rw [DeepEnough, if_neg (by decide)]
        exact hblock.deep
      obtain ⟨c', p', h⟩ := ihts hs.2 ih.2 c₁ _ hdeep₁
      have hfirst := hblock.grown.depths
      have hrest := h.grown.depths
      simp only [List.map_cons, List.map_nil, List.sum_cons, List.sum_nil, Nat.add_zero] at hfirst
      refine ⟨c', p', ?_, h.deep, ?_, ⟨fun f => ?_, ?_⟩, fun hle => ?_⟩
      · rw [List.flatMap_cons, decodeLines_append hblock.run, h.run]
      · rcases h.moved with ⟨-, rfl⟩ | hne
        · exact .inr (by decide)
        · exact .inr hne
      · rw [h.grown.labels f, hblock.grown.labels f]
        simp [Nat.add_assoc]
      · rw [List.map_cons, List.sum_cons]
        omega
      · rw [List.map_cons, List.sum_cons] at hle
        obtain ⟨hfrom, hsub⟩ := h.strict (by omega)
        obtain ⟨hcdepth, hchain⟩ := hblock.strict (by omega)
        rw [ChainFrom, if_neg (by decide), if_neg (by decide)] at hfrom
        refine ⟨?_, List.forall_mem_cons.2 ⟨hchain, hsub⟩⟩
        have hp : p = msgTypeBlockStart := by
          by_contra hp
          rw [DeepEnough, if_neg hp] at hdeep
          omega
        rw [ChainFrom, if_pos hp, hfrom]
        exact .inr rfl

/-- The lines of any block below a message. -/
theorem exists_blockRun (t : Testcase) (hs : t.Every (Sendable s)) (ht : t.label.type ≠ .attribute)
    {m : ℕ} (hm : 1 ≤ m) {k : ℤ} (hk : 1 ≤ k) (c : Cursor QNode) (p : ℕ) (hc : m ≤ c.depth + 1) :
    ∃ c', BlockRun s c k p m t c' := by
  induction t using RoseTree.induction generalizing c p m k with
  | h it ts ih =>
    have hroot := hs.root
    have hne := sub_ne_nil hroot ht
    rw [RoseTree.every_node] at hs
    have hstart := decodeLine_start (c := c) (p := p) hroot.wf'.name_ne ht hroot.fits'
      (show k + 1 ≠ 0 by omega)
    have hdeep : DeepEnough (m + 1) (c.addSub (readFields it)) msgTypeBlockStart := by
      rw [DeepEnough, if_pos rfl, Cursor.depth_addSub]
      omega
    obtain ⟨c₁, p₁, h⟩ := exists_subRun hs.2 (m := m + 1) (by omega) (k := k + 1) (by omega)
      (fun u hu hut c p hc => ih u hu (hs.2 u hu) hut (by omega) (by omega) c p hc) _ _ hdeep
    -- the block has children, so that its closing line is not read at its own node
    have hp₁ : p₁ ≠ msgTypeBlockStart := h.moved.resolve_left fun hnil => hne hnil.1
    have hdeep₁ := h.deep
    rw [DeepEnough, if_neg hp₁] at hdeep₁
    obtain ⟨c₂, hparent, hdepth, hwhole⟩ := Cursor.exists_parent (c := c₁) (by omega)
    have hend := decodeLine_end (s := s) (c := c₁) (p := p₁) (show k + 1 ≠ 1 by omega)
    rw [hparent, Option.getD_some, Int.add_sub_cancel] at hend
    have hadd := Cursor.depthSum_whole_addSub c (readFields it)
    have hgrown := h.grown.depths
    refine ⟨c₂, ?_, by omega, ⟨fun f => ?_, ?_⟩, fun hle => ?_⟩
    · rw [lines_block hroot.rewound ht, decodeLines_cons hstart, decodeLines_append h.run,
        decodeLines_cons hend]
      rfl
    · rw [hwhole, h.grown.labels f, Cursor.wsum_whole_addSub]
      simp [Nat.add_assoc]
    · rw [hwhole]
      simp only [List.map_cons, List.sum_cons, RoseTree.depthSum_node, List.map_nil, List.sum_nil]
      omega
    · rw [hwhole, RoseTree.depthSum_node] at hle
      obtain ⟨hfrom, hsub⟩ := h.strict (by omega)
      rw [ChainFrom, if_pos rfl] at hfrom
      exact ⟨by omega, (RoseTree.every_node _ _ _).2 ⟨hfrom, hsub⟩⟩

/-! ## Whole messages -/

/-- A message as the constructor builds it, with plain texts and lines that fit. -/
structure SendableMessage (s : Spis) (it : Item) (ts : List Testcase) : Prop where
  rewound : Rewound (.node it ts)
  type : it.type = .message
  wf : WellFormed it
  fits : (it.line s).length < maxMessageLen
  sub : ∀ u ∈ ts, u.Every (Sendable s)

theorem SendableMessage.type_ne (h : SendableMessage s it ts) : it.type ≠ .attribute := by
  rw [h.type]
  decide

/-- The lines of a chain publish its mirror image. -/
theorem decodeLines_message_chain (h : SendableMessage s it ts)
    (hchain : RoseTree.Every ChainNode (.node it ts)) :
    Decoder.init.decodeLines (sendMessage s (.node it ts)).1 =
      .ok (⟨none, 0, msgTypeBlockEnd⟩, [readTree (.node it ts)]) := by
  rw [RoseTree.every_node] at hchain
  have hroot := decodeLine_root (s := s) (p := 0) h.wf.name_ne h.type_ne h.fits
  obtain ⟨c, p, hrun, hback⟩ := decodeLines_chain_sub (b := .single (readFields it)) (k := 1)
    h.sub hchain.1 (by decide) rfl (.inr rfl)
    (fun u hu hut => decodeLines_chain u (h.sub u hu) (hchain.2 u hu) hut (by decide) _)
  rw [lines_block h.rewound h.type_ne, decodeLines_cons (d := .init) hroot,
    decodeLines_append hrun, decodeLines_cons decodeLine_last, hback, readTree_node]
  rfl

/-- The lines of any message publish a part of a tree that has the same fields as the message and no
node higher than there. -/
theorem decodeLines_message (h : SendableMessage s it ts) :
    ∃ c : Cursor QNode, Decoder.init.decodeLines (sendMessage s (.node it ts)).1 =
        .ok (⟨none, 0, msgTypeBlockEnd⟩, [c.tree]) ∧
      (∀ f : QNode → ℕ, c.whole.wsum (fun _ => f) 0 =
        RoseTree.wsum (fun _ it => f (readFields it)) 0 (.node it ts)) ∧
      (c.whole.depthSum 0 ≤ RoseTree.depthSum 0 (.node it ts) →
        RoseTree.Every ChainNode (.node it ts)) := by
  have hroot := decodeLine_root (s := s) (p := 0) h.wf.name_ne h.type_ne h.fits
  have hdeep : DeepEnough 1 (.single (readFields it)) msgTypeBlockStart := by
    rw [DeepEnough, if_pos rfl, Cursor.depth_single]
  obtain ⟨c, p, hsub⟩ := exists_subRun h.sub le_rfl (le_refl (1 : ℤ))
    (fun u hu hut c p hc => exists_blockRun u (h.sub u hu) hut le_rfl le_rfl c p hc) _ _ hdeep
  have hwhole : (c.parent?.getD c).whole = c.whole := by
    by_cases hc : c.depth = 0
    · rw [Cursor.parent?_eq_none.2 hc, Option.getD_none]
    · obtain ⟨q, hq, -, hwhole⟩ := Cursor.exists_parent (Nat.pos_of_ne_zero hc)
      rw [hq, Option.getD_some, hwhole]
  refine ⟨c.parent?.getD c, ?_, fun f => ?_, fun hle => ?_⟩
  · rw [lines_block h.rewound h.type_ne, decodeLines_cons (d := .init) hroot,
      decodeLines_append hsub.run, decodeLines_cons decodeLine_last]
    rfl
  · rw [hwhole, hsub.grown.labels f, RoseTree.wsum_node]
    simp [Cursor.single, Cursor.whole, Cursor.closeUp, Cursor.tree]
  · have hsingle : (Cursor.single (readFields it)).whole.depthSum 0 = 0 := by
      simp [Cursor.single, Cursor.whole, Cursor.closeUp, Cursor.tree]
    rw [hwhole, RoseTree.depthSum_node, Nat.zero_add] at hle
    obtain ⟨hfrom, hchain⟩ := hsub.strict (by rw [hsingle, Nat.zero_add]; exact hle)
    rw [ChainFrom, if_pos rfl] at hfrom
    exact (RoseTree.every_node _ _ _).2 ⟨hfrom, hchain⟩

/-- Every node of a message has its line. -/
theorem all_of_lines {P : Text → Prop} {t : Testcase} (hrew : t.Every Rewound)
    (h : ∀ l ∈ (sendMessage s t).1, P l) : t.All fun it => P (it.line s) := by
  induction t using RoseTree.induction with
  | h it ts ih =>
    rw [sendMessage_lines s hrew.root] at h
    rw [RoseTree.every_node] at hrew
    refine (RoseTree.all_node _ _ _).2 ⟨h _ (by simp), fun t ht => ih t ht (hrew.2 t ht) ?_⟩
    intro l hl
    refine h l ?_
    rw [List.cons_append, List.mem_cons, List.mem_append, List.mem_flatMap]
    exact .inr (.inl ⟨t, ht, hl⟩)

/-- A message built from JSON, with plain texts and lines that fit. -/
theorem sendableMessage_of_ofObj {o : TestcaseObj}
    (ho : Testcase.ofObj (some .message) o = some (.node it ts))
    (hw : RoseTree.All WellFormed (.node it ts))
    (hfits : RoseTree.All (fun it => (it.line s).length < maxMessageLen) (.node it ts)) :
    SendableMessage s it ts := by
  obtain ⟨htype, hsub, hrew⟩ := ofObj_spec ho
  refine ⟨hrew.root, htype, hw.root, hfits.root, fun u hu => ?_⟩
  rw [RoseTree.all_node] at hw hfits
  rw [RoseTree.every_node] at hrew
  have hu := ((hrew.2 u hu).and (hsub u hu)).and ((hw.2 u hu).and (hfits.2 u hu))
  exact hu.imp fun t ht => ⟨ht.1.1, ht.1.2, ht.2.1, ht.2.2⟩

/-- Node sums that agree for every weight leave only readable nodes. -/
theorem all_readable {t : Testcase} (hw : t.All WellFormed)
    (h : ∀ f : QNode → ℕ, t.wsum (fun _ it => f (queryOf it)) 0 =
      t.wsum (fun _ it => f (readFields it)) 0) : t.All Readable := by
  -- names first: behind a shortened name the other fields may be lost or gained
  have hnames : t.All fun it => ∀ n, it.name = some n → '\x00' ∉ n := by
    have hle := hw.imp fun it hit => (readFields_name hit).1
    have heq := RoseTree.all_eq_of_wsum_le hle (h fun q => textWeight q.name).le
    exact (hw.and heq).imp fun it hit => (readFields_name hit.1).2 hit.2
  have hle := (hw.and hnames).imp fun it hit => (readFields_fieldWeight hit.1 hit.2).1
  have heq := RoseTree.all_eq_of_wsum_le hle (h fieldWeight).le
  exact ((hw.and hnames).and heq).imp fun it hit =>
    (readFields_fieldWeight hit.1.1 hit.1.2).2 hit.2

/-- For a message built from JSON with plain texts, the lines of the controller publish a query that
agrees with the message up to the order of siblings exactly if the message is a chain of blocks
whose texts survive being read and whose lines fit into the buffer. -/
theorem decodeLines_sendMessage_iff {o : TestcaseObj} {t : Testcase}
    (ho : Testcase.ofObj (some .message) o = some t) (hw : t.All WellFormed) (s : Spis) :
    (∃ d q, Decoder.init.decodeLines (sendMessage s t).1 = .ok (d, [q]) ∧
      (t.map queryOf).SibEq q) ↔ Transparent s t := by
  obtain ⟨it, ts⟩ := t
  constructor
  · rintro ⟨d, q, hrun, hsib⟩
    have hfits := all_of_lines (ofObj_spec ho).2.2 (length_lt_of_decodeLines hrun)
    have hmsg := sendableMessage_of_ofObj ho hw hfits
    obtain ⟨c, hc, hlabels, hdepths⟩ := decodeLines_message hmsg
    rw [hrun, Except.ok.injEq, Prod.mk.injEq, List.cons.injEq] at hc
    obtain ⟨-, rfl, -⟩ := hc
    -- as many nodes are published as were sent, so the root is among them
    have hsize := hsib.wsum_eq (fun _ _ => 1) c.depth
    have hzero : c.depth = 0 := by
      refine Cursor.depth_eq_zero_of_size ?_
      rw [← hsize, RoseTree.wsum_map, hlabels fun _ => 1]
      exact (RoseTree.wsum_const_depth _ _ _ _).le
    rw [← Cursor.whole_of_depth_eq_zero hzero] at hsib
    have hchain := hdepths (by
      rw [RoseTree.depthSum, ← hsib.wsum_eq (fun d _ => d) 0]
      exact (RoseTree.depthSum_map _ _ _).le)
    refine ⟨hchain, all_readable hw fun f => ?_, hfits⟩
    rw [← hlabels f, ← hsib.wsum_eq (fun _ => f) 0, RoseTree.wsum_map]
  · intro h
    have hmsg := sendableMessage_of_ofObj ho hw h.fits
    have hmap : (RoseTree.node it ts).map readFields = (RoseTree.node it ts).map queryOf :=
      RoseTree.map_congr ((hw.and h.readable).imp fun it hit => readFields_of_readable hit.1 hit.2)
    refine ⟨_, _, decodeLines_message_chain hmsg h.chain, ?_⟩
    rw [readTree, hmap]
    exact RoseTree.sibEq_mirror _

/-- A message with one payload that holds two attributes. -/
def chainObj : TestcaseObj :=
  .obj (some "ike_sa_init_response".toList) none none none (some
    [.obj (some "notify".toList) none none none (some
      [.obj (some "message_type".toList) (some "update".toList) (some "uint16".toList)
        (some "24".toList) none,
       .obj (some "notification_data".toList) (some "drop".toList) none none none])])

theorem decodeLines_chainObj : ∃ t, Testcase.ofObj (some .message) chainObj = some t ∧
    ∃ d q, Decoder.init.decodeLines (sendMessage ⟨none, none⟩ t).1 = .ok (d, [q]) ∧
      (t.map queryOf).SibEq q :=
  ⟨_, rfl, (@decodeLines_sendMessage_iff chainObj _ rfl (by decide) ⟨none, none⟩).2
    ⟨by decide, by decide, by decide⟩⟩

/-- A message with an attribute of its own and a payload behind it. -/
def branchObj : TestcaseObj :=
  .obj (some "ike_sa_init_response".toList) none none none (some
    [.obj (some "rspi".toList) (some "update".toList) (some "integer".toList) (some "0".toList) none,
     .obj (some "notify".toList) none none none (some
      [.obj (some "message_type".toList) (some "update".toList) (some "uint16".toList)
        (some "24".toList) none])])

/-- The payload is decoded as a child of the attribute, and what is published is the attribute with
the payload below it: three nodes instead of four. -/
theorem decodeLines_branchObj : ∃ t, Testcase.ofObj (some .message) branchObj = some t ∧
    t.All WellFormed ∧
    ¬ ∃ d q, Decoder.init.decodeLines (sendMessage ⟨none, none⟩ t).1 = .ok (d, [q]) ∧
      (t.map queryOf).SibEq q := by
  refine ⟨_, rfl, by decide, ?_⟩
  rintro ⟨d, q, hrun, hsib⟩
  have hsum := congrArg (fun r => r.toOption.map fun r => r.2.map (RoseTree.wsum (fun _ _ => 1) 0))
    hrun
  have hthree : q.wsum (fun _ _ => 1) 0 = 3 := by
    have := hsum.symm.trans (show _ = some [3] by decide)
    simpa [Except.toOption] using this
  have hfour := hsib.wsum_eq (fun _ _ => 1) 0
  rw [hthree] at hfour
  exact absurd hfour (by decide)

end Epdg

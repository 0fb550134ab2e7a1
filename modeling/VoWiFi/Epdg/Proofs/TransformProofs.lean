import VoWiFi.Epdg.Proposal

/-!
# Dropping transforms

The loop reads the type of its entry again after each removal, when the place of the entry holds a
neighbour. As long as the query drops one type only this does no harm, and exactly the transforms of
that type are removed. The set of types is never changed.
-/

namespace Epdg

variable {query : Option Query} {p : Proposal} {e : TransformEnumerator} {type : TransformType}
  {tr : Transform}

/-! ## One transform -/

/-- A check that does not remove anything. -/
theorem checkTransform_of_keep {place : ℕ} (hentry : e.entry = some place)
    (hread : e.array.read place = some tr) (hkeep : tr.type = type → dropsType query type = false) :
    checkTransform query type e = (e, none) := by
  rw [checkTransform, hentry]
  dsimp only
  rw [hread]
  dsimp only
  by_cases htype : tr.type = type
  · rw [hkeep htype, Bool.and_false, if_neg Bool.false_ne_true]
  · rw [decide_eq_false htype, Bool.false_and, if_neg Bool.false_ne_true]

/-- A transform that is kept goes through all checks. -/
theorem run_checks_of_keep {place : ℕ} (types : List TransformType) (hentry : e.entry = some place)
    (hread : e.array.read place = some tr)
    (hkeep : ∀ type ∈ types, tr.type = type → dropsType query type = false) :
    Steps.run (types.map (checkTransform query)) e = (e, none) := by
  induction types with
  | nil => rfl
  | cons type types ih =>
    rw [List.forall_mem_cons] at hkeep
    rw [List.map_cons, Steps.run_cons_of_goes (checkTransform_of_keep hentry hread hkeep.1), ih hkeep.2]

theorem mem_checkedTypes (h : dropsType query type = true) : type ∈ checkedTypes := by
  cases type with
  | other n => cases h
  | _ => decide

/-- A transform that is dropped, by a query that drops no other type: behind its removal the place of the
entry has another transform, but no check removes that one. -/
theorem run_checks_of_drop {place : ℕ} (hentry : e.entry = some place)
    (hread : e.array.read place = some tr) (hdrop : dropsType query tr.type = true)
    (hone : ∀ type, dropsType query type = true → type = tr.type)
    (hentry' : e.removeAt.entry = some place) (hread' : (e.removeAt.array.read place).isSome = true) :
    Steps.run (checkedTypes.map (checkTransform query)) e = (e.removeAt, none) := by
  have hkeep : ∀ types : List TransformType, tr.type ∉ types →
      ∀ type ∈ types, dropsType query type = false := by
    intro types hnot type hmem
    refine eq_false_of_ne_true fun htype => hnot ?_
    rw [← hone type htype]
    exact hmem
  have hcheck : checkTransform query tr.type e = (e.removeAt, none) := by
    rw [checkTransform, hentry]
    dsimp only
    rw [hread]
    dsimp only
    rw [hdrop, decide_eq_true rfl, Bool.and_true, if_pos rfl]
  obtain ⟨before, after, hsplit⟩ := List.append_of_mem (mem_checkedTypes hdrop)
  have hnodup : (before ++ tr.type :: after).Nodup := by
    rw [← hsplit]
    decide
  obtain ⟨-, hnodup', hdisj⟩ := List.nodup_append.1 hnodup
  have hbefore : tr.type ∉ before := fun hmem => hdisj _ hmem _ List.mem_cons_self rfl
  obtain ⟨tr', htr'⟩ := Option.isSome_iff_exists.1 hread'
  rw [hsplit, List.map_append, List.map_cons,
    Steps.run_append_of_goes (run_checks_of_keep before hentry hread fun type hmem _ =>
      hkeep before hbefore type hmem),
    Steps.run_cons_of_goes hcheck,
    run_checks_of_keep after hentry' htr' fun type hmem _ =>
      hkeep after (List.nodup_cons.1 hnodup').1 type hmem]

/-! ## The loop -/

/-- The entry that the enumerator gives next. -/
def TransformEnumerator.next (e : TransformEnumerator) : TransformEnumerator :=
  { e with idx := e.idx + 1, entry := some (e.array.head.length + e.idx) }

theorem enumerateTransforms_succ {fuel : ℕ} (hidx : e.idx < e.array.elems.length) :
    enumerateTransforms query (fuel + 1) e =
      match Steps.run (checkedTypes.map (checkTransform query)) e.next with
      | (e, none) => enumerateTransforms query fuel e
      | (e, some stop) => (e, some stop) := by
  rw [enumerateTransforms, if_pos hidx]
  rfl

theorem read_next (hidx : e.idx < e.array.elems.length) :
    e.next.array.read (e.array.head.length + e.idx) = e.array.elems[e.idx]? :=
  RoomArray.read_elem hidx

/-- The removal of the entry that has been given, if there is room for it. -/
theorem removeAt_next (hidx : e.idx < e.array.elems.length)
    (hroom : e.array.head.length + e.array.tail.length < RoomArray.maxUnused) :
    e.next.removeAt = ⟨e.array.shift e.idx, e.idx, some (e.array.head.length + e.idx)⟩ := by
  have hmoves := RoomArray.moves_eq_false hidx hroom
  have hne : e.next.idx ≠ 0 := Nat.succ_ne_zero _
  rw [TransformEnumerator.removeAt, if_neg hne]
  simp only [TransformEnumerator.next, Nat.add_sub_cancel, hmoves, RoomArray.remove_of_lt hidx hmoves,
    Bool.false_eq_true, if_false]

/-- The loop from a transform on. The transforms before it have been kept. -/
theorem enumerateTransforms_elems (kept rest : List Transform) {fuel : ℕ} (hidx : e.idx = kept.length)
    (helems : e.array.elems = kept ++ rest) (hfuel : rest.length < fuel)
    (hone : ∀ tr ∈ rest, dropsType query tr.type = true →
      ∀ type, dropsType query type = true → type = tr.type)
    (hroom : ∀ tr ∈ rest, dropsType query tr.type = true →
      e.array.head.length + e.array.tail.length + rest.countP (fun tr => dropsType query tr.type) ≤
        RoomArray.maxUnused) :
    ∃ e', enumerateTransforms query fuel e = (e', none) ∧
      e'.array.elems = kept ++ rest.filter fun tr => !dropsType query tr.type := by
  induction rest generalizing kept fuel e with
  | nil =>
    obtain ⟨fuel, rfl⟩ := Nat.exists_eq_succ_of_ne_zero (Nat.ne_of_gt hfuel)
    refine ⟨e, ?_, helems⟩
    rw [enumerateTransforms, if_neg]
    rw [helems, hidx, List.append_nil]
    exact Nat.lt_irrefl _
  | cons tr rest ih =>
    obtain ⟨fuel, rfl⟩ := Nat.exists_eq_succ_of_ne_zero (Nat.ne_of_gt (Nat.lt_of_le_of_lt (Nat.zero_le _) hfuel))
    have hlt : e.idx < e.array.elems.length := by
      rw [helems, hidx, List.length_append, List.length_cons]
      omega
    have hread : e.next.array.read (e.array.head.length + e.idx) = some tr := by
      rw [read_next hlt, helems, hidx, List.getElem?_append_right (Nat.le_refl _), Nat.sub_self]
      rfl
    have hfuel' : rest.length < fuel := Nat.lt_of_succ_lt_succ hfuel
    cases hdrop : dropsType query tr.type with
    | false =>
      have hrun : Steps.run (checkedTypes.map (checkTransform query)) e.next = (e.next, none) :=
        run_checks_of_keep checkedTypes rfl hread fun type _ htype => htype ▸ hdrop
      have hroom' : ∀ tr' ∈ rest, dropsType query tr'.type = true →
          e.next.array.head.length + e.next.array.tail.length +
            rest.countP (fun tr => dropsType query tr.type) ≤ RoomArray.maxUnused := by
        intro tr' hmem hdrop'
        have hcount := hroom tr' (List.mem_cons_of_mem _ hmem) hdrop'
        rwa [List.countP_cons_of_neg (by simp [hdrop])] at hcount
      obtain ⟨e', hloop, helems'⟩ := ih (e := e.next) (kept ++ [tr]) (by simp [TransformEnumerator.next, hidx])
        (by rw [List.append_assoc]; exact helems) hfuel'
        (fun tr' hmem => hone tr' (List.mem_cons_of_mem _ hmem)) hroom'
      refine ⟨e', ?_, ?_⟩
      · rw [enumerateTransforms_succ hlt, hrun]
        exact hloop
      · rw [helems', List.filter_cons_of_pos (by simp [hdrop]), List.append_assoc, List.singleton_append]
    | true =>
      have hcount := hroom tr List.mem_cons_self hdrop
      rw [List.countP_cons_of_pos (by simp [hdrop])] at hcount
      have hremove := removeAt_next hlt (by omega)
      have hrun : Steps.run (checkedTypes.map (checkTransform query)) e.next = (e.next.removeAt, none) := by
        refine run_checks_of_drop rfl hread hdrop (hone tr List.mem_cons_self hdrop) ?_ ?_
        · rw [hremove]
        · rw [hremove, RoomArray.isSome_read_shift hlt]
          exact Option.isSome_iff_exists.2 ⟨tr, hread⟩
      have hshift : (e.array.shift e.idx).elems = kept ++ rest := by
        rw [RoomArray.elems_shift, helems, hidx, List.eraseIdx_append_of_length_le (Nat.le_refl _), Nat.sub_self]
        rfl
      have hunused := RoomArray.unused_shift hlt
      obtain ⟨e', hloop, helems'⟩ := ih
        (e := ⟨e.array.shift e.idx, e.idx, some (e.array.head.length + e.idx)⟩) kept hidx hshift hfuel'
        (fun tr' hmem => hone tr' (List.mem_cons_of_mem _ hmem))
        (fun tr' _ _ => by dsimp only; omega)
      refine ⟨e', ?_, ?_⟩
      · rw [enumerateTransforms_succ hlt, hrun, hremove]
        exact hloop
      · rw [helems', List.filter_cons_of_neg (by simp [hdrop])]

/-! ## The end of the loop -/

/-- What a removal keeps: the index is in range, the number of transforms still to come does not change,
and the entry is a place of the storage. -/
structure Between (e e' : TransformEnumerator) : Prop where
  idx_le : e'.idx ≤ e'.array.elems.length
  ahead : e'.array.elems.length + e.idx = e.array.elems.length + e'.idx
  entry : ∀ place, e'.entry = some place → (e'.array.read place).isSome = true

theorem Between.trans {e₁ e₂ e₃ : TransformEnumerator} (h₁ : Between e₁ e₂) (h₂ : Between e₂ e₃) :
    Between e₁ e₃ := by
  have h₁' := h₁.ahead
  have h₂' := h₂.ahead
  exact ⟨h₂.idx_le, by omega, h₂.entry⟩

theorem Between.removeAt (h : Between e e) : Between e e.removeAt := by
  unfold TransformEnumerator.removeAt
  split
  · exact h
  · rename_i hne
    have hle := h.idx_le
    have hlt : e.idx - 1 < e.array.elems.length := by omega
    have hlength := List.length_eraseIdx_of_lt hlt
    rw [← RoomArray.elems_remove hlt] at hlength
    refine ⟨by dsimp only; omega, by dsimp only; omega, fun place hplace => ?_⟩
    dsimp only at hplace ⊢
    cases hmoves : e.array.moves (e.idx - 1) with
    | true =>
      rw [hmoves] at hplace
      cases hplace
    | false =>
      rw [hmoves] at hplace
      rw [RoomArray.remove_of_lt hlt hmoves, RoomArray.isSome_read_shift hlt]
      exact h.entry place hplace

theorem checkTransform_between (query : Option Query) (type : TransformType) (h : Between e e) :
    Between e (checkTransform query type e).1 ∧
      ((checkTransform query type e).2 = none ∨
        (checkTransform query type e).2 = some .danglingPointer) := by
  unfold checkTransform
  split
  · exact ⟨h, .inr rfl⟩
  · rename_i place hplace
    split
    · rename_i hread
      have hsome := h.entry place hplace
      rw [hread] at hsome
      cases hsome
    · refine ⟨?_, .inl rfl⟩
      dsimp only
      split
      · exact h.removeAt
      · exact h

theorem run_checks_between (query : Option Query) (types : List TransformType) (h : Between e e) :
    Between e (Steps.run (types.map (checkTransform query)) e).1 ∧
      ((Steps.run (types.map (checkTransform query)) e).2 = none ∨
        (Steps.run (types.map (checkTransform query)) e).2 = some .danglingPointer) := by
  induction types generalizing e with
  | nil => exact ⟨h, .inl rfl⟩
  | cons type types ih =>
    obtain ⟨hbetween, hstop⟩ := checkTransform_between query type h
    rcases hcheck : checkTransform query type e with ⟨e₁, _ | stop⟩
    · rw [hcheck] at hbetween
      have hself : Between e₁ e₁ := ⟨hbetween.idx_le, rfl, hbetween.entry⟩
      rw [List.map_cons, Steps.run_cons_of_goes hcheck]
      exact ⟨hbetween.trans (ih hself).1, (ih hself).2⟩
    · rw [hcheck] at hbetween hstop
      rw [List.map_cons, Steps.run_cons_of_stops hcheck]
      exact ⟨hbetween, hstop⟩

theorem enumerateTransforms_stop (query : Option Query) {fuel : ℕ}
    (hidx : e.idx ≤ e.array.elems.length) (hfuel : e.array.elems.length < fuel + e.idx) :
    (enumerateTransforms query fuel e).2 = none ∨
      (enumerateTransforms query fuel e).2 = some .danglingPointer := by
  induction fuel generalizing e with
  | zero => omega
  | succ fuel ih =>
    by_cases hlt : e.idx < e.array.elems.length
    · have hnext : Between e.next e.next := by
        refine ⟨hlt, rfl, fun place hplace => ?_⟩
        cases hplace
        rw [read_next hlt, List.getElem?_eq_getElem hlt]
        rfl
      obtain ⟨hbetween, hstop⟩ := run_checks_between query checkedTypes hnext
      rcases hrun : Steps.run (checkedTypes.map (checkTransform query)) e.next with ⟨e₁, _ | stop⟩
      · rw [hrun] at hbetween
        have hahead : e₁.array.elems.length + (e.idx + 1) = e.array.elems.length + e₁.idx := hbetween.ahead
        rw [enumerateTransforms_succ hlt, hrun]
        exact ih hbetween.idx_le (by omega)
      · rw [hrun] at hstop
        rw [enumerateTransforms_succ hlt, hrun]
        exact hstop
    · rw [enumerateTransforms, if_neg hlt]
      exact .inl rfl

/-- The loop always ends; what can go wrong besides is that the storage has been moved away under the
entry. -/
theorem processTransforms_stop (query : Option Query) (p : Proposal) :
    (processTransforms query p).2 = none ∨
      (processTransforms query p).2 = some .danglingPointer := by
  have hfuel : p.transforms.elems.length < p.transforms.elems.length + 1 + 0 := Nat.lt_succ_self _
  exact enumerateTransforms_stop (e := ⟨p.transforms, 0, none⟩) query (Nat.zero_le _) hfuel

/-! ## The transforms -/

/-- The transforms that a query drops, if they are of one type and there is room for them. -/
theorem processTransforms_of_one
    (hone : ∀ tr ∈ p.transforms.elems, dropsType query tr.type = true →
      ∀ type, dropsType query type = true → type = tr.type)
    (hroom : ∀ tr ∈ p.transforms.elems, dropsType query tr.type = true →
      p.transforms.head.length + p.transforms.tail.length +
        p.transforms.elems.countP (fun tr => dropsType query tr.type) ≤ RoomArray.maxUnused) :
    ∃ a, processTransforms query p = ({ p with transforms := a }, none) ∧
      a.elems = p.transforms.elems.filter fun tr => !dropsType query tr.type := by
  obtain ⟨e, hloop, helems⟩ := enumerateTransforms_elems (e := ⟨p.transforms, 0, none⟩) []
    p.transforms.elems rfl rfl (Nat.lt_succ_self _) hone hroom
  refine ⟨e.array, ?_, helems⟩
  rw [processTransforms, hloop]

/-- A query that drops none of the transforms. -/
theorem processTransforms_of_none (h : ∀ tr ∈ p.transforms.elems, dropsType query tr.type = false) :
    ∃ a, processTransforms query p = ({ p with transforms := a }, none) ∧
      a.elems = p.transforms.elems := by
  have hdrop : ∀ tr ∈ p.transforms.elems, ¬ dropsType query tr.type = true := fun tr hmem =>
    Bool.eq_false_iff.1 (h tr hmem)
  obtain ⟨a, hrun, helems⟩ := processTransforms_of_one
    (fun tr hmem htr => absurd htr (hdrop tr hmem)) (fun tr hmem htr => absurd htr (hdrop tr hmem))
  refine ⟨a, hrun, helems.trans (List.filter_eq_self.2 fun tr hmem => ?_)⟩
  rw [h tr hmem]
  rfl

/-! ## The types -/

theorem types_processTransforms (query : Option Query) (p : Proposal) :
    (processTransforms query p).1.types = p.types := rfl

theorem typesMatch_addAlgorithm (hp : p.TypesMatch) (tr : Transform) :
    (p.addAlgorithm tr).TypesMatch := by
  rw [Proposal.TypesMatch, Proposal.addAlgorithm, RoomArray.elems_insertLast, hp]
  ext type
  rw [Finset.mem_insert, List.mem_toFinset, List.mem_toFinset, List.map_append, List.mem_append,
    List.map_singleton, List.mem_singleton, or_comm]

theorem typesMatch_ofTransforms (number : UInt8) (transforms : List Transform) :
    (Proposal.ofTransforms number transforms).TypesMatch := by
  have hfold : ∀ p : Proposal, p.TypesMatch → (transforms.foldl Proposal.addAlgorithm p).TypesMatch := by
    induction transforms with
    | nil => exact fun p hp => hp
    | cons tr transforms ih => exact fun p hp => ih _ (typesMatch_addAlgorithm hp tr)
  exact hfold _ rfl

/-- The transforms and the set of types fit together behind the loop exactly if there is nothing to
drop. -/
theorem processTransforms_drops_iff (query : Option Query) (p : Proposal) (hp : p.TypesMatch) :
    (∃ p', processTransforms query p = (p', none) ∧
      p'.transforms.elems = p.transforms.elems.filter (fun tr => !dropsType query tr.type) ∧
      p'.TypesMatch) ↔
      ∀ tr ∈ p.transforms.elems, dropsType query tr.type = false := by
  constructor
  · rintro ⟨p', hrun, helems, hmatch⟩ tr hmem
    have htypes : p'.types = p.types := by
      rw [← types_processTransforms query p, hrun]
    have htype : tr.type ∈ (p'.transforms.elems.map (·.type)).toFinset := by
      rw [← hmatch, htypes, hp]
      exact List.mem_toFinset.2 (List.mem_map.2 ⟨tr, hmem, rfl⟩)
    rw [helems] at htype
    -- another transform of the type is left, and that one is not dropped
    obtain ⟨tr', htr', heq⟩ := List.mem_map.1 (List.mem_toFinset.1 htype)
    have hkeep := (List.mem_filter.1 htr').2
    rw [heq] at hkeep
    exact Bool.eq_false_of_not_eq_true' hkeep
  · intro hnone
    obtain ⟨a, hrun, helems⟩ := processTransforms_of_none hnone
    refine ⟨_, hrun, helems.trans (List.filter_eq_self.2 fun tr hmem => ?_).symm, ?_⟩
    · rw [hnone tr hmem]
      rfl
    · rw [Proposal.TypesMatch, helems]
      exact hp

/-- A query with nodes below the one for the transforms. -/
def transformQuery (nodes : List QNode) : Query :=
  .node ⟨some Round.init.responseText, .notSet, 0, none⟩
    [.node ⟨some "security_association".toList, .notSet, 0, none⟩
      [.node ⟨some "proposal".toList, .notSet, 0, none⟩
        [.node ⟨some "transform".toList, .notSet, 0, none⟩ (nodes.map (.node · []))]]]

/-- A drop of the encryption algorithm and of the group. -/
def dropTransforms : Query :=
  transformQuery [⟨some "encryption_algorithm".toList, .drop, 0, none⟩,
    ⟨some "diffie_hellman_group".toList, .drop, 0, none⟩]

def offer : List Transform :=
  [⟨.pseudoRandomFunction, 5, 0⟩, ⟨.integrityAlgorithm, 12, 0⟩, ⟨.pseudoRandomFunction, 2, 0⟩,
    ⟨.encryptionAlgorithm, 12, 128⟩, ⟨.diffieHellmanGroup, 14, 0⟩]

theorem processTransforms_drops_none :
    ∃ p', processTransforms (some dropTransforms) (.ofTransforms 1 (offer.take 3)) = (p', none) ∧
      p'.transforms.elems = (Proposal.ofTransforms 1 (offer.take 3)).transforms.elems.filter
        (fun tr => !dropsType (some dropTransforms) tr.type) ∧ p'.TypesMatch :=
  (processTransforms_drops_iff (some dropTransforms) (.ofTransforms 1 (offer.take 3))
    (typesMatch_ofTransforms ..)).2 (by decide +kernel)

/-- The encryption algorithm is removed from the second half of the array, and its place then has the
group. This is taken for the entry, and the transform before it is removed; the group itself is removed
when the loop comes to it again. The set of types still has both. -/
theorem processTransforms_not_drops :
    (Proposal.ofTransforms 1 offer).TypesMatch ∧
    (processTransforms (some dropTransforms) (.ofTransforms 1 offer)).2 = none ∧
    (processTransforms (some dropTransforms) (.ofTransforms 1 offer)).1.transforms.elems =
      [⟨.pseudoRandomFunction, 5, 0⟩, ⟨.integrityAlgorithm, 12, 0⟩] ∧
    offer.filter (fun tr => !dropsType (some dropTransforms) tr.type) =
      [⟨.pseudoRandomFunction, 5, 0⟩, ⟨.integrityAlgorithm, 12, 0⟩, ⟨.pseudoRandomFunction, 2, 0⟩] ∧
    ¬ (processTransforms (some dropTransforms) (.ofTransforms 1 offer)).1.TypesMatch := by
  decide +kernel

end Epdg

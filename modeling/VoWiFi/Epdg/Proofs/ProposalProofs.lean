import VoWiFi.Epdg.Proofs.TransformProofs
import VoWiFi.Epdg.Proofs.UpdateProofs

/-!
# Updates of the transforms

Each part of `process_proposal` loads the first transform of a type, changes what the query asks for and
stores it again, so that it changes the first transform of this type and nothing else. The length of the
encryption key is looked for only if the query has a node for the algorithm.
-/

namespace Epdg

variable {query : Option Query} {p : Proposal} {s : ProposalState} {type : TransformType} {t : Query}
  {v : TransformField → Option ℕ}

/-! ## What is asked for -/

theorem AsksTransforms.some (h : AsksTransforms query v) {f : TransformField} {n : ℕ} (hv : v f = some n) :
    ∃ t, askedTransform query f = .some t ∧ t.label.op = .update ∧
      t.label.vtype = valTypeUint .w16 .decimal ∧ Numeral .decimal t.label.text n ∧ n < 2 ^ 16 := by
  have hf := h f
  rwa [hv] at hf

theorem AsksTransforms.none (h : AsksTransforms query v) {f : TransformField} (hv : v f = none)
    (ht : askedTransform query f = .some t) : t.label.op = .notSet := by
  have hf := h f
  rw [hv] at hf
  exact hf t ht

/-- A node for a field gives the number that is asked for. -/
theorem AsksTransforms.word_eq (h : AsksTransforms query v) {f : TransformField}
    (ht : askedTransform query f = .some t) (x : UInt16) :
    t.label.word x = ((v f).map UInt16.ofNat).getD x := by
  cases hv : v f with
  | none =>
    have hop := h.none hv ht
    rw [QNode.word, QNode.number?, if_neg fun hand => OpType.noConfusion (hop.symm.trans hand.2)]
    rfl
  | some n =>
    obtain ⟨t', ht', hop, hvtype, hnum, hn⟩ := h.some hv
    obtain rfl : t = t' := Option.some.inj (ht.symm.trans ht')
    have hexact : (charToInt32 Radix.decimal.base t.label.text % 2 ^ 16).toNat = n :=
      (hnum.charToInt32_exact_iff (w := .w16) hn).2 ⟨nofun, nofun⟩
    rw [QNode.word, QNode.number?, if_pos ⟨hvtype, hop⟩]
    exact congrArg UInt16.ofNat hexact

theorem AsksTransforms.eq_none (h : AsksTransforms query v) {f : TransformField}
    (hf : askedTransform query f = .none) : v f = .none := by
  cases hv : v f with
  | none => rfl
  | some n =>
    obtain ⟨t, ht, -⟩ := h.some hv
    rw [hf] at ht
    cases ht

theorem AsksTransforms.dropsType_eq (h : AsksTransforms query v) (type : TransformType) :
    dropsType query type = false := by
  unfold dropsType
  cases ht : type.field.bind (askedTransform query) with
  | none => rfl
  | some t =>
    obtain ⟨f, -, hf⟩ := Option.bind_eq_some_iff.1 ht
    refine decide_eq_false fun hdrop => ?_
    cases hv : v f with
    | none => exact OpType.noConfusion ((h.none hv hf).symm.trans hdrop)
    | some n =>
      obtain ⟨t', ht', hop, -⟩ := h.some hv
      obtain rfl : t = t' := Option.some.inj (hf.symm.trans ht')
      exact OpType.noConfusion (hop.symm.trans hdrop)

/-! ## One type -/

/-- What is made of the first transform of a type: without a node for the encryption algorithm, a length
of its key is not looked for. -/
def Transform.applied (query : Option Query) (v : TransformField → Option ℕ) (tr : Transform) : Transform :=
  if tr.type = .encryptionAlgorithm ∧ askedTransform query .encryptionAlgorithm = none then tr
  else tr.request v

/-- The scratch variables have the values of the first transform of the type. -/
theorem load_eq {tr : Transform} (h : s.proposal.transforms.elems.find? (·.type = type) = some tr) :
    s.load type = { s with algo := tr.alg, klen := tr.keySize } := by
  rw [ProposalState.load, Proposal.getAlgorithm, h]
  rfl

theorem type_of_find? {l : List Transform} {tr : Transform} (h : l.find? (·.type = type) = some tr) :
    tr.type = type := by
  simpa using List.find?_some h

theorem proposal_load : (s.load type).proposal = s.proposal := by
  unfold ProposalState.load
  split <;> rfl

theorem elems_updateTransform (h : AsksTransforms query v) (htype : type ≠ .encryptionAlgorithm)
    (s : ProposalState) :
    (updateTransform query type s).proposal.transforms.elems =
      s.proposal.transforms.elems.changeFirst (·.type) (Transform.applied query v) type := by
  have happlied : ∀ tr : Transform, tr.type = type → tr.applied query v =
      { tr with alg := ((type.field.bind v).map UInt16.ofNat).getD tr.alg } := by
    rintro tr rfl
    rw [Transform.applied, if_neg fun hand => htype hand.1, Transform.request, if_neg htype]
  unfold updateTransform
  cases hnode : type.field.bind (askedTransform query) with
  | none =>
    refine (List.changeFirst_of_fixed fun tr htr => ?_).symm
    have hnone : type.field.bind v = none := by
      cases hfield : type.field with
      | none => rfl
      | some f =>
        rw [hfield] at hnode
        exact h.eq_none hnode
    rw [happlied tr htr, hnone]
    rfl
  | some t =>
    obtain ⟨f, hfield, ht⟩ := Option.bind_eq_some_iff.1 hnode
    dsimp only [ProposalState.store, Proposal.setAlgorithm]
    rw [proposal_load]
    refine List.changeFirst_congr fun tr htr => ?_
    rw [happlied tr (type_of_find? htr), load_eq htr, h.word_eq ht, hfield]
    rfl

theorem elems_updateEncryption (h : AsksTransforms query v) (s : ProposalState) :
    (updateEncryption query s).proposal.transforms.elems =
      s.proposal.transforms.elems.changeFirst (·.type) (Transform.applied query v)
        .encryptionAlgorithm := by
  unfold updateEncryption
  cases hnode : askedTransform query .encryptionAlgorithm with
  | none =>
    refine (List.changeFirst_of_fixed fun tr htr => ?_).symm
    rw [Transform.applied, if_pos ⟨htr, hnode⟩]
  | some t =>
    have happlied : ∀ tr : Transform, tr.type = .encryptionAlgorithm → tr.applied query v =
        { tr with
          alg := ((v .encryptionAlgorithm).map UInt16.ofNat).getD tr.alg
          keySize := ((v .encryptionKeyLength).map UInt16.ofNat).getD tr.keySize } := by
      intro tr htr
      rw [Transform.applied, hnode, if_neg fun hand => Option.noConfusion rfl (heq_of_eq hand.2),
        Transform.request, if_pos htr, htr]
      rfl
    cases hlength : askedTransform query .encryptionKeyLength with
    | none =>
      dsimp only [ProposalState.store, Proposal.setAlgorithm]
      rw [proposal_load]
      refine List.changeFirst_congr fun tr htr => ?_
      rw [happlied tr (type_of_find? htr), load_eq htr, h.word_eq hnode, h.eq_none hlength]
      rfl
    | some t' =>
      dsimp only [ProposalState.store, Proposal.setAlgorithm]
      rw [proposal_load]
      refine List.changeFirst_congr fun tr htr => ?_
      rw [happlied tr (type_of_find? htr), load_eq htr, h.word_eq hnode, h.word_eq hlength]

/-! ## All types -/

theorem transforms_updateSpi (p : Proposal) : (updateSpi query p).transforms = p.transforms := by
  unfold updateSpi
  split <;> rfl

theorem transforms_updateNumber (p : Proposal) : (updateNumber query p).transforms = p.transforms := by
  unfold updateNumber
  split <;> rfl

theorem type_applied (tr : Transform) : (tr.applied query v).type = tr.type := by
  unfold Transform.applied
  split <;> rfl

theorem applied_eq_request {tr : Transform} (h : tr.type ≠ .encryptionAlgorithm) :
    tr.applied query v = tr.request v := if_neg fun hand => h hand.1

theorem applied_of_notMem {tr : Transform} (h : tr.type ∉ checkedTypes) : tr.applied query v = tr := by
  obtain ⟨type, alg, keySize⟩ := tr
  dsimp only at h
  cases type with
  | other n => rfl
  | _ => exact absurd (by decide) h

/-- Where the length of the key makes a difference. -/
theorem applied_eq_request_iff (h : AsksTransforms query v) {tr : Transform}
    (htr : tr.type = .encryptionAlgorithm) :
    tr.applied query v = tr.request v ↔
      ∀ n, v .encryptionKeyLength = some n →
        (askedTransform query .encryptionAlgorithm).isSome = true ∨ tr.keySize = UInt16.ofNat n := by
  cases hnode : askedTransform query .encryptionAlgorithm with
  | some t =>
    refine iff_of_true ?_ fun n _ => .inl rfl
    rw [Transform.applied, hnode, if_neg fun hand => Option.noConfusion rfl (heq_of_eq hand.2)]
  | none =>
    have halg : tr.type.field.bind v = none := by
      rw [htr]
      exact h.eq_none hnode
    rw [Transform.applied, if_pos ⟨htr, hnode⟩, Transform.request, if_pos htr, halg]
    cases hlength : v .encryptionKeyLength with
    | none => exact iff_of_true rfl nofun
    | some n =>
      constructor
      · intro heq n' hn'
        cases hn'
        exact .inr (congrArg Transform.keySize heq)
      · intro hcond
        have hsize := (hcond n rfl).resolve_left nofun
        rw [Option.map_some, Option.getD_some, ← hsize]
        rfl

theorem elems_updateProposal (h : AsksTransforms query v) (p : Proposal) :
    (updateProposal query p).transforms.elems =
      List.changeFirstEach (·.type) (Transform.applied query v) [] p.transforms.elems := by
  have hfold : checkedTypes.foldl
      (fun l k => List.changeFirst (·.type) (Transform.applied query v) k l) p.transforms.elems =
      List.changeFirstEach (·.type) (Transform.applied query v) [] p.transforms.elems :=
    List.foldl_changeFirst type_applied (by decide) (fun tr htr _ => applied_of_notMem htr)
      (fun _ _ => List.not_mem_nil) _
  rw [← hfold, updateProposal, transforms_updateSpi, transforms_updateNumber,
    elems_updateTransform h TransformType.noConfusion, elems_updateTransform h TransformType.noConfusion,
    elems_updateTransform h TransformType.noConfusion, elems_updateEncryption h]
  rfl

/-- The first transform of each type gets what is asked for, except for a length of the key without a node
for the encryption algorithm. -/
theorem processProposal_updates_iff (query : Option Query) (v : TransformField → Option ℕ)
    (h : AsksTransforms query v) (p : Proposal) :
    (∃ p', processProposal query p = (p', none) ∧
      p'.transforms.elems = requested v p.transforms.elems) ↔
      ∀ n, v .encryptionKeyLength = some n →
        (askedTransform query .encryptionAlgorithm).isSome = true ∨
        ∀ tr, p.transforms.elems.find? (·.type = .encryptionAlgorithm) = some tr →
          tr.keySize = UInt16.ofNat n := by
  obtain ⟨a, hrun, helems⟩ := processTransforms_of_none fun (tr : Transform) _ => h.dropsType_eq tr.type
  have hprocess : processProposal query p = (updateProposal query { p with transforms := a }, none) := by
    rw [processProposal, hrun]
  have hupdate : (updateProposal query { p with transforms := a }).transforms.elems =
      List.changeFirstEach (·.type) (Transform.applied query v) [] p.transforms.elems := by
    rw [elems_updateProposal h]
    exact congrArg _ helems
  have hexists : (∃ p', processProposal query p = (p', none) ∧
      p'.transforms.elems = requested v p.transforms.elems) ↔
      List.changeFirstEach (·.type) (Transform.applied query v) [] p.transforms.elems =
        requested v p.transforms.elems := by
    rw [hprocess, ← hupdate]
    constructor
    · rintro ⟨p', hp', heq⟩
      cases hp'
      exact heq
    · intro heq
      exact ⟨_, rfl, heq⟩
  rw [hexists, requested, List.changeFirstEach_eq_iff (k := .encryptionAlgorithm)
    (fun tr htr => applied_eq_request htr) List.not_mem_nil]
  constructor
  · intro hall n hn
    by_cases hnode : (askedTransform query .encryptionAlgorithm).isSome = true
    · exact .inl hnode
    · refine .inr fun tr htr => ?_
      exact ((applied_eq_request_iff h (type_of_find? htr)).1 (hall tr htr) n hn).resolve_left hnode
  · intro hcond tr htr
    rw [applied_eq_request_iff h (type_of_find? htr)]
    exact fun n hn => (hcond n hn).imp_right fun hsize => hsize tr htr

/-- Updates of some fields, each with a text. -/
def updateTransforms (fields : List (TransformField × Text)) : Query :=
  transformQuery (fields.map fun (f, text) =>
    ⟨some f.name, .update, valTypeUint .w16 .decimal, some text⟩)

/-- The numbers for the group and the length of the key. -/
def groupAndLength : TransformField → Option ℕ
  | .diffieHellmanGroup => some 19
  | .encryptionKeyLength => some 256
  | _ => none

theorem asksTransforms_groupAndLength :
    AsksTransforms (some (updateTransforms [(.diffieHellmanGroup, "19".toList),
      (.encryptionKeyLength, "256".toList)])) groupAndLength := by
  intro f
  cases f with
  | diffieHellmanGroup => exact ⟨_, rfl, rfl, rfl, by decide +kernel, by decide⟩
  | encryptionKeyLength => exact ⟨_, rfl, rfl, rfl, by decide +kernel, by decide⟩
  | _ =>
    intro t ht
    cases (show (none : Option Query) = some t from ht)

/-- Without an encryption algorithm there is no transform for the length of the key. -/
theorem processProposal_updates_group :
    ∃ p', processProposal (some (updateTransforms [(.diffieHellmanGroup, "19".toList),
        (.encryptionKeyLength, "256".toList)])) (.ofTransforms 1 [⟨.diffieHellmanGroup, 14, 0⟩]) =
        (p', none) ∧
      p'.transforms.elems = [⟨.diffieHellmanGroup, 19, 0⟩] :=
  (processProposal_updates_iff _ groupAndLength asksTransforms_groupAndLength
    (.ofTransforms 1 [⟨.diffieHellmanGroup, 14, 0⟩])).2 fun _ _ => .inr nofun

/-- The length of the key alone. -/
theorem processProposal_not_updates :
    (processProposal (some (updateTransforms [(.encryptionKeyLength, "256".toList)]))
      (.ofTransforms 1 offer)).2 = none ∧
    (processProposal (some (updateTransforms [(.encryptionKeyLength, "256".toList)]))
      (.ofTransforms 1 offer)).1.transforms.elems = offer ∧
    requested (fun f => if f = .encryptionKeyLength then some 256 else none) offer =
      offer.set 3 ⟨.encryptionAlgorithm, 12, 256⟩ := by
  decide +kernel

end Epdg

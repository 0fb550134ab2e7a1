import VoWiFi.Ims.Mutation
import VoWiFi.Ims.Proofs.FrameProofs

/-!
# What a query makes of a response

Each of the six blocks of `process_query`, where it does not stop, is an edit of one attribute of one
header. From this follow the frame of the whole query (`framed_of_processQuery`) and, since whether a
block stops shows in its attribute alone, the queries that do not stop (`harmless_iff`).
-/

namespace Ims

open Footprint

variable {m m' : SipMessage} {key key' attr : Text} {query : Option Query} {rand : ℕ → ℕ}
  {f g : List Val → List Val}

/-! ## Edits of a header -/

theorem setFirst_eq_changeFirst (vlst : List Val) (kvps : List Kvp) :
    setFirst key vlst kvps = kvps.changeFirst Kvp.key (fun kvp => { kvp with vlst := vlst }) key := by
  induction kvps with
  | nil => rfl
  | cons kvp kvps ih =>
    rw [List.changeFirst]
    by_cases hk : kvp.key = key
    · rw [if_pos hk, setFirst_cons_of_eq hk, hk]
    · rw [if_neg hk, setFirst_cons_of_ne hk, ih]

theorem key_edit (f : List Val → List Val) (kvp : Kvp) : Kvp.key { kvp with vlst := f kvp.vlst } = kvp.key :=
  rfl

theorem setVlst_eq_editHeader {kvp : Kvp} (h : m.getKvp key = some kvp) :
    m.setVlst key (f kvp.vlst) = m.editHeader key f := by
  have hkvps : setFirst key (f kvp.vlst) m.kvps =
      m.kvps.changeFirst Kvp.key (fun kvp => { kvp with vlst := f kvp.vlst }) key := by
    rw [setFirst_eq_changeFirst]
    refine List.changeFirst_congr fun kvp' hk' => ?_
    obtain rfl := Option.some.inj (h.symm.trans hk')
    rfl
  rw [SipMessage.editHeader, ← hkvps]
  rfl

theorem editHeader_id : (m.editHeader key fun vlst => vlst) = m := by
  rw [SipMessage.editHeader, List.changeFirst_of_fixed fun kvp _ => rfl]

theorem editHeader_of_none (h : m.getKvp key = none) : m.editHeader key f = m := by
  have hkvps : m.kvps.changeFirst Kvp.key (fun kvp => { kvp with vlst := f kvp.vlst }) key =
      m.kvps.changeFirst Kvp.key (fun kvp => kvp) key := by
    refine List.changeFirst_congr fun kvp hk => ?_
    exact absurd (h.symm.trans hk) nofun
  rw [SipMessage.editHeader, hkvps, List.changeFirst_of_fixed fun _ _ => rfl]

theorem editHeader_editHeader :
    (m.editHeader key f).editHeader key g = m.editHeader key fun vlst => g (f vlst) :=
  congrArg (SipMessage.mk m.mtype m.mname m.additional) (List.changeFirst_changeFirst (key_edit f))

theorem getKvp_editHeader : (m.editHeader key f).getKvp key =
    (m.getKvp key).map fun kvp => { kvp with vlst := f kvp.vlst } :=
  List.find?_changeFirst (key_edit f)

theorem getKvp_editHeader_of_ne (h : key' ≠ key) : (m.editHeader key f).getKvp key' = m.getKvp key' :=
  List.find?_changeFirst_of_ne (key_edit f) h

theorem map_key_editHeader : (m.editHeader key f).kvps.map Kvp.key = m.kvps.map Kvp.key :=
  List.map_key_changeFirst (key_edit f)

theorem position_editHeader : (m.editHeader key f).position key' = m.position key' :=
  List.findIdx_changeFirst (p := fun k => decide (k = key')) (key_edit f)

theorem getElem?_editHeader {i : ℕ} (h : i ≠ m.position key) : (m.editHeader key f).kvps[i]? = m.kvps[i]? :=
  List.getElem?_changeFirst_of_ne h

theorem change_eq_editHeader {h : List Val → Except Fault (List Val)}
    (hspec : ∀ vlst vlst', h vlst = .ok vlst' → vlst' = f vlst) (hm : m.change key h = .ok m') :
    m' = m.editHeader key f := by
  rcases change_eq_ok hm with ⟨hnone, rfl⟩ | ⟨kvp, vlst, hk, hvlst, rfl⟩
  · exact (editHeader_of_none hnone).symm
  · rw [hspec _ _ hvlst, setVlst_eq_editHeader hk]

theorem change_value_eq_editHeader {value : Text}
    (h : (m.change key fun vlst => changeValueByName vlst attr value) = .ok m') :
    m' = m.editHeader key ((Edit.replace value).apply attr) := by
  refine change_eq_editHeader (fun vlst vlst' hvlst => ?_) h
  rw [changeValueByName] at hvlst
  split at hvlst
  · cases hvlst
  · exact (Except.ok.inj hvlst).symm

theorem change_del_eq_editHeader (h : (m.change key fun vlst => delValueByName vlst attr) = .ok m') :
    m' = m.editHeader key (Edit.remove.apply attr) :=
  change_eq_editHeader (fun _ _ hvlst => (delValueByName_eq_ok hvlst).2) h

/-! ## Edits of the blocks -/

theorem QNode.IsUpdate.op_ne_drop {q : QNode} (h : q.IsUpdate) : q.op ≠ .drop := by
  intro hdrop
  cases hdrop.symm.trans h.2

theorem editOf_update {q : QNode} (h : q.IsUpdate) (value : Text → Text) :
    editOf (some q) value = .replace (value q.value) := if_pos h

theorem editOf_drop {q : QNode} (h : q.op = .drop) (value : Text → Text) :
    editOf (some q) value = .remove := (if_neg fun hu => hu.op_ne_drop h).trans (if_pos h)

theorem editOf_other {q : QNode} (hu : ¬ q.IsUpdate) (hd : q.op ≠ .drop) (value : Text → Text) :
    editOf (some q) value = .keep := (if_neg hu).trans (if_neg hd)

/-- A block edits its attribute, if it does not stop. -/
theorem changeAttribute_eq_ok {section_ attr key : String} {value : Text → Text}
    (h : changeAttribute query section_ attr key value m = .ok m') :
    m' = m.editHeader key.toList
      ((editOf (attributeQuery query section_.toList attr.toList) value).apply attr.toList) := by
  rw [changeAttribute] at h
  cases hq : attributeQuery query section_.toList attr.toList with
  | none =>
    rw [hq] at h
    exact (Except.ok.inj h).symm.trans editHeader_id.symm
  | some q =>
    rw [hq] at h
    dsimp only at h
    by_cases hu : q.IsUpdate
    · rw [if_pos (show _ ∧ _ from hu)] at h
      rw [editOf_update hu]
      exact change_value_eq_editHeader h
    · rw [if_neg (show ¬ (_ ∧ _) from hu)] at h
      by_cases hd : q.op = .drop
      · rw [if_pos hd] at h
        rw [editOf_drop hd]
        exact change_del_eq_editHeader h
      · rw [if_neg hd] at h
        rw [editOf_other hu hd]
        exact (Except.ok.inj h).symm.trans editHeader_id.symm

theorem changeAlgorithm_eq_ok (h : changeAlgorithm query m = .ok m') :
    m' = m.editHeader "WWW-Authenticate".toList
      ((editOf (attributeQuery query "www_authenticate".toList "algorithm".toList)
        algorithmValue).apply "algorithm".toList) := by
  cases hq : attributeQuery query "www_authenticate".toList "algorithm".toList with
  | none =>
    rw [changeAlgorithm, hq] at h
    exact (Except.ok.inj h).symm.trans editHeader_id.symm
  | some q =>
    by_cases hu : q.IsUpdate
    · rw [changeAlgorithm_of_update hq hu] at h
      rw [editOf_update hu]
      exact change_value_eq_editHeader h
    · obtain ⟨e, he⟩ := changeAlgorithm_of_not_update hq hu m
      cases he.symm.trans h

/-- The nonce is edited to one of its own length. -/
def nonceEdit (query : Option Query) (rand : ℕ → ℕ) (vlst : List Val) : Edit :=
  editOf (attributeQuery query "www_authenticate".toList "nonce".toList)
    (nonceValue rand ((getValueLength vlst "nonce".toList).getD 0))

theorem changeNonce_eq_ok (h : changeNonce query rand m = .ok m') :
    m' = m.editHeader "WWW-Authenticate".toList fun vlst =>
      (nonceEdit query rand vlst).apply "nonce".toList vlst := by
  rw [changeNonce] at h
  simp only [nonceEdit]
  cases hq : attributeQuery query "www_authenticate".toList "nonce".toList with
  | none =>
    rw [hq] at h
    exact (Except.ok.inj h).symm.trans editHeader_id.symm
  | some q =>
    rw [hq] at h
    dsimp only at h
    cases hk : m.getKvp "WWW-Authenticate".toList with
    | none =>
      rw [hk] at h
      cases h
    | some kvp =>
      rw [hk] at h
      dsimp only at h
      by_cases hu : q.IsUpdate
      · rw [if_pos (show _ ∧ _ from hu)] at h
        simp only [editOf_update hu]
        cases hlen : getValueLength kvp.vlst "nonce".toList with
        | none =>
          rw [hlen] at h
          cases h
        | some length =>
          rw [hlen] at h
          rw [change_value_eq_editHeader h, ← setVlst_eq_editHeader hk, ← setVlst_eq_editHeader hk, hlen]
          rfl
      · rw [if_neg (show ¬ (_ ∧ _) from hu)] at h
        by_cases hd : q.op = .drop
        · rw [if_pos hd] at h
          simp only [editOf_drop hd]
          exact change_del_eq_editHeader h
        · rw [if_neg hd] at h
          simp only [editOf_other hu hd]
          exact (Except.ok.inj h).symm.trans editHeader_id.symm

/-! ## The frame of a query -/

/-- A query that returns has carried out its edits. -/
theorem processQuery_eq_ok (h : processQuery query rand m = .ok m') : m' = m.mutated query rand := by
  rw [processQuery_eq_runAll, blocks] at h
  obtain ⟨m₁, h₁, h⟩ := runAll_cons_eq_ok h
  obtain ⟨m₂, h₂, h⟩ := runAll_cons_eq_ok h
  obtain ⟨m₃, h₃, h⟩ := runAll_cons_eq_ok h
  obtain ⟨m₄, h₄, h⟩ := runAll_cons_eq_ok h
  obtain ⟨m₅, h₅, h⟩ := runAll_cons_eq_ok h
  obtain ⟨m₆, h₆, h⟩ := runAll_cons_eq_ok h
  rw [← Except.ok.inj h, changeAttribute_eq_ok h₆, changeAttribute_eq_ok h₅,
    changeAttribute_eq_ok h₄, changeAttribute_eq_ok h₃, changeAlgorithm_eq_ok h₂, changeNonce_eq_ok h₁,
    editHeader_editHeader, editHeader_editHeader, editHeader_editHeader, editHeader_editHeader]
  rfl

theorem security_ne_authenticate : "Security-Server".toList ≠ "WWW-Authenticate".toList := by
  decide +kernel

theorem framed_mutated (query : Option Query) (rand : ℕ → ℕ) (m : SipMessage) :
    m.Framed query rand (m.mutated query rand) := by
  refine ⟨rfl, rfl, ?_, fun i hw hs => ?_, ?_, ?_⟩
  · rw [SipMessage.mutated, map_key_editHeader, map_key_editHeader]
  · rw [SipMessage.mutated, getElem?_editHeader (by rwa [position_editHeader]), getElem?_editHeader hw]
  · rw [SipMessage.mutated, getKvp_editHeader_of_ne security_ne_authenticate.symm, getKvp_editHeader]
  · rw [SipMessage.mutated, getKvp_editHeader, getKvp_editHeader_of_ne security_ne_authenticate]

/-- A query that returns changes the values of its attributes in the first headers of their names, or
takes their first entries out, and keeps everything else. -/
theorem framed_of_processQuery (query : Option Query) (rand : ℕ → ℕ) (m m' : SipMessage)
    (h : processQuery query rand m = .ok m') : m.Framed query rand m' := by
  rw [processQuery_eq_ok h]
  exact framed_mutated query rand m

theorem framed_of_processQuery_alg :
    processQuery (some (sampleQuery "security_server" "alg" "hmac-md5-96")) (fun _ => 0)
      (sampleOk "hmac-sha-1-96") = .ok (sampleOk "hmac-md5-96") ∧
    (sampleOk "hmac-sha-1-96").Framed (some (sampleQuery "security_server" "alg" "hmac-md5-96"))
      (fun _ => 0) (sampleOk "hmac-md5-96") :=
  ⟨by decide +kernel, framed_of_processQuery _ _ _ _ (by decide +kernel)⟩

/-! ## Blocks that stop -/

theorem exists_change_iff {h : List Val → Except Fault (List Val)} :
    (∃ m', m.change key h = .ok m') ↔ ∀ kvp ∈ m.getKvp key, ∃ vlst, h kvp.vlst = .ok vlst := by
  rw [SipMessage.change]
  cases m.getKvp key with
  | none => simp
  | some kvp =>
    simp only [Option.mem_def, Option.some.injEq, forall_eq']
    cases h kvp.vlst with
    | error e =>
      refine iff_of_false ?_ ?_
      · rintro ⟨m', hm'⟩
        cases hm'
      · rintro ⟨vlst, hvlst⟩
        cases hvlst
    | ok vlst => exact iff_of_true ⟨_, rfl⟩ ⟨_, rfl⟩

theorem exists_change_value {value : Text} (h : value ≠ []) :
    ∃ m', (m.change key fun vlst => changeValueByName vlst attr value) = .ok m' :=
  exists_change_iff.2 fun _ _ => ⟨_, changeValueByName_eq h _ _⟩

theorem any_iff_named_ne_nil {vlst : List Val} :
    vlst.any (·.attr = some attr) = true ↔ named attr vlst ≠ [] := by
  rw [named, Ne, List.filter_eq_nil_iff, List.any_eq_true]
  push Not
  rfl

theorem exists_delValueByName_iff {vlst : List Val} :
    (∃ vlst', delValueByName vlst attr = .ok vlst') ↔ named attr vlst ≠ [] := by
  rw [← any_iff_named_ne_nil, delValueByName]
  split
  · exact iff_of_true ⟨_, rfl⟩ ‹_›
  · refine iff_of_false ?_ ‹_›
    rintro ⟨vlst', hvlst'⟩
    cases hvlst'

theorem exists_change_del_iff :
    (∃ m', (m.change key fun vlst => delValueByName vlst attr) = .ok m') ↔
      ∀ vs ∈ m.attributes key attr, vs ≠ [] := by
  rw [exists_change_iff, SipMessage.attributes]
  cases m.getKvp key with
  | none => simp
  | some kvp =>
    simp only [Option.mem_def, Option.some.injEq, forall_eq', Option.map_some]
    exact exists_delValueByName_iff

theorem exists_changeAttribute_iff {section_ attr key : String} {value : Text → Text}
    (h : ∀ s, value s ≠ []) :
    (∃ m', changeAttribute query section_ attr key value m = .ok m') ↔
      ∀ q ∈ attributeQuery query section_.toList attr.toList, q.op = .drop →
        ∀ vs ∈ m.attributes key.toList attr.toList, vs ≠ [] := by
  rw [changeAttribute]
  cases attributeQuery query section_.toList attr.toList with
  | none => simp
  | some q =>
    simp only [Option.mem_def, Option.some.injEq, forall_eq']
    by_cases hu : q.IsUpdate
    · rw [if_pos (show _ ∧ _ from hu)]
      exact iff_of_true (exists_change_value (h _)) fun hd => absurd hd hu.op_ne_drop
    · rw [if_neg (show ¬ (_ ∧ _) from hu)]
      by_cases hd : q.op = .drop
      · rw [if_pos hd, exists_change_del_iff]
        simp [hd]
      · rw [if_neg hd]
        exact iff_of_true ⟨m, rfl⟩ fun hd' => absurd hd' hd

theorem exists_changeAlgorithm_iff : (∃ m', changeAlgorithm query m = .ok m') ↔
    ∀ q ∈ attributeQuery query "www_authenticate".toList "algorithm".toList, q.IsUpdate := by
  constructor
  · rintro ⟨m', h⟩ q hq
    by_contra hu
    obtain ⟨e, he⟩ := changeAlgorithm_of_not_update hq hu m
    exact absurd (he.symm.trans h) nofun
  · intro h
    cases hq : attributeQuery query "www_authenticate".toList "algorithm".toList with
    | none => exact ⟨m, by rw [changeAlgorithm, hq]⟩
    | some q =>
      rw [changeAlgorithm_of_update hq (h q hq)]
      exact exists_change_value (algorithmValue_ne_nil _)

theorem getValueLength_eq (vlst : List Val) : getValueLength vlst attr =
    (named attr vlst).head?.map fun v => (v.val.getD []).length := by
  rw [getValueLength, named, List.head?_filter]

theorem exists_changeNonce_iff : (∃ m', changeNonce query rand m = .ok m') ↔
    NonceSafe query (m.attributes "WWW-Authenticate".toList "nonce".toList) := by
  rw [changeNonce, NonceSafe]
  cases attributeQuery query "www_authenticate".toList "nonce".toList with
  | none => simp
  | some q =>
    simp only [Option.mem_def, Option.some.injEq, forall_eq']
    cases hk : m.getKvp "WWW-Authenticate".toList with
    | none =>
      have hnone : m.attributes "WWW-Authenticate".toList "nonce".toList = none := by
        rw [SipMessage.attributes, hk]
        rfl
      rw [hnone]
      refine iff_of_false ?_ ?_
      · rintro ⟨m', hm'⟩
        cases hm'
      · rintro ⟨vs, hvs, -⟩
        cases hvs
    | some kvp =>
      simp only [attributes_eq hk, Option.some.injEq, exists_eq_left']
      by_cases hu : q.IsUpdate
      · have hd : q.op ≠ .drop := hu.op_ne_drop
        rw [if_pos (show _ ∧ _ from hu), getValueLength_eq]
        simp only [hu, hd, true_imp_iff, false_imp_iff, and_true]
        cases (named "nonce".toList kvp.vlst).head? with
        | none => simp
        | some v =>
          simp only [Option.map_some, Option.some.injEq, exists_eq_left']
          by_cases hv : v.val.getD [] = []
          · -- the new nonce is empty as well, and fails the assertion on its length
            have hnil : nonceValue rand (v.val.getD []).length q.value = [] :=
              nonceValue_eq_nil_iff.2 (by rw [hv]; rfl)
            rw [exists_change_iff, hnil, hk]
            simp [changeValueByName, hv]
          · have hne : nonceValue rand (v.val.getD []).length q.value ≠ [] := fun hnil =>
              hv (List.length_eq_zero_iff.1 (nonceValue_eq_nil_iff.1 hnil))
            exact iff_of_true (exists_change_value hne) hv
      · rw [if_neg (show ¬ (_ ∧ _) from hu)]
        by_cases hd : q.op = .drop
        · rw [if_pos hd, exists_change_del_iff, attributes_eq hk]
          simp [hu, hd]
        · rw [if_neg hd]
          exact iff_of_true ⟨m, rfl⟩ ⟨fun hu' => absurd hu' hu, fun hd' => absurd hd' hd⟩

/-! ## Queries that return -/

theorem decided_of_iff {p : Text × Text} {block : SipMessage → Except Fault SipMessage}
    {P : Option (List Val) → Prop}
    (h : ∀ m, (∃ m', block m = .ok m') ↔ P (m.attributes p.1 p.2)) : Decided attributesAt p block := by
  intro m₁ m₂ hview hok
  rw [h m₁] at hok
  rw [h m₂]
  have hsame : m₁.attributes p.1 p.2 = m₂.attributes p.1 p.2 := hview
  rwa [← hsame]

theorem serverValues_ne_nil : ∀ p ∈ serverValues, ∀ s, p.2 s ≠ [] := by
  simp only [serverValues, List.forall_mem_cons]
  exact ⟨choose_ne_nil (by decide), choose_ne_nil (by decide), choose_ne_nil (by decide),
    choose_ne_nil (by decide), List.forall_mem_nil _⟩

/-- The blocks for `Security-Server` are those of the table. -/
theorem blocks_eq : blocks query rand =
    (("WWW-Authenticate".toList, "nonce".toList), changeNonce query rand) ::
      (("WWW-Authenticate".toList, "algorithm".toList), changeAlgorithm query) ::
      serverValues.map fun p => (("Security-Server".toList, p.1.toList),
        changeAttribute query "security_server" p.1 "Security-Server" p.2) := rfl

theorem blocks_decided : ∀ p ∈ blocks query rand, Decided attributesAt p.1 p.2 := by
  rw [blocks_eq, List.forall_mem_cons, List.forall_mem_cons, List.forall_mem_map]
  refine ⟨decided_of_iff (P := NonceSafe query) fun m => exists_changeNonce_iff, ?_, fun p hp =>
    decided_of_iff (P := ServerSafe query p.1) fun m =>
      exists_changeAttribute_iff (serverValues_ne_nil p hp)⟩
  -- whether the algorithm can be changed does not depend on the message at all
  intro m₁ m₂ _ hok
  exact exists_changeAlgorithm_iff.2 (exists_changeAlgorithm_iff.1 hok)

theorem exists_processQuery_iff : (∃ m', processQuery query rand m = .ok m') ↔ Safe query m := by
  rw [processQuery_eq_runAll, exists_runAll_iff blocks_local blocks_decided blocks_nodup, blocks_eq,
    List.forall_mem_cons, List.forall_mem_cons, List.forall_mem_map, exists_changeNonce_iff,
    exists_changeAlgorithm_iff]
  constructor
  · rintro ⟨hnonce, halgorithm, hserver⟩
    exact ⟨hnonce, halgorithm, fun p hp =>
      (exists_changeAttribute_iff (serverValues_ne_nil p hp)).1 (hserver p hp)⟩
  · rintro ⟨hnonce, halgorithm, hserver⟩
    exact ⟨hnonce, halgorithm, fun p hp =>
      (exists_changeAttribute_iff (serverValues_ne_nil p hp)).2 (hserver p hp)⟩

/-! ## Attributes that are missing -/

theorem apply_of_named_eq_nil {vlst : List Val} (h : named attr vlst = []) (edit : Edit) :
    edit.apply attr vlst = vlst := by
  have hne : ∀ v ∈ vlst, v.attr ≠ some attr := by
    intro v hv hattr
    have hmem : v ∈ named attr vlst := List.mem_filter.2 ⟨hv, decide_eq_true hattr⟩
    rw [h] at hmem
    cases hmem
  cases edit with
  | keep => rfl
  | replace value =>
    rw [Edit.apply]
    nth_rewrite 2 [← List.map_id vlst]
    rw [List.map_inj_left]
    intro v hv
    rw [if_neg (hne v hv), id]
  | remove =>
    rw [Edit.apply]
    exact List.eraseP_of_forall_not fun v hv => by simpa using hne v hv

/-- An edit of an attribute that is not there changes nothing. -/
theorem editHeader_of_lacks (h : m.Lacks key attr) (edit : List Val → Edit) :
    (m.editHeader key fun vlst => (edit vlst).apply attr vlst) = m := by
  cases hk : m.getKvp key with
  | none => exact editHeader_of_none hk
  | some kvp =>
    have hnil : named attr kvp.vlst = [] := h _ (attributes_eq hk)
    rw [← setVlst_eq_editHeader hk, apply_of_named_eq_nil hnil, setVlst_self hk]

/-- Every block edits the attribute it is about. -/
theorem blocks_eq_ok : ∀ block ∈ blocks query rand, ∀ m m', block.2 m = .ok m' →
    ∃ edit : List Val → Edit,
      m' = m.editHeader block.1.1 fun vlst => (edit vlst).apply block.1.2 vlst := by
  rw [blocks_eq, List.forall_mem_cons, List.forall_mem_cons, List.forall_mem_map]
  exact ⟨fun _ _ h => ⟨_, changeNonce_eq_ok h⟩, fun _ _ h => ⟨fun _ => _, changeAlgorithm_eq_ok h⟩,
    fun _ _ _ _ h => ⟨fun _ => _, changeAttribute_eq_ok h⟩⟩

theorem block_of_lacks {before behind : List ((Text × Text) × (SipMessage → Except Fault SipMessage))}
    {block : (Text × Text) × (SipMessage → Except Fault SipMessage)} {m₁ : SipMessage}
    (hsafe : Safe query m) (hsplit : blocks query rand = before ++ block :: behind)
    (hrun : runAll before m = .ok m₁) (hlacks : m.Lacks block.1.1 block.1.2) :
    block.2 m₁ = .ok m₁ := by
  obtain ⟨m', hall⟩ : ∃ m', processQuery query rand m = .ok m' := exists_processQuery_iff.2 hsafe
  rw [processQuery_eq_runAll, hsplit, runAll_append, hrun] at hall
  obtain ⟨m₂, hblock, -⟩ := runAll_cons_eq_ok hall
  -- the blocks in front have other attributes
  have hview : attributesAt block.1 m₁ = attributesAt block.1 m := by
    have hlocal : ∀ p ∈ blocks query rand, Local attributesAt p.1 p.2 := blocks_local
    have hnodup : ((blocks query rand).map Prod.fst).Nodup := blocks_nodup
    rw [hsplit] at hlocal hnodup
    rw [List.map_append, List.map_cons] at hnodup
    refine view_runAll (fun p hp => hlocal p (List.mem_append_left _ hp)) (fun hmem => ?_) hrun
    exact List.disjoint_of_nodup_append hnodup hmem List.mem_cons_self
  have hlacks₁ : m₁.Lacks block.1.1 block.1.2 := by
    intro vs hvs
    exact hlacks vs (hview.symm.trans hvs)
  have hmem : block ∈ blocks query rand := by
    rw [hsplit]
    exact List.mem_append_right _ List.mem_cons_self
  obtain ⟨edit, hedit⟩ := blocks_eq_ok block hmem m₁ m₂ hblock
  rw [hblock, hedit, editHeader_of_lacks hlacks₁]

/-- A query does no harm to a message exactly if the message has what the query needs. -/
theorem harmless_iff (query : Option Query) (rand : ℕ → ℕ) (m : SipMessage) :
    Harmless query rand m ↔ Safe query m := by
  constructor
  · intro h
    exact exists_processQuery_iff.1 h.returns
  · intro h
    exact ⟨exists_processQuery_iff.2 h, fun _ _ _ _ hsplit hrun hlacks =>
      block_of_lacks h hsplit hrun hlacks⟩

/-- A query that drops an attribute. -/
def sampleDrop (header attr : String) : Query :=
  .node ⟨"401_unauthorized".toList, .notSet, 0, []⟩
    [.node ⟨header.toList, .notSet, 0, []⟩
      [.node ⟨attr.toList, .drop, 0, []⟩ []]]

/-- A 401 response with one header. -/
def sampleUnauthorized (key value : String) : SipMessage :=
  ⟨some .response, "unauthorized".toList, "401".toList, [⟨key.toList, initVlst value.toList⟩]⟩

/-- Without a header for it an update of the nonce stops at an assertion, a drop of an attribute that is
missing follows a null pointer, and a drop of the algorithm prints a variable that is not set. -/
theorem not_harmless_401 :
    (initSipMessage "SIP/2.0 401 Unauthorized\r\nSecurity-Server: mod=trans\r\n\r\n".toList =
        .ok (sampleUnauthorized "Security-Server" "mod=trans") ∧
      processQuery (some (sampleQuery "www_authenticate" "nonce" "max")) (fun _ => 0)
        (sampleUnauthorized "Security-Server" "mod=trans") = .error .assertion ∧
      processQuery (some (sampleDrop "security_server" "alg")) (fun _ => 0)
        (sampleUnauthorized "Security-Server" "mod=trans") = .error .nullPointer ∧
      ¬ Harmless (some (sampleDrop "security_server" "alg")) (fun _ => 0)
        (sampleUnauthorized "Security-Server" "mod=trans")) ∧
    (initSipMessage "SIP/2.0 401 Unauthorized\r\nWWW-Authenticate: algorithm=MD5\r\n\r\n".toList =
        .ok (sampleUnauthorized "WWW-Authenticate" "algorithm=MD5") ∧
      processQuery (some (sampleDrop "www_authenticate" "algorithm")) (fun _ => 0)
        (sampleUnauthorized "WWW-Authenticate" "algorithm=MD5") = .error .unsetVariable) := by
  have hdrop : processQuery (some (sampleDrop "security_server" "alg")) (fun _ => 0)
      (sampleUnauthorized "Security-Server" "mod=trans") = .error .nullPointer := by decide +kernel
  refine ⟨⟨by decide +kernel, by decide +kernel, hdrop, fun h => ?_⟩, by decide +kernel, by decide +kernel⟩
  obtain ⟨m', hm'⟩ := h.returns
  exact absurd (hdrop.symm.trans hm') nofun

end Ims

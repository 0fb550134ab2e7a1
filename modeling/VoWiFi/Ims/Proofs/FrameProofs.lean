import VoWiFi.Ims.Frame
import VoWiFi.Lib.Footprint

/-!
# What a query changes in a response

The six blocks of `process_query` are updates with disjoint footprints: each is about one attribute of
one header. A message therefore passes unchanged exactly if every block leaves it alone, and a block
does so exactly if the part of the query for its attribute is idle (`untouched_iff`).
-/

namespace Ims

open Footprint

/-! ## Lists of attributes -/

/-- The attributes of a name in a list. -/
def named (attr : Text) (vlst : List Val) : List Val := vlst.filter (·.attr = some attr)

theorem named_cons_of_eq {attr : Text} {v : Val} (h : v.attr = some attr) (vlst : List Val) :
    named attr (v :: vlst) = v :: named attr vlst :=
  List.filter_cons_of_pos (decide_eq_true h)

theorem named_cons_of_ne {attr : Text} {v : Val} (h : v.attr ≠ some attr) (vlst : List Val) :
    named attr (v :: vlst) = named attr vlst :=
  List.filter_cons_of_neg (by simpa using h)

/-- What `change_value_from_kvp_by_name` makes of one attribute. -/
def setNamed (attr value : Text) (v : Val) : Val :=
  if v.attr = some attr then { v with val := some value } else v

theorem setNamed_attr (attr value : Text) (v : Val) : (setNamed attr value v).attr = v.attr := by
  rw [setNamed]
  split <;> rfl

theorem named_map_of_ne {attr attr' value : Text} (h : attr' ≠ attr) (vlst : List Val) :
    named attr' (vlst.map (setNamed attr value)) = named attr' vlst := by
  induction vlst with
  | nil => rfl
  | cons v vlst ih =>
    rw [List.map_cons]
    by_cases hv : v.attr = some attr'
    · have hsame : setNamed attr value v = v := by
        rw [setNamed, if_neg]
        intro hv'
        exact h (Option.some.inj (hv.symm.trans hv'))
      rw [hsame, named_cons_of_eq hv, named_cons_of_eq hv, ih]
    · rw [named_cons_of_ne hv, named_cons_of_ne (by rwa [setNamed_attr]), ih]

theorem map_eq_self_of_named {attr value : Text} {vlst : List Val}
    (h : named attr (vlst.map (setNamed attr value)) = named attr vlst) :
    vlst.map (setNamed attr value) = vlst := by
  induction vlst with
  | nil => rfl
  | cons v vlst ih =>
    rw [List.map_cons] at h ⊢
    by_cases hv : v.attr = some attr
    · rw [named_cons_of_eq hv, named_cons_of_eq (by rwa [setNamed_attr])] at h
      obtain ⟨hhead, htail⟩ := List.cons.inj h
      rw [hhead, ih htail]
    · rw [named_cons_of_ne hv, named_cons_of_ne (by rwa [setNamed_attr])] at h
      rw [ih h, setNamed, if_neg hv]

theorem changeValueByName_eq {value : Text} (h : value ≠ []) (vlst : List Val) (attr : Text) :
    changeValueByName vlst attr value = .ok (vlst.map (setNamed attr value)) := by
  rw [changeValueByName, if_neg h]
  rfl

theorem changeValueByName_local (attr value : Text) :
    Local named attr fun vlst => changeValueByName vlst attr value := by
  by_cases h : value = []
  · have herr : (fun vlst => changeValueByName vlst attr value) = fun _ => .error .assertion := by
      funext vlst
      rw [changeValueByName, if_pos h]
    rw [herr]
    exact Local.error _
  · simp only [changeValueByName_eq h]
    constructor
    · rintro vlst _ ⟨⟩ attr' hne
      exact named_map_of_ne hne vlst
    · rintro vlst _ ⟨⟩ hview
      exact map_eq_self_of_named hview

theorem changeValueByName_eq_self_iff {value : Text} (h : value ≠ []) {vlst : List Val} {attr : Text} :
    changeValueByName vlst attr value = .ok vlst ↔ ∀ v ∈ named attr vlst, v.val = some value := by
  rw [changeValueByName_eq h, Except.ok.injEq]
  nth_rewrite 2 [← List.map_id vlst]
  rw [List.map_inj_left]
  constructor
  · intro hmap v hv
    obtain ⟨hmem, hattr⟩ := List.mem_filter.1 hv
    have hset := hmap v hmem
    rw [setNamed, if_pos (of_decide_eq_true hattr)] at hset
    exact (congrArg Val.val hset).symm
  · intro hval v hv
    rw [setNamed]
    by_cases hattr : v.attr = some attr
    · rw [if_pos hattr, ← hval v (List.mem_filter.2 ⟨hv, decide_eq_true hattr⟩)]
      rfl
    · rw [if_neg hattr]
      rfl

theorem named_eraseP_of_ne {attr attr' : Text} (h : attr' ≠ attr) (vlst : List Val) :
    named attr' (vlst.eraseP (·.attr = some attr)) = named attr' vlst := by
  induction vlst with
  | nil => rfl
  | cons v vlst ih =>
    by_cases hv : v.attr = some attr
    · rw [List.eraseP_cons_of_pos (by simpa using hv), named_cons_of_ne]
      rw [hv]
      exact fun h' => h (Option.some.inj h').symm
    · rw [List.eraseP_cons_of_neg (by simpa using hv)]
      by_cases hv' : v.attr = some attr'
      · rw [named_cons_of_eq hv', named_cons_of_eq hv', ih]
      · rw [named_cons_of_ne hv', named_cons_of_ne hv', ih]

theorem length_named_eraseP {attr : Text} {vlst : List Val}
    (h : vlst.any (·.attr = some attr) = true) :
    (named attr (vlst.eraseP (·.attr = some attr))).length + 1 = (named attr vlst).length := by
  induction vlst with
  | nil => cases h
  | cons v vlst ih =>
    by_cases hv : v.attr = some attr
    · rw [List.eraseP_cons_of_pos (by simpa using hv), named_cons_of_eq hv, List.length_cons]
    · rw [List.eraseP_cons_of_neg (by simpa using hv), named_cons_of_ne hv, named_cons_of_ne hv]
      apply ih
      rwa [List.any_cons, decide_eq_false hv, Bool.false_or] at h

theorem delValueByName_eq_ok {vlst vlst' : List Val} {attr : Text}
    (h : delValueByName vlst attr = .ok vlst') :
    vlst.any (·.attr = some attr) = true ∧ vlst' = vlst.eraseP (·.attr = some attr) := by
  rw [delValueByName] at h
  split at h
  · exact ⟨‹_›, (Except.ok.inj h).symm⟩
  · cases h

theorem delValueByName_local (attr : Text) :
    Local named attr fun vlst => delValueByName vlst attr where
  frame vlst vlst' h attr' hne := by
    obtain ⟨-, rfl⟩ := delValueByName_eq_ok h
    exact named_eraseP_of_ne hne vlst
  visible vlst vlst' h hview := by
    obtain ⟨hany, rfl⟩ := delValueByName_eq_ok h
    have hlen := length_named_eraseP hany
    rw [hview] at hlen
    omega

theorem delValueByName_ne_self (vlst : List Val) (attr : Text) :
    delValueByName vlst attr ≠ .ok vlst := by
  intro h
  obtain ⟨hany, hself⟩ := delValueByName_eq_ok h
  have hlen := length_named_eraseP hany
  rw [← hself] at hlen
  omega

/-! ## Headers -/

variable {m : SipMessage} {key key' attr : Text} {kvp : Kvp} {vlst : List Val}

/-- The list of headers after `setVlst`. -/
def setFirst (key : Text) (vlst : List Val) (kvps : List Kvp) : List Kvp :=
  kvps.replaceF fun kvp => if kvp.key = key then some ⟨key, vlst⟩ else none

theorem setFirst_cons_of_eq (h : kvp.key = key) (kvps : List Kvp) :
    setFirst key vlst (kvp :: kvps) = ⟨key, vlst⟩ :: kvps := by
  simp [setFirst, List.replaceF, h]

theorem setFirst_cons_of_ne (h : kvp.key ≠ key) (kvps : List Kvp) :
    setFirst key vlst (kvp :: kvps) = kvp :: setFirst key vlst kvps := by
  simp [setFirst, List.replaceF, h]

theorem find?_setFirst_of_ne (h : key' ≠ key) (kvps : List Kvp) :
    (setFirst key vlst kvps).find? (·.key = key') = kvps.find? (·.key = key') := by
  induction kvps with
  | nil => rfl
  | cons kvp kvps ih =>
    by_cases hk : kvp.key = key
    · rw [setFirst_cons_of_eq hk, List.find?_cons_of_neg (by simpa using h.symm),
        List.find?_cons_of_neg (by simpa [hk] using h.symm)]
    · rw [setFirst_cons_of_ne hk, List.find?_cons, List.find?_cons, ih]

theorem find?_setFirst {kvps : List Kvp} (h : kvps.find? (·.key = key) = some kvp) :
    (setFirst key vlst kvps).find? (·.key = key) = some ⟨key, vlst⟩ := by
  induction kvps with
  | nil => cases h
  | cons kvp' kvps ih =>
    by_cases hk : kvp'.key = key
    · rw [setFirst_cons_of_eq hk, List.find?_cons_of_pos (by simp)]
    · rw [List.find?_cons_of_neg (by simpa using hk)] at h
      rw [setFirst_cons_of_ne hk, List.find?_cons_of_neg (by simpa using hk), ih h]

theorem setFirst_self {kvps : List Kvp} (h : kvps.find? (·.key = key) = some kvp) :
    setFirst key kvp.vlst kvps = kvps := by
  induction kvps with
  | nil => rfl
  | cons kvp' kvps ih =>
    by_cases hk : kvp'.key = key
    · rw [List.find?_cons_of_pos (by simpa using hk)] at h
      obtain rfl := Option.some.inj h
      rw [setFirst_cons_of_eq hk, ← hk]
    · rw [List.find?_cons_of_neg (by simpa using hk)] at h
      rw [setFirst_cons_of_ne hk, ih h]

theorem setVlst_self (h : m.getKvp key = some kvp) : m.setVlst key kvp.vlst = m := by
  have hkvps := setFirst_self h
  rw [SipMessage.setVlst, ← setFirst, hkvps]

theorem getKvp_setVlst_of_ne (h : key' ≠ key) : (m.setVlst key vlst).getKvp key' = m.getKvp key' :=
  find?_setFirst_of_ne h m.kvps

theorem getKvp_setVlst (h : m.getKvp key = some kvp) :
    (m.setVlst key vlst).getKvp key = some ⟨key, vlst⟩ :=
  find?_setFirst h

/-- The attributes of a message as a family of views. -/
def attributesAt (p : Text × Text) (m : SipMessage) : Option (List Val) := m.attributes p.1 p.2

theorem attributes_eq (h : m.getKvp key = some kvp) : m.attributes key attr = some (named attr kvp.vlst) := by
  rw [SipMessage.attributes, h]
  rfl

theorem change_eq_ok {f : List Val → Except Fault (List Val)} {m' : SipMessage}
    (h : m.change key f = .ok m') :
    (m.getKvp key = none ∧ m' = m) ∨
      ∃ kvp vlst, m.getKvp key = some kvp ∧ f kvp.vlst = .ok vlst ∧ m' = m.setVlst key vlst := by
  rw [SipMessage.change] at h
  cases hk : m.getKvp key with
  | none =>
    rw [hk] at h
    exact .inl ⟨rfl, (Except.ok.inj h).symm⟩
  | some kvp =>
    rw [hk] at h
    cases hf : f kvp.vlst with
    | error e =>
      simp only [hf] at h
      cases h
    | ok vlst =>
      simp only [hf] at h
      exact .inr ⟨kvp, vlst, rfl, hf, (Except.ok.inj h).symm⟩

/-- A change of one attribute of a list is, done to the first header of a name, a change of that
attribute of that header. -/
theorem change_local {f : List Val → Except Fault (List Val)} (hf : Local named attr f) :
    Local attributesAt (key, attr) fun m => m.change key f where
  frame m m' h p hne := by
    rcases change_eq_ok h with ⟨-, rfl⟩ | ⟨kvp, vlst, hk, hvlst, rfl⟩
    · rfl
    · by_cases hkey : p.1 = key
      · have hattr : p.2 ≠ attr := fun hattr => hne (Prod.ext hkey hattr)
        rw [attributesAt, attributesAt, hkey, attributes_eq (getKvp_setVlst hk), attributes_eq hk]
        exact congrArg some (hf.frame _ _ hvlst _ hattr)
      · rw [attributesAt, SipMessage.attributes, getKvp_setVlst_of_ne hkey]
        rfl
  visible m m' h hview := by
    rcases change_eq_ok h with ⟨-, rfl⟩ | ⟨kvp, vlst, hk, hvlst, rfl⟩
    · rfl
    · rw [attributesAt, attributesAt, attributes_eq (getKvp_setVlst hk), attributes_eq hk] at hview
      rw [hf.visible _ _ hvlst (Option.some.inj hview), setVlst_self hk]

theorem change_eq_self_iff {f : List Val → Except Fault (List Val)} :
    m.change key f = .ok m ↔ ∀ kvp ∈ m.getKvp key, f kvp.vlst = .ok kvp.vlst := by
  constructor
  · intro h kvp hk
    rcases change_eq_ok h with ⟨hnone, -⟩ | ⟨kvp', vlst, hk', hvlst, hm⟩
    · rw [hnone] at hk
      cases hk
    · obtain rfl := Option.some.inj (hk'.symm.trans hk)
      have hself : (m.setVlst key vlst).getKvp key = some ⟨key, vlst⟩ := getKvp_setVlst hk'
      rw [← hm, hk'] at hself
      rw [hvlst, Option.some.inj hself]
  · intro h
    rw [SipMessage.change]
    cases hk : m.getKvp key with
    | none => rfl
    | some kvp =>
      simp only [h kvp hk]
      exact congrArg Except.ok (setVlst_self hk)

theorem change_value_eq_self_iff {value : Text} (h : value ≠ []) :
    (m.change key fun vlst => changeValueByName vlst attr value) = .ok m ↔ m.Holds key attr value := by
  rw [change_eq_self_iff, SipMessage.Holds, SipMessage.attributes]
  cases hk : m.getKvp key with
  | none => simp
  | some kvp =>
    simp only [Option.mem_def, Option.some.injEq, forall_eq', Option.map_some,
      changeValueByName_eq_self_iff h]
    rfl

theorem change_del_eq_self_iff :
    (m.change key fun vlst => delValueByName vlst attr) = .ok m ↔ m.getKvp key = none := by
  rw [change_eq_self_iff]
  cases hk : m.getKvp key with
  | none => simp
  | some kvp => simpa using delValueByName_ne_self kvp.vlst attr

/-! ## The six blocks -/

variable {query : Option Query} {rand : ℕ → ℕ}

theorem choose_ne_nil {words : List String} {default : String}
    (h : ∀ w ∈ default :: words, w.toList ≠ []) (s : Text) : choose words default s ≠ [] := by
  rw [choose]
  cases hw : words.find? fun w => occurs w.toList s with
  | none => exact h default List.mem_cons_self
  | some w => exact h w (List.mem_cons_of_mem _ (List.mem_of_find?_eq_some hw))

theorem changeAttribute_local (section_ attr key : String) (value : Text → Text) :
    Local attributesAt (key.toList, attr.toList) (changeAttribute query section_ attr key value) := by
  apply Local.of_forall_exists
  intro m
  rw [changeAttribute]
  cases attributeQuery query section_.toList attr.toList with
  | none => exact ⟨_, Local.ok, rfl⟩
  | some q =>
    dsimp only
    split_ifs
    · exact ⟨_, change_local (changeValueByName_local attr.toList (value q.value)), rfl⟩
    · exact ⟨_, change_local (delValueByName_local attr.toList), rfl⟩
    · exact ⟨_, Local.ok, rfl⟩

theorem changeAttribute_eq_self_iff {attr : String} {value : Text → Text} (h : ∀ s, value s ≠ []) :
    changeAttribute query "security_server" attr "Security-Server" value m = .ok m ↔
      ServerIdle query attr value m := by
  rw [changeAttribute, ServerIdle]
  cases attributeQuery query "security_server".toList attr.toList with
  | none => simp
  | some q =>
    simp only [Option.mem_def, Option.some.injEq, forall_eq']
    by_cases hu : q.IsUpdate
    · have hdrop : q.op ≠ .drop := by
        rw [hu.2]
        decide
      rw [if_pos (show _ ∧ _ from hu), change_value_eq_self_iff (h _)]
      exact ⟨fun hm => ⟨fun _ => hm, fun hd => absurd hd hdrop⟩, fun hm => hm.1 hu⟩
    · rw [if_neg (show ¬ (_ ∧ _) from hu)]
      by_cases hd : q.op = .drop
      · rw [if_pos hd, change_del_eq_self_iff]
        exact ⟨fun hm => ⟨fun hu' => absurd hu' hu, fun _ => hm⟩, fun hm => hm.2 hd⟩
      · rw [if_neg hd]
        exact ⟨fun _ => ⟨fun hu' => absurd hu' hu, fun hd' => absurd hd' hd⟩, fun _ => rfl⟩

theorem algorithmValue_ne_nil (s : Text) : algorithmValue s ≠ [] := by
  rw [algorithmValue]
  split_ifs <;> decide

theorem changeAlgorithm_of_not_update {q : QNode}
    (hq : attributeQuery query "www_authenticate".toList "algorithm".toList = some q)
    (hu : ¬ q.IsUpdate) (m : SipMessage) : ∃ e, changeAlgorithm query m = .error e := by
  rw [changeAlgorithm, hq]
  dsimp only
  rw [if_neg (show ¬ (_ ∧ _) from hu)]
  by_cases hd : q.op = .drop
  · rw [if_pos hd]
    cases m.change "WWW-Authenticate".toList fun vlst => delValueByName vlst "algorithm".toList with
    | error e => exact ⟨e, rfl⟩
    | ok m' => exact ⟨_, rfl⟩
  · rw [if_neg hd]
    exact ⟨_, rfl⟩

theorem changeAlgorithm_of_update {q : QNode}
    (hq : attributeQuery query "www_authenticate".toList "algorithm".toList = some q)
    (hu : q.IsUpdate) (m : SipMessage) :
    changeAlgorithm query m = m.change "WWW-Authenticate".toList fun vlst =>
      changeValueByName vlst "algorithm".toList (algorithmValue q.value) := by
  rw [changeAlgorithm, hq]
  exact if_pos hu

theorem changeAlgorithm_local :
    Local attributesAt ("WWW-Authenticate".toList, "algorithm".toList) (changeAlgorithm query) := by
  apply Local.of_forall_exists
  intro m
  cases hq : attributeQuery query "www_authenticate".toList "algorithm".toList with
  | none => exact ⟨_, Local.ok, by rw [changeAlgorithm, hq]⟩
  | some q =>
    by_cases hu : q.IsUpdate
    · exact ⟨_, change_local (changeValueByName_local _ _), changeAlgorithm_of_update hq hu m⟩
    · obtain ⟨e, he⟩ := changeAlgorithm_of_not_update hq hu m
      exact ⟨_, Local.error e, he⟩

theorem changeAlgorithm_eq_self_iff : changeAlgorithm query m = .ok m ↔ AlgorithmIdle query m := by
  cases hq : attributeQuery query "www_authenticate".toList "algorithm".toList with
  | none =>
    constructor
    · intro _ q hmem
      exact absurd (hq.symm.trans hmem) (Option.some_ne_none q).symm
    · intro _
      rw [changeAlgorithm, hq]
  | some q =>
    by_cases hu : q.IsUpdate
    · rw [changeAlgorithm_of_update hq hu, change_value_eq_self_iff (algorithmValue_ne_nil _)]
      constructor
      · intro hm q' hmem
        obtain rfl := Option.some.inj (hq.symm.trans hmem)
        exact ⟨hu, hm⟩
      · intro hidle
        exact (hidle q hq).2
    · obtain ⟨e, he⟩ := changeAlgorithm_of_not_update hq hu m
      rw [he]
      exact ⟨nofun, fun hidle => absurd (hidle q hq).1 hu⟩

theorem nonceValue_eq_nil_iff {length : ℕ} {s : Text} : nonceValue rand length s = [] ↔ length = 0 := by
  rw [← List.length_eq_zero_iff, nonceValue]
  split_ifs <;> simp

theorem changeNonce_local :
    Local attributesAt ("WWW-Authenticate".toList, "nonce".toList) (changeNonce query rand) := by
  apply Local.of_forall_exists
  intro m
  rw [changeNonce]
  cases attributeQuery query "www_authenticate".toList "nonce".toList with
  | none => exact ⟨_, Local.ok, rfl⟩
  | some q =>
    dsimp only
    cases m.getKvp "WWW-Authenticate".toList with
    | none => exact ⟨_, Local.error _, rfl⟩
    | some kvp =>
      dsimp only
      split_ifs
      · cases getValueLength kvp.vlst "nonce".toList with
        | none => exact ⟨_, Local.error _, rfl⟩
        | some length => exact ⟨_, change_local (changeValueByName_local _ _), rfl⟩
      · exact ⟨_, change_local (delValueByName_local _), rfl⟩
      · exact ⟨_, Local.ok, rfl⟩

theorem changeNonce_eq_self_iff : changeNonce query rand m = .ok m ↔ NonceIdle query rand m := by
  rw [changeNonce, NonceIdle]
  cases attributeQuery query "www_authenticate".toList "nonce".toList with
  | none => simp
  | some q =>
    simp only [Option.mem_def, Option.some.injEq, forall_eq']
    cases hk : m.getKvp "WWW-Authenticate".toList with
    | none => simp
    | some kvp =>
      simp only [Option.some.injEq, exists_eq_left']
      by_cases hu : q.IsUpdate
      · have hdrop : q.op ≠ .drop := by
          rw [hu.2]
          decide
        rw [if_pos (show _ ∧ _ from hu)]
        simp only [hu, hdrop, ne_eq, not_false_eq_true, true_and, forall_const]
        cases getValueLength kvp.vlst "nonce".toList with
        | none => simp
        | some length =>
          simp only [Option.some.injEq, exists_eq_left']
          by_cases hpos : 0 < length
          · have hne : nonceValue rand length q.value ≠ [] := by
              rw [Ne, nonceValue_eq_nil_iff]
              omega
            rw [change_value_eq_self_iff hne]
            exact ⟨fun hm => ⟨hpos, hm⟩, fun hm => hm.2⟩
          · have hnil : nonceValue rand length q.value = [] := nonceValue_eq_nil_iff.2 (by omega)
            -- an empty nonce fails the assertion on the length of the new value
            rw [change_eq_self_iff, hk]
            simp [changeValueByName, hnil, hpos]
      · rw [if_neg (show ¬ (_ ∧ _) from hu)]
        by_cases hd : q.op = .drop
        · rw [if_pos hd, change_del_eq_self_iff, hk]
          simp [hd]
        · rw [if_neg hd]
          exact ⟨fun _ => ⟨hd, fun hu' => absurd hu' hu⟩, fun _ => rfl⟩

/-! ## The whole query -/

theorem processQuery_eq_runAll : processQuery query rand m = runAll (blocks query rand) m := by
  simp only [processQuery, blocks, runAll, List.foldlM_cons, List.foldlM_nil, bind_pure]

theorem blocks_local : ∀ p ∈ blocks query rand, Local attributesAt p.1 p.2 := by
  simp only [blocks, List.forall_mem_cons]
  exact ⟨changeNonce_local, changeAlgorithm_local, changeAttribute_local _ _ _ _,
    changeAttribute_local _ _ _ _, changeAttribute_local _ _ _ _, changeAttribute_local _ _ _ _,
    List.forall_mem_nil _⟩

theorem blocks_nodup : ((blocks query rand).map Prod.fst).Nodup := by
  simp only [blocks, List.map_cons, List.map_nil]
  decide

theorem processQuery_eq_self_iff : processQuery query rand m = .ok m ↔ Idle query rand m := by
  rw [processQuery_eq_runAll, runAll_eq_self_iff blocks_local blocks_nodup]
  simp only [blocks, List.forall_mem_cons, changeNonce_eq_self_iff, changeAlgorithm_eq_self_iff]
  rw [changeAlg, changeEalg, changeProt, changeMod,
    changeAttribute_eq_self_iff (choose_ne_nil (by decide)),
    changeAttribute_eq_self_iff (choose_ne_nil (by decide)),
    changeAttribute_eq_self_iff (choose_ne_nil (by decide)),
    changeAttribute_eq_self_iff (choose_ne_nil (by decide))]
  constructor
  · rintro ⟨hnonce, halgorithm, halg, healg, hprot, hmod, -⟩
    exact ⟨hnonce, halgorithm, halg, healg, hprot, hmod⟩
  · rintro ⟨hnonce, halgorithm, halg, healg, hprot, hmod⟩
    exact ⟨hnonce, halgorithm, halg, healg, hprot, hmod, List.forall_mem_nil _⟩

/-- A message is left alone exactly if every part of the query for it is idle. -/
theorem untouched_iff (query : Option Query) (rand : ℕ → ℕ) (m : SipMessage) :
    m.Untouched query rand ↔ Idle query rand m := by
  rw [← processQuery_eq_self_iff]
  constructor
  · intro h
    exact h.message
  · intro h
    refine ⟨h, ?_⟩
    rw [h]
    rfl

/-- A query for one attribute of a 401 response. -/
def sampleQuery (header attr value : String) : Query :=
  .node ⟨"401_unauthorized".toList, .notSet, 0, []⟩
    [.node ⟨header.toList, .notSet, 0, []⟩
      [.node ⟨attr.toList, .update, valTypeString, value.toList⟩ []]]

/-- A provisional response. -/
def sampleRinging : SipMessage := ⟨some .response, "ringing".toList, "180".toList, []⟩

/-- A response to a registration with a security algorithm. -/
def sampleOk (alg : String) : SipMessage :=
  ⟨some .response, "ok".toList, "200".toList,
    [⟨"Security-Server".toList, [⟨some "alg".toList, some alg.toList, none, false⟩]⟩]⟩

/-- A query for the nonce of a 401 response stops at a provisional one, and a query for its security
algorithm changes a 200 response. -/
theorem untouched_other_response :
    (initSipMessage "SIP/2.0 180 Ringing\r\n\r\n".toList = .ok sampleRinging ∧
      processQuery (some (sampleQuery "www_authenticate" "nonce" "max")) (fun _ => 0) sampleRinging =
        .error .assertion ∧
      ¬ sampleRinging.Untouched (some (sampleQuery "www_authenticate" "nonce" "max")) fun _ => 0) ∧
    (initSipMessage "SIP/2.0 200 OK\r\nSecurity-Server: alg=hmac-sha-1-96\r\n\r\n".toList =
        .ok (sampleOk "hmac-sha-1-96") ∧
      processQuery (some (sampleQuery "security_server" "alg" "hmac-md5-96")) (fun _ => 0)
        (sampleOk "hmac-sha-1-96") = .ok (sampleOk "hmac-md5-96") ∧
      ¬ (sampleOk "hmac-sha-1-96").Untouched
        (some (sampleQuery "security_server" "alg" "hmac-md5-96")) fun _ => 0) := by
  have hringing : processQuery (some (sampleQuery "www_authenticate" "nonce" "max")) (fun _ => 0)
      sampleRinging = .error .assertion := rfl
  have hparse : initSipMessage
      "SIP/2.0 200 OK\r\nSecurity-Server: alg=hmac-sha-1-96\r\n\r\n".toList =
        .ok (sampleOk "hmac-sha-1-96") := by decide +kernel
  have hok : processQuery (some (sampleQuery "security_server" "alg" "hmac-md5-96")) (fun _ => 0)
      (sampleOk "hmac-sha-1-96") = .ok (sampleOk "hmac-md5-96") := by decide +kernel
  refine ⟨⟨rfl, hringing, fun h => ?_⟩, hparse, hok, fun h => ?_⟩
  · exact absurd (hringing.symm.trans h.message) nofun
  · have hsame := Except.ok.inj (hok.symm.trans h.message)
    have hne : (sampleOk "hmac-md5-96").kvps ≠ (sampleOk "hmac-sha-1-96").kvps := by decide
    exact hne (congrArg SipMessage.kvps hsame)

end Ims

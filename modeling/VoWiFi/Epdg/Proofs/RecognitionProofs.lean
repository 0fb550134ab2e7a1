import VoWiFi.Epdg.Proofs.EapAkaProofs
import VoWiFi.Epdg.Proofs.PayloadChainProofs
import VoWiFi.Epdg.Recognition

/-!
# Whether updates and drops are looked for at the same places

A tree that is put in the place of a node is found along the path of that node, and other paths lead
where they led before. `process_notify` and `process_identification_responder` go along other paths than
`check_drop_next`, so that they do not see an update where there was a drop.
-/

namespace Epdg

variable {q t t' : Query} {r : Round} {name : Text} {path : List Text} {m : Mutator} {s : MutatorState}

/-! ## Looking for a node -/

theorem at?_cons (q : Query) (name : Text) (path : List Text) :
    Query.at? q (name :: path) = (getSubQueryByName q name).bind (Query.at? · path) := rfl

theorem find?_replaceSub_self {c c' : Query} {cs : List Query}
    (h : cs.find? (fun u => isQueryName u.label (some name)) = some c)
    (hc' : isQueryName c'.label (some name) = true) :
    (replaceSub name c' cs).find? (fun u => isQueryName u.label (some name)) = some c' := by
  induction cs with
  | nil => cases h
  | cons u cs ih =>
    by_cases hu : isQueryName u.label (some name) = true
    · simp only [replaceSub, hu, if_true, List.find?_cons, hc']
    · rw [Bool.not_eq_true] at hu
      simp only [List.find?_cons, hu] at h
      simp only [replaceSub, hu, Bool.false_eq_true, if_false, List.find?_cons, ih h]

theorem find?_replaceSub_of_ne {c' : Query} {cs : List Query} {other : Text} (hne : other ≠ name)
    (hc' : isQueryName c'.label (some name) = true) :
    (replaceSub name c' cs).find? (fun u => isQueryName u.label (some other)) =
      cs.find? (fun u => isQueryName u.label (some other)) := by
  have hother : ∀ u : Query, isQueryName u.label (some name) = true →
      isQueryName u.label (some other) = false :=
    fun u hu => eq_false_of_ne_true fun hu' => hne (eq_of_isQueryName hu' hu)
  induction cs with
  | nil => rfl
  | cons u cs ih =>
    by_cases hu : isQueryName u.label (some name) = true
    · simp only [replaceSub, hu, if_true, List.find?_cons, hother c' hc', hother u hu]
    · rw [replaceSub, if_neg hu, List.find?_cons, List.find?_cons, ih]

theorem isQueryName_congr {n n' : QNode} (h : n'.name = n.name) (name : Option Text) :
    isQueryName n' name = isQueryName n name := by
  unfold isQueryName
  rw [h]

theorem isQueryName_of_getSubQueryByName {c : Query} (h : getSubQueryByName q name = some c) :
    isQueryName c.label (some name) = true := by
  unfold getSubQueryByName at h
  exact List.find?_some (p := fun u : Query => isQueryName u.label (some name)) h

theorem name_setAt (h : Query.at? q path = some t) (hname : t'.label.name = t.label.name) :
    (q.setAt path t').label.name = q.label.name := by
  cases path with
  | nil =>
    cases h
    exact hname
  | cons name path =>
    rw [Query.setAt]
    split <;> rfl

theorem setAt_cons {c : Query} (h : getSubQueryByName q name = some c) (path : List Text) (t' : Query) :
    q.setAt (name :: path) t' = .node q.label (replaceSub name (c.setAt path t') q.sub) := by
  rw [Query.setAt, h]

/-- On the way to the new tree every node keeps its name. -/
theorem isQueryName_setAt_sub {c : Query} (hc : getSubQueryByName q name = some c)
    (hpath : Query.at? c path = some t) (hname : t'.label.name = t.label.name) :
    isQueryName (c.setAt path t').label (some name) = true := by
  rw [isQueryName_congr (name_setAt hpath hname)]
  exact isQueryName_of_getSubQueryByName hc

/-- Along the path of the node the new tree is found. -/
theorem at?_setAt_append (h : Query.at? q path = some t) (hname : t'.label.name = t.label.name)
    (rest : List Text) : Query.at? (q.setAt path t') (path ++ rest) = Query.at? t' rest := by
  induction path generalizing q with
  | nil => rfl
  | cons name path ih =>
    obtain ⟨c, hc, hpath⟩ := Option.bind_eq_some_iff.1 h
    have hset := isQueryName_setAt_sub hc hpath hname
    have hfind : getSubQueryByName (q.setAt (name :: path) t') name = some (c.setAt path t') := by
      rw [setAt_cons hc]
      exact find?_replaceSub_self hc hset
    rw [List.cons_append, at?_cons, hfind]
    exact ih hpath

/-- Along a path that begins with another name nothing changes. -/
theorem at?_setAt_of_ne (h : Query.at? q (name :: path) = some t)
    (hname : t'.label.name = t.label.name) {other : Text} (hne : other ≠ name) (rest : List Text) :
    Query.at? (q.setAt (name :: path) t') (other :: rest) = Query.at? q (other :: rest) := by
  obtain ⟨c, hc, hpath⟩ := Option.bind_eq_some_iff.1 h
  have hset := isQueryName_setAt_sub hc hpath hname
  rw [at?_cons, at?_cons, setAt_cons hc]
  exact congrArg (Option.bind · _) (find?_replaceSub_of_ne hne hset)

theorem isQueryName_setAt (h : askedQuery (some q) r path = some t)
    (hname : t'.label.name = t.label.name) :
    isQueryName (q.setAt path t').label (some r.responseText) = true := by
  obtain ⟨hq, hat⟩ := name_of_askedQuery h
  rw [isQueryName_congr (name_setAt hat hname)]
  exact hq

theorem askedQuery_setAt_append (h : askedQuery (some q) r path = some t)
    (hname : t'.label.name = t.label.name) (rest : List Text) :
    askedQuery (some (q.setAt path t')) r (path ++ rest) = Query.at? t' rest := by
  rw [askedQuery_of_name (isQueryName_setAt h hname),
    at?_setAt_append (name_of_askedQuery h).2 hname]

theorem askedQuery_setAt_of_ne (h : askedQuery (some q) r (name :: path) = some t)
    (hname : t'.label.name = t.label.name) {other : Text} (hne : other ≠ name) (rest : List Text) :
    askedQuery (some (q.setAt (name :: path) t')) r (other :: rest) =
      askedQuery (some q) r (other :: rest) := by
  obtain ⟨hq, hat⟩ := name_of_askedQuery h
  rw [askedQuery_of_name (isQueryName_setAt h hname), askedQuery_of_name hq,
    at?_setAt_of_ne hat hname hne]

/-! ## Updates -/

theorem UpdateFor.label_name (h : UpdateFor t t') : t'.label.name = t.label.name := by
  cases h <;> rfl

theorem at?_node_singleton {n : QNode} {c u : Query} {name : Text} {path : List Text}
    (h : Query.at? (.node n [c]) (name :: path) = some u) : Query.at? c path = some u := by
  obtain ⟨c', hc', hpath⟩ := Option.bind_eq_some_iff.1 h
  rw [List.mem_singleton.1 (List.mem_of_find?_eq_some hc')] at hpath
  exact hpath

theorem op_chain_ne_drop {names path : List Text} {leaf : QNode} (hleaf : leaf.op = .update) {u : Query}
    (hu : Query.at? (chain names leaf) path = some u) : u.label.op ≠ .drop := by
  induction names generalizing path with
  | nil =>
    cases path with
    | nil =>
      cases hu
      exact fun hdrop => OpType.noConfusion (hleaf.symm.trans hdrop)
    | cons name path => cases hu
  | cons name names ih =>
    cases path with
    | nil =>
      cases hu
      exact nofun
    | cons name' path => exact ih (at?_node_singleton hu)

/-- There is no drop in the place of an update. -/
theorem UpdateFor.op_ne_drop (h : UpdateFor t t') {u : Query} (hu : Query.at? t' path = some u) :
    u.label.op ≠ .drop := by
  cases h with
  | here vtype value =>
    cases path with
    | nil =>
      cases hu
      exact nofun
    | cons name path => cases hu
  | below names leaf hleaf =>
    cases path with
    | nil =>
      cases hu
      exact nofun
    | cons name path => exact op_chain_ne_drop hleaf (at?_node_singleton hu)

theorem changes_iff_ne {s' : MutatorState} {body body' : PayloadBody}
    (hrun : m.handle s body = .ok (s', body')) : m.Changes s body ↔ body' ≠ body := by
  constructor
  · rintro ⟨s₁, body₁, hrun₁, hne⟩
    rw [hrun] at hrun₁
    cases hrun₁
    exact hne
  · intro hne
    exact ⟨s', body', hrun, hne⟩

/-! ## Key exchange and nonce -/

theorem exists_bytes_ne {n : ℕ} (hn : 0 < n) (data : Chunk) :
    ∃ text bytes, extremeBytes text n = some bytes ∧ bytes ≠ data := by
  have hne : List.replicate n (0xff : UInt8) ≠ List.replicate n 0 := by
    intro heq
    have hbyte := List.eq_of_mem_replicate (heq ▸ List.mem_replicate.2 ⟨hn.ne', rfl⟩)
    exact absurd hbyte (by decide)
  by_cases hdata : List.replicate n 0xff = data
  · exact ⟨"min".toList, _, rfl, fun heq => hne (hdata.trans heq.symm)⟩
  · exact ⟨"max".toList, _, rfl, hdata⟩

theorem processNonce_of_asked {query : Option Query} {u : Query} {text : Text} {bytes : Chunk}
    (hu : askedQuery query .init ["nonce".toList] = some u) (htext : u.label.string? = some text)
    (hbytes : extremeBytes text nonceSize = some bytes) (nonce : Chunk) :
    processNonce query nonce = (bytes, none) := by
  rw [processNonce, hu, Option.bind_some, htext]
  dsimp only
  rw [hbytes]

theorem exists_changes_nonce (m : Mutator) (s : MutatorState)
    (hnode : askedQuery (some q) .init ["nonce".toList] = some t) (nonce : Chunk) :
    ∃ t', UpdateFor t t' ∧ (m.withQuery (q.setAt ["nonce".toList] t')).Changes s (.nonce nonce) := by
  obtain ⟨text, bytes, hbytes, hne⟩ := exists_bytes_ne (n := nonceSize) (by decide) nonce
  have hupdate := UpdateFor.here (t := t) valTypeString (some text)
  refine ⟨_, hupdate, s, .nonce bytes, ?_, fun heq => hne (PayloadBody.nonce.inj heq)⟩
  have hasked := askedQuery_setAt_append hnode hupdate.label_name []
  change (finished (processNonce (some _) nonce) >>= _) = _
  rw [processNonce_of_asked hasked rfl hbytes]
  rfl

theorem processKeyExchange_of_asked {query : Option Query} {u : Query} {v : ℤ}
    (hu : askedKeyExchange query "diffie_hellman_group".toList = some u)
    (hv : u.label.number? .w16 .decimal = some v)
    (hdata : askedKeyExchange query "key_exchange_data".toList = none) (ke : KePayload) :
    processKeyExchange query ke = ({ ke with dhGroupNumber := UInt16.ofInt v }, none) := by
  have hfirst : processDhGroup query ke = ({ ke with dhGroupNumber := UInt16.ofInt v }, none) := by
    rw [processDhGroup, hu, Option.bind_some, hv]
  have hsecond : ∀ ke, processKeyExchangeData query ke = (ke, none) := fun ke => by
    rw [processKeyExchangeData, hdata, Option.bind_none]
  rw [processKeyExchange, Steps.run_cons_of_goes hfirst, Steps.run_cons_of_goes (hsecond _), Steps.run]

theorem exists_group_ne (group : UInt16) :
    ∃ text, UInt16.ofInt (charToInt32 10 text) ≠ group := by
  by_cases hgroup : group = 0
  · refine ⟨"1".toList, ?_⟩
    rw [hgroup]
    decide
  · exact ⟨"0".toList, fun heq => hgroup heq.symm⟩

theorem exists_changes_keyExchange (m : Mutator) (s : MutatorState)
    (hnode : askedQuery (some q) .init ["key_exchange".toList] = some t) (ke : KePayload) :
    ∃ t', UpdateFor t t' ∧
      (m.withQuery (q.setAt ["key_exchange".toList] t')).Changes s (.keyExchange ke) := by
  obtain ⟨text, hne⟩ := exists_group_ne ke.dhGroupNumber
  have hupdate := UpdateFor.below (t := t) []
    ⟨some "diffie_hellman_group".toList, .update, valTypeUint .w16 .decimal, some text⟩ rfl
  refine ⟨_, hupdate, s, .keyExchange { ke with dhGroupNumber := UInt16.ofInt (charToInt32 10 text) },
    ?_, fun heq => hne (congrArg KePayload.dhGroupNumber (PayloadBody.keyExchange.inj heq))⟩
  have hasked := fun name => askedQuery_setAt_append hnode hupdate.label_name [name]
  change (finished (processKeyExchange (some _) ke) >>= _) = _
  rw [processKeyExchange_of_asked (hasked "diffie_hellman_group".toList) rfl
    (hasked "key_exchange_data".toList)]
  rfl

/-! ## Notify and identity -/

theorem processNotify_ne_iff {inst : Instance} {n : NotifyPayload} (hq : inst.query = some q) :
    processNotify inst n ≠ n ↔ asksNotify inst q n := by
  unfold processNotify asksNotify
  rw [hq]
  cases hkind : n.kind.update inst with
  | none => simp
  | some u =>
    obtain ⟨name, data⟩ := u
    dsimp only
    constructor
    · intro hne
      cases htext : (askedQuery (some q) .init [name]).bind (·.label.string?) with
      | none =>
        rw [htext] at hne
        exact absurd rfl hne
      | some text =>
        rw [htext] at hne
        refine ⟨name, data, text, rfl, htext, fun hdata => hne ?_⟩
        dsimp only
        rw [hdata]
    · rintro ⟨name', data', text, hu, htext, hdata⟩ heq
      cases hu
      rw [htext] at heq
      exact hdata (congrArg NotifyPayload.notifyData heq)

theorem changes_notify_iff {n : NotifyPayload} (hkind : n.kind ≠ .authenticationFailed) (m : Mutator)
    (s : MutatorState) (q : Query) :
    (m.withQuery q).Changes s (.notify n) ↔ asksNotify m.inst q n := by
  have hcheck : checkExceptionalCase (some q) n = .ok false := if_neg fun h => hkind h.1
  have hrun : (m.withQuery q).handle s (.notify n) =
      .ok (s, .notify (processNotify (m.inst.setQuery q) n)) := by
    change (checkExceptionalCase (some q) n >>= _) = _
    rw [hcheck]
    rfl
  have hiff : processNotify (m.inst.setQuery q) n ≠ n ↔ asksNotify m.inst q n := processNotify_ne_iff rfl
  rw [changes_iff_ne hrun, ← hiff, ne_eq, PayloadBody.notify.injEq]

theorem elim_ne_iff {α β : Type} [DecidableEq β] {o : Option α} {f : α → β} {b : β} :
    o.elim b f ≠ b ↔ ∃ a, o = some a ∧ f a ≠ b := by
  cases o <;> simp

theorem changes_idResponder_iff (m : Mutator) (s : MutatorState) (q : Query) (id : IdPayload) :
    (m.withQuery q).Changes s (.idResponder id) ↔ asksIdentification q id := by
  have hrun : (m.withQuery q).handle s (.idResponder id) =
      .ok (s, .idResponder (processIdentificationResponder (some q) id)) := rfl
  have hiff : processIdentificationResponder (some q) id ≠ id ↔ asksIdentification q id := by
    rw [asksIdentification, ← elim_ne_iff, ← elim_ne_iff, ← not_and_or, ne_eq, not_iff_not]
    constructor
    · intro heq
      exact ⟨congrArg IdPayload.idType heq, congrArg IdPayload.idData heq⟩
    · rintro ⟨htype, hdata⟩
      rw [processIdentificationResponder, htype, hdata]
  rw [changes_iff_ne hrun, ← hiff, ne_eq, PayloadBody.idResponder.injEq]

/-- The function goes along another path, and does the same for every update in the place of the drop. -/
theorem exists_updateFor_iff {P : Query → Prop} {Q : Prop} (h : ∀ t', UpdateFor t t' → (P t' ↔ Q)) :
    (∃ t', UpdateFor t t' ∧ P t') ↔ Q := by
  constructor
  · rintro ⟨t', hupdate, hP⟩
    exact (h t' hupdate).1 hP
  · intro hQ
    have hupdate := UpdateFor.here (t := t) 0 none
    exact ⟨_, hupdate, (h _ hupdate).2 hQ⟩

theorem NotifyKind.update_name_ne {kind : NotifyKind} {inst : Instance} {data : Text → Chunk}
    (h : kind.update inst = some (name, data)) : name ≠ "notify".toList := by
  cases kind <;> cases h <;> decide

theorem asksNotify_setAt {inst : Instance} {n : NotifyPayload}
    (hnode : askedQuery (some q) .init ["notify".toList, name] = some t)
    (hname : t'.label.name = t.label.name) :
    asksNotify inst (q.setAt ["notify".toList, name] t') n ↔ asksNotify inst q n := by
  unfold asksNotify
  refine exists_congr fun other => exists_congr fun data => exists_congr fun text => ?_
  refine and_congr_right fun hother => ?_
  rw [askedQuery_setAt_of_ne hnode hname (NotifyKind.update_name_ne hother)]

theorem asksIdentification_setAt {id : IdPayload}
    (hnode : askedQuery (some q) (.auth 0) ["id_responder".toList] = some t)
    (hname : t'.label.name = t.label.name) :
    asksIdentification (q.setAt ["id_responder".toList] t') id ↔ asksIdentification q id := by
  have hasked : ∀ name, askedIdentification (some (q.setAt ["id_responder".toList] t')) name =
      askedIdentification (some q) name :=
    fun name => askedQuery_setAt_of_ne hnode hname (by decide) [name]
  rw [asksIdentification, asksIdentification, hasked, hasked]

/-! ## EAP -/

theorem fillAttribute_ne {p : ℕ} {alen b : UInt8} {data data' : Chunk}
    (h : fillAttribute p alen b data = (data', none)) (hne : data' ≠ data) :
    2 < (abytes alen).toNat ∧ p + (abytes alen).toNat ≤ data.length := by
  obtain ⟨hbounds, hfill⟩ := fillAttribute_eq_iff.1 h
  by_cases hpos : p + 2 < p + (abytes alen).toNat
  · exact ⟨by omega, hbounds hpos⟩
  · rw [List.fill_of_le (Nat.not_lt.1 hpos)] at hfill
    exact absurd hfill.symm hne

theorem updateAttribute_ne {value : Text} {p : ℕ} {alen : UInt8} {data data' : Chunk}
    (h : updateAttribute value p alen data = (data', none)) (hne : data' ≠ data) :
    2 < (abytes alen).toNat ∧ p + (abytes alen).toNat ≤ data.length := by
  unfold updateAttribute at h
  split at h
  · exact fillAttribute_ne h hne
  split at h
  · exact fillAttribute_ne h hne
  split at h
  · exact fillAttribute_ne h hne
  split at h
  · exact fillAttribute_ne h hne
  · exact absurd (congrArg Prod.snd h) nofun

/-- A statement for an attribute that is not a drop changes the data only if the walk finds a value. -/
theorem findsValue_of_processAttribute {a : AkaAttribute} {query : Option Query} {data data' : Chunk}
    (hop : ∀ u, askedQuery query r a.path = some u → u.label.op ≠ .drop)
    (h : processAttribute query r a data = (data', none)) (hne : data' ≠ data) : findsValue data := by
  unfold processAttribute at h
  split at h
  · cases h
    exact absurd rfl hne
  · rename_i u hu
    split at h
    · exact absurd (congrArg Prod.snd h) nofun
    · cases h
      exact absurd rfl hne
    · rename_i p alen hfind
      split at h
      · exact ⟨a, p, alen, hfind, updateAttribute_ne h hne⟩
      · rw [if_neg (hop u hu)] at h
        cases h
        exact absurd rfl hne

theorem processEapField_fst (query : Option Query) (r : Round) (name : Text) (data : Chunk) :
    (processEapField query r name data).1 = data := by
  unfold processEapField
  split <;> rfl

theorem findsValue_of_process {data data' : Chunk} (hr : r ∈ eapRounds)
    (hname : isQueryName q.label (some r.responseText) = true)
    (hop : ∀ (a : AkaAttribute) u, askedQuery (some q) r a.path = some u → u.label.op ≠ .drop)
    (h : processExtensibleAuthentication (some q) data = (data', none)) (hne : data' ≠ data) :
    findsValue data := by
  rw [processExtensibleAuthentication_eq hr hname] at h
  obtain ⟨step, hstep, data₁, hrun, hne₁⟩ := Steps.exists_change h hne
  rcases List.mem_append.1 hstep with hstep | hstep
  · obtain ⟨name, -, rfl⟩ := List.mem_map.1 hstep
    have hfst := processEapField_fst (some q) r name data
    rw [hrun] at hfst
    exact absurd hfst hne₁
  · obtain ⟨a, -, rfl⟩ := List.mem_map.1 hstep
    exact findsValue_of_processAttribute (hop a) hrun hne₁

/-- One of two values for a region of at least one byte differs from what is there. -/
theorem exists_fill_ne {data : Chunk} {start stop : ℕ} (hlt : start < stop) (hle : stop ≤ data.length) :
    ∃ w : FillWord, data.fill start stop w.byte ≠ data := by
  have hread : ∀ b, data.fill start stop b = data → data[start]? = some b := by
    intro b heq
    have hget : (data.fill start stop b)[start]? = some b := by
      rw [List.getElem?_fill, List.getElem?_eq_getElem (by omega : start < data.length)]
      simp [hlt]
    rwa [heq] at hget
  by_cases hmin : data.fill start stop FillWord.min.byte = data
  · refine ⟨.max, fun hmax => ?_⟩
    have hbyte := (hread _ hmin).symm.trans (hread _ hmax)
    exact absurd hbyte (by decide)
  · exact ⟨.min, hmin⟩

/-- An update of one attribute in the place of the node for the EAP payload. -/
def attributeUpdate (t : Query) (a : AkaAttribute) (w : FillWord) : Query :=
  .node { t.label with op := .notSet }
    [chain ["eap_aka_attribute".toList] ⟨some a.name, .update, valTypeString, some w.text⟩]

theorem updateFor_attributeUpdate (t : Query) (a : AkaAttribute) (w : FillWord) :
    UpdateFor t (attributeUpdate t a w) := .below _ _ rfl

theorem asksAttribute_attributeUpdate (a : AkaAttribute) (w : FillWord) (hr : r ∈ eapRounds)
    (hnode : askedQuery (some q) r [eapName] = some t) :
    AsksAttribute (q.setAt [eapName] (attributeUpdate t a w)) r a
      ⟨some a.name, .update, valTypeString, some w.text⟩ := by
  have hname := (updateFor_attributeUpdate t a w).label_name
  have hasked := askedQuery_setAt_append hnode hname
  refine ⟨hr, isQueryName_setAt hnode hname, ?_, ?_, ?_⟩
  · refine (congrArg (Option.map RoseTree.label) (hasked ["eap_aka_attribute".toList, a.name])).trans ?_
    cases a <;> rfl
  · intro name hname
    refine (hasked [name]).trans ?_
    simp only [eapFields, List.mem_cons, List.not_mem_nil, or_false] at hname
    rcases hname with rfl | rfl | rfl <;> rfl
  · intro b hb
    refine (hasked ["eap_aka_attribute".toList, b.name]).trans ?_
    cases a <;> cases b <;> first | rfl | exact absurd rfl hb

theorem exists_changes_eap_iff (m : Mutator) (s : MutatorState) {data : Chunk} (hr : r ∈ eapRounds)
    (hnode : askedQuery (some q) r [eapName] = some t) :
    (∃ t', UpdateFor t t' ∧ (m.withQuery (q.setAt [eapName] t')).Changes s (.eap data)) ↔
      findsValue data := by
  constructor
  · rintro ⟨t', hupdate, s', body', hrun, hne⟩
    have hq := isQueryName_setAt hnode hupdate.label_name
    rcases hdata : processExtensibleAuthentication (some (q.setAt [eapName] t')) data with ⟨data', stop⟩
    have hhandle : (finished (data', stop) >>= fun data' => .ok (s, .eap data')) = .ok (s', body') := by
      rw [← hdata]
      exact hrun
    cases stop with
    | some stop => cases hhandle
    | none =>
      cases hhandle
      refine findsValue_of_process hr hq (fun a u hu => ?_) hdata fun heq => hne (congrArg _ heq)
      have hasked := askedQuery_setAt_append hnode hupdate.label_name
        ["eap_aka_attribute".toList, a.name]
      exact hupdate.op_ne_drop (hasked.symm.trans hu)
  · rintro ⟨a, p, alen, hfind, hpos, hle⟩
    obtain ⟨w, hw⟩ := exists_fill_ne (Nat.add_lt_add_left hpos p) hle
    have hasks := asksAttribute_attributeUpdate a w hr hnode
    refine ⟨_, updateFor_attributeUpdate t a w, s,
      .eap (data.fill (p + 2) (p + (abytes alen).toNat) w.byte), ?_,
      fun heq => hw (PayloadBody.eap.inj heq)⟩
    obtain ⟨u, hu, hlabel⟩ := Option.map_eq_some_iff.1 hasks.node
    have hword : u.label.string? = some w.text := by
      rw [hlabel]
      rfl
    have hprocess := (processAttribute_word_iff hu hword hfind).2 ⟨fun _ => hle, rfl⟩
    change (finished (processExtensibleAuthentication (some _) data) >>= _) = _
    rw [hasks.process_eq, hprocess]
    rfl

/-! ## The checks of `check_drop_next` -/

/-- Where `check_drop_next` looks for a payload. -/
def DropRule.LooksFor (rule : DropRule) : PayloadBody → Prop
  | .keyExchange _ => rule.round = .init ∧ rule.path = ["key_exchange".toList]
  | .nonce _ => rule.round = .init ∧ rule.path = ["nonce".toList]
  | .notify n =>
    n.kind ≠ .authenticationFailed ∧ rule.round = .init ∧ ∃ name, rule.path = ["notify".toList, name]
  | .idResponder _ => rule.round = .auth 0 ∧ rule.path = ["id_responder".toList]
  | .eap _ => rule.round ∈ eapRounds ∧ rule.path = [eapName]
  | .header _ => False
  | .plain _ => True

theorem looksFor_of_applies {rule : DropRule} {body : PayloadBody} (hrule : rule ∈ dropRules)
    (happlies : rule.applies body = true) : rule.LooksFor body := by
  simp only [dropRules, List.mem_cons, List.not_mem_nil, or_false] at hrule
  rcases hrule with rfl | rfl | rfl | rfl | rfl | rfl | rfl | rfl | rfl | rfl | rfl | rfl
  -- of the payloads that have a function each check is about one kind
  all_goals cases body
  all_goals first
    | exact trivial
    | exact absurd (of_decide_eq_true happlies) PayloadType.noConfusion
    | exact Bool.noConfusion happlies
    | exact ⟨fun h => NotifyKind.noConfusion (h.symm.trans (of_decide_eq_true happlies)), rfl, _, rfl⟩
    | exact ⟨rfl, rfl⟩
    | exact ⟨List.mem_cons_self, rfl⟩
    | exact ⟨List.mem_cons_of_mem _ List.mem_cons_self, rfl⟩

/-- An update in the place of a drop, for each check of `check_drop_next` and each payload of a type that
`process_query` has a function for. -/
theorem exists_changes_iff_recognised (m : Mutator) (s : MutatorState) (q : Query) (rule : DropRule)
    (hrule : rule ∈ dropRules) (body : PayloadBody) (hhandler : body.type.hasHandler = true)
    (happlies : rule.applies body = true) (t : Query)
    (hnode : askedQuery (some q) rule.round rule.path = some t) :
    (∃ t', UpdateFor t t' ∧ (m.withQuery (q.setAt rule.path t')).Changes s body) ↔
      Recognised m.inst q body := by
  have hplace := looksFor_of_applies hrule happlies
  obtain ⟨round, path, applies⟩ := rule
  cases body with
  | header h => cases hplace
  | plain p => cases hhandler
  | keyExchange ke =>
    obtain ⟨rfl, rfl⟩ := hplace
    exact iff_of_true (exists_changes_keyExchange m s hnode ke) trivial
  | nonce nonce =>
    obtain ⟨rfl, rfl⟩ := hplace
    exact iff_of_true (exists_changes_nonce m s hnode nonce) trivial
  | eap data =>
    obtain ⟨hr, rfl⟩ := hplace
    exact exists_changes_eap_iff m s hr hnode
  | notify n =>
    obtain ⟨hkind, rfl, name, rfl⟩ := hplace
    refine exists_updateFor_iff fun t' hupdate => ?_
    rw [changes_notify_iff hkind]
    exact asksNotify_setAt hnode hupdate.label_name
  | idResponder id =>
    obtain ⟨rfl, rfl⟩ := hplace
    refine exists_updateFor_iff fun t' hupdate => ?_
    rw [changes_idResponder_iff]
    exact asksIdentification_setAt hnode hupdate.label_name

def dropKeyExchange : Query := initResponseQuery ⟨some "key_exchange".toList, .drop, 0, none⟩

theorem exists_changes_dropKeyExchange :
    ∃ t', UpdateFor (.node ⟨some "key_exchange".toList, .drop, 0, none⟩ []) t' ∧
      ((initMutator dropKeyExchange).withQuery (dropKeyExchange.setAt ["key_exchange".toList] t')).Changes
        initState (.keyExchange ⟨2, []⟩) :=
  (exists_changes_iff_recognised (initMutator dropKeyExchange) initState dropKeyExchange
    ⟨.init, ["key_exchange".toList], (·.type = .keyExchange)⟩ (by simp [dropRules])
    (.keyExchange ⟨2, []⟩) rfl (by decide) _ rfl).2 trivial

/-- A drop of the notify for the source address. -/
def dropNotify : Query :=
  .node ⟨some Round.init.responseText, .notSet, 0, none⟩
    [.node ⟨some "notify".toList, .notSet, 0, none⟩
      [.node ⟨some "nat_detection_source_ip".toList, .drop, 0, none⟩ []]]

/-- The notify is dropped, but no tree of its name in the place of the drop changes it. -/
theorem not_exists_changes_dropNotify :
    checkDropNext (some dropNotify) (.notify ⟨.natDetectionSourceIp, []⟩) = .needDropNext ∧
    ∀ t' : Query, t'.label.name = some "nat_detection_source_ip".toList →
      ¬ ((initMutator dropNotify).withQuery
        (dropNotify.setAt ["notify".toList, "nat_detection_source_ip".toList] t')).Changes
          initState (.notify ⟨.natDetectionSourceIp, []⟩) := by
  refine ⟨by decide +kernel, fun t' hname => ?_⟩
  rw [changes_notify_iff NotifyKind.noConfusion, asksNotify_setAt rfl hname]
  rintro ⟨name, data, text, hkind, htext, -⟩
  cases hkind
  have hnone : askedQuery (some dropNotify) .init ["nat_detection_source_ip".toList] = none := rfl
  rw [hnone] at htext
  cases htext

end Epdg

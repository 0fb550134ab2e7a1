import VoWiFi.Scripts.Generate

/-!
# When generated testcases are single mutations

A copy of a testcase differs from it in the node that is mutated. So the operators of all other nodes
are still there, and the controller accepts the copy only if there are none.
-/

namespace Scripts

open Control (Testcase TestcaseObj TestcaseType)
open RoseTree (nodes nodesList)

/-! ## What the controller accepts -/

/-- The controller accepts a node, given whether it is a leaf. -/
structure Fine (n : Fields × Bool) : Prop where
  op : ∀ ops, n.1.op ≠ some (.list ops)
  array : n.2 = true → n.1.emptySub = false

theorem castOp_isSome_iff {op : Option Op} : (castOp op).isSome = true ↔ ∀ ops, op ≠ some (.list ops) := by
  rcases op with _ | ops | op
  · exact iff_of_true rfl fun _ => nofun
  · exact iff_of_false Bool.false_ne_true fun h => h ops rfl
  · exact iff_of_true rfl fun _ => nofun

/-- An object with an array is accepted exactly if the array is not empty and its objects are. -/
theorem isSome_ofObj_sub {type : Option TestcaseType} {name op vt value : Option Text}
    {os : List TestcaseObj} : (Testcase.ofObj type (.obj name op vt value (some os))).isSome = true ↔
      os ≠ [] ∧ (Testcase.ofObjs os).isSome = true := by
  cases os with
  | nil => exact iff_of_false Bool.false_ne_true fun h => h.1 rfl
  | cons o os =>
    rw [Testcase.ofObj, Testcase.ofObjs]
    cases Testcase.ofObj none o <;> cases Testcase.ofObjs os <;> simp

theorem castAll_ne_nil {o : Obj} {os : List Obj} {objs : List TestcaseObj}
    (h : castAll (o :: os) = some objs) : objs ≠ [] := by
  rintro rfl
  rw [castAll] at h
  cases ho : Obj.cast o with
  | none => simp [ho] at h
  | some c =>
    cases hos : castAll os with
    | none => simp [ho, hos] at h
    | some cs => simp [ho, hos] at h

mutual

theorem isSome_ofObj_iff (type : Option TestcaseType) (o : Obj) :
    ((Obj.cast o).bind (Testcase.ofObj type)).isSome = true ↔ ∀ n ∈ nodes o, Fine n := by
  cases o with
  | node o sub =>
    rw [nodes, List.forall_mem_cons, ← isSome_ofObjs_iff sub]
    cases hop : castOp o.op with
    | none =>
      have hlist : ¬ ∀ ops, o.op ≠ some (.list ops) := by
        rw [← castOp_isSome_iff, hop]
        nofun
      refine iff_of_false ?_ fun h => hlist h.1.op
      simp [Obj.cast, hop]
    | some op =>
      have hlist : ∀ ops, o.op ≠ some (.list ops) := by
        rw [← castOp_isSome_iff, hop]
        rfl
      cases sub with
      | nil =>
        have hfine : Fine (o, true) ↔ o.emptySub = false :=
          ⟨fun h => h.array rfl, fun h => ⟨hlist, fun _ => h⟩⟩
        rw [show ([] : List Obj).isEmpty = true from rfl, hfine]
        cases hempty : o.emptySub <;> simp [Obj.cast, castAll, hop, hempty, Testcase.ofObj, Testcase.ofObjs]
      | cons t ts =>
        have hfine : Fine (o, false) := ⟨hlist, nofun⟩
        rw [show (t :: ts).isEmpty = false from rfl, and_iff_right hfine]
        cases hcast : castAll (t :: ts) with
        | none => simp [Obj.cast, hop, hcast]
        | some objs =>
          have hne := castAll_ne_nil hcast
          simp only [Obj.cast, hop, hcast, Option.bind_eq_bind, Option.bind_some, List.isEmpty_cons,
            Bool.false_and, Bool.false_eq_true, if_false, Option.pure_def, isSome_ofObj_sub]
          exact and_iff_right hne

theorem isSome_ofObjs_iff (os : List Obj) :
    ((castAll os).bind Testcase.ofObjs).isSome = true ↔ ∀ n ∈ nodesList os, Fine n := by
  cases os with
  | nil => exact iff_of_true rfl (List.forall_mem_nil _)
  | cons o os =>
    rw [nodesList, List.forall_mem_append, ← isSome_ofObj_iff none o, ← isSome_ofObjs_iff os, castAll]
    cases Obj.cast o with
    | none => simp
    | some c =>
      cases castAll os with
      | none => simp
      | some cs =>
        cases hc : Testcase.ofObj none c <;> cases hcs : Testcase.ofObjs cs <;>
          simp [Testcase.ofObjs, hc, hcs]

end

theorem accepted_iff {testcase : List Obj} :
    (∀ o ∈ testcase, Obj.Accepted o) ↔ ∀ n ∈ nodesList testcase, Fine n := by
  rw [RoseTree.nodesList_eq_flatMap]
  constructor
  · intro h n hn
    obtain ⟨o, ho, hn⟩ := List.mem_flatMap.1 hn
    exact (isSome_ofObj_iff _ o).1 (h o ho) n hn
  · intro h o ho
    exact (isSome_ofObj_iff _ o).2 fun n hn => h n (List.mem_flatMap.2 ⟨o, ho, hn⟩)

/-! ## Mutations -/

theorem op_ne_none_of_allows {o : Fields} {op : Text} (h : o.allows op = true) : o.op ≠ none := by
  intro hnone
  rw [Fields.allows, hnone] at h
  cases h

/-- The operator that a node carries, with its name. -/
def operator (n : Fields × Bool) : Option (Text × Op) := n.1.op.map (n.1.name, ·)

theorem operators_eq (testcase : List Obj) :
    operators testcase = (nodesList testcase).filterMap operator := rfl

theorem operators_setId (id : Text) (testcase : List Obj) :
    operators (setId id testcase) = operators testcase := by
  rcases testcase with _ | ⟨⟨o, sub⟩, os⟩
  · rfl
  · rfl

theorem fine_setId (id : Text) (testcase : List Obj) :
    (∀ n ∈ nodesList (setId id testcase), Fine n) ↔ ∀ n ∈ nodesList testcase, Fine n := by
  rcases testcase with _ | ⟨⟨o, sub⟩, os⟩
  · rfl
  · have hroot : Fine ({ o with id := some id }, sub.isEmpty) ↔ Fine (o, sub.isEmpty) :=
      ⟨fun h => ⟨h.op, h.array⟩, fun h => ⟨h.op, h.array⟩⟩
    simp only [setId, nodesList, nodes, List.cons_append, List.forall_mem_cons, hroot]

theorem apply_fine {m : Mutation} {o : Fields} {b : Bool} :
    Fine (m.apply o, b) ↔ (b = true → o.emptySub = false) := by
  cases m <;> exact ⟨fun h => h.array, fun h => ⟨fun _ => nofun, h⟩⟩

theorem operator_apply (m : Mutation) (o : Fields) (b : Bool) :
    operator (m.apply o, b) = some (o.name, .single m.op) := by
  cases m <;> rfl

/-- No node of a list carries an operator. -/
theorem filterMap_operator_eq_nil {ns : List (Fields × Bool)} :
    ns.filterMap operator = [] ↔ ∀ n ∈ ns, n.1.op = none := by
  simp [List.filterMap_eq_nil_iff, operator]

/-- An allowed target is found, with an operator, and can be changed. -/
theorem exists_allowedTarget {op target : Text} {testcase : List Obj}
    (h : allowedTarget op testcase target = true) :
    ∃ o l b r, o.name = target ∧ o.op ≠ none ∧ nodesList testcase = l ++ (o, b) :: r ∧
      ∀ f, ∃ t, changeTarget target f testcase = some t ∧ nodesList t = l ++ (f o, b) :: r := by
  rw [allowedTarget] at h
  cases ho : findTarget target testcase with
  | none =>
    rw [ho] at h
    cases h
  | some o =>
    rw [ho] at h
    obtain ⟨hname, l, b, r, hnodes, hchange⟩ := RoseTree.located_of_findList ho
    refine ⟨o, l, b, r, of_decide_eq_true hname, op_ne_none_of_allows h, hnodes, fun f => ?_⟩
    exact Option.map_eq_some_iff.1 (hchange f)

/-- A testcase is ready, given the node that is to be mutated. -/
theorem ready_iff {testcase : List Obj} {o : Fields} {b : Bool} {l r : List (Fields × Bool)}
    (hnodes : nodesList testcase = l ++ (o, b) :: r) (hop : o.op ≠ none) :
    Ready testcase ↔ (∀ n ∈ l ++ r, n.1.op = none) ∧
      ∀ n ∈ l ++ (o, b) :: r, n.2 = true → n.1.emptySub = false := by
  obtain ⟨p, hp⟩ := Option.ne_none_iff_exists'.1 hop
  have hoperator : operator (o, b) = some (o.name, p) := by rw [operator, hp]; rfl
  have hlength : (operators testcase).length = 1 ↔ ∀ n ∈ l ++ r, n.1.op = none := by
    rw [operators_eq, hnodes, List.filterMap_append, List.filterMap_cons_some hoperator,
      List.length_append, List.length_cons, ← filterMap_operator_eq_nil, List.filterMap_append,
      List.append_eq_nil_iff, ← List.length_eq_zero_iff, ← List.length_eq_zero_iff]
    omega
  constructor
  · rintro ⟨hone, harrays⟩
    rw [hnodes] at harrays
    exact ⟨hlength.1 hone, harrays⟩
  · rintro ⟨hnone, harrays⟩
    refine ⟨hlength.2 hnone, ?_⟩
    rwa [hnodes]

/-- The copy of a testcase is a single mutation exactly if the testcase is ready. -/
theorem exists_mutate {op target : Text} {testcase : List Obj}
    (h : allowedTarget op testcase target = true) (p : Property) (tnum : ℕ) (m : Mutation) :
    ∃ g, mutate p tnum testcase target m = some g ∧ (g.Single ↔ Ready testcase) := by
  obtain ⟨o, l, b, r, rfl, hop, hnodes, hchange⟩ := exists_allowedTarget h
  obtain ⟨t, ht, hnodes'⟩ := hchange m.apply
  refine ⟨⟨o.name, m, setId (m.id p tnum) t⟩, by rw [mutate, ht]; rfl, ?_⟩
  rw [ready_iff hnodes hop]
  constructor
  · rintro ⟨haccepted, hoperators⟩
    rw [accepted_iff, fine_setId, hnodes'] at haccepted
    rw [operators_setId, operators_eq, hnodes', List.filterMap_append,
      List.filterMap_cons_some (operator_apply m o b)] at hoperators
    have hlen := congrArg List.length hoperators
    rw [List.length_append, List.length_cons, List.length_singleton] at hlen
    constructor
    · rw [← filterMap_operator_eq_nil, List.filterMap_append, List.append_eq_nil_iff,
        ← List.length_eq_zero_iff, ← List.length_eq_zero_iff]
      omega
    · intro n hn
      rw [List.mem_append, List.mem_cons] at hn
      rcases hn with hn | rfl | hn
      · exact (haccepted n (List.mem_append_left _ hn)).array
      · exact apply_fine.1 (haccepted _ (List.mem_append_right _ List.mem_cons_self))
      · exact (haccepted n (List.mem_append_right _ (List.mem_cons_of_mem _ hn))).array
  · rintro ⟨hnone, harrays⟩
    have hother : ∀ n ∈ l ++ r, n ∈ l ++ (o, b) :: r := by
      intro n hn
      rw [List.mem_append] at hn
      rw [List.mem_append, List.mem_cons]
      exact hn.imp_right .inr
    have hfine : ∀ n ∈ l ++ r, Fine n := fun n hn =>
      ⟨fun ops => by rw [hnone n hn]; nofun, harrays n (hother n hn)⟩
    have hl : l.filterMap operator = [] :=
      filterMap_operator_eq_nil.2 fun n hn => hnone n (List.mem_append_left _ hn)
    have hr : r.filterMap operator = [] :=
      filterMap_operator_eq_nil.2 fun n hn => hnone n (List.mem_append_right _ hn)
    refine ⟨?_, ?_⟩
    · rw [accepted_iff, fine_setId, hnodes']
      intro n hn
      rw [List.mem_append, List.mem_cons] at hn
      rcases hn with hn | rfl | hn
      · exact hfine n (List.mem_append_left _ hn)
      · exact apply_fine.2 (harrays (o, b) (List.mem_append_right _ List.mem_cons_self))
      · exact hfine n (List.mem_append_right _ hn)
    · rw [operators_setId, operators_eq, hnodes', List.filterMap_append,
        List.filterMap_cons_some (operator_apply m o b), hl, hr]
      rfl

/-- A testcase without operators has no allowed targets. -/
theorem allowedTarget_eq_false {op target : Text} {testcase : List Obj}
    (h : ∀ n ∈ nodesList testcase, n.1.op = none) : allowedTarget op testcase target = false := by
  rw [Bool.eq_false_iff]
  intro hallowed
  obtain ⟨o, l, b, r, -, hop, hnodes, -⟩ := exists_allowedTarget hallowed
  refine hop (h (o, b) ?_)
  rw [hnodes]
  exact List.mem_append_right _ List.mem_cons_self

/-! ## Property files -/

theorem mem_updates {p : Property} {t : List Obj} {target : Text} {v : Value} :
    (target, v) ∈ updates p t ↔ target ∈ p.targets ∧ allowedTarget "update".toList t target = true ∧
      v ∈ p.possibleValues target ∧ v ∉ p.correctValues target := by
  simp only [updates, List.mem_flatMap, List.mem_filter, List.mem_map, decide_eq_true_eq]
  constructor
  · rintro ⟨target', htarget, v', hv, heq⟩
    cases heq
    exact ⟨htarget.1, htarget.2, hv⟩
  · rintro ⟨htarget, hallowed, hv⟩
    exact ⟨target, ⟨htarget, hallowed⟩, v, hv, rfl⟩

theorem mem_updateValues {p : Property} {g : Generated} (h : g ∈ updateValues p) :
    ∃ t ∈ p.testcases, ∃ u ∈ updates p t, ∃ tnum, mutate p tnum t u.1 (.update u.2) = some g := by
  obtain ⟨⟨⟨t, u⟩, tnum⟩, htnum, hg⟩ := List.mem_filterMap.1 h
  obtain ⟨t', ht', htu⟩ := List.mem_flatMap.1 (List.fst_mem_of_mem_zipIdx htnum)
  obtain ⟨u', hu, heq⟩ := List.mem_map.1 htu
  obtain ⟨rfl, rfl⟩ := Prod.mk.inj heq
  exact ⟨t', ht', u', hu, tnum, hg⟩

theorem exists_mem_updateValues {p : Property} {t : List Obj} {u : Text × Value} (ht : t ∈ p.testcases)
    (hu : u ∈ updates p t) : ∃ tnum, ∀ g, mutate p tnum t u.1 (.update u.2) = some g → g ∈ updateValues p := by
  have hmem : (t, u) ∈ p.testcases.flatMap fun t => (updates p t).map (t, ·) :=
    List.mem_flatMap.2 ⟨t, ht, List.mem_map.2 ⟨u, hu, rfl⟩⟩
  obtain ⟨i, hi⟩ := List.mem_iff_getElem?.1 hmem
  refine ⟨1 + i, fun g hg => List.mem_filterMap.2 ⟨((t, u), 1 + i), ?_, hg⟩⟩
  exact List.mk_mem_zipIdx_iff_le_and_getElem?_sub.2 ⟨by omega, by simpa using hi⟩

/-- The values of a property file lead to single mutations exactly if they are set in testcases that
are ready. -/
theorem updateValues_iff (p : Property) :
    (∀ g ∈ updateValues p, g.Single) ↔ ∀ t ∈ p.testcases, updates p t ≠ [] → Ready t := by
  constructor
  · intro h t ht hne
    obtain ⟨u, hu⟩ := List.exists_mem_of_ne_nil _ hne
    obtain ⟨tnum, hmem⟩ := exists_mem_updateValues ht hu
    obtain ⟨g, hg, hsingle⟩ := exists_mutate (mem_updates.1 hu).2.1 p tnum (.update u.2)
    exact hsingle.1 (h g (hmem g hg))
  · intro h g hg
    obtain ⟨t, ht, u, hu, tnum, hmutate⟩ := mem_updateValues hg
    obtain ⟨g', hg', hsingle⟩ := exists_mutate (mem_updates.1 hu).2.1 p tnum (.update u.2)
    obtain rfl := Option.some.inj (hg'.symm.trans hmutate)
    exact hsingle.2 (h t ht (List.ne_nil_of_mem hu))

theorem dropTargets_eq_nil {p : Property} {tnum : ℕ} {testcase : List Obj} {targets : List Text}
    (h : ∀ n ∈ nodesList testcase, n.1.op = none) :
    (dropTargets p tnum testcase targets).1 = [] := by
  induction targets with
  | nil => rfl
  | cons target targets ih =>
    rw [dropTargets, allowedTarget_eq_false h]
    exact ih

/-- Dropping the targets of a testcase one after the other. After a first drop from a testcase that
is ready there is nothing left to drop. -/
theorem dropTargets_iff (p : Property) (tnum : ℕ) (testcase : List Obj) (targets : List Text) :
    (∀ g ∈ (dropTargets p tnum testcase targets).1, g.Single) ↔
      ((∃ target ∈ targets, allowedTarget "drop".toList testcase target = true) → Ready testcase) := by
  induction targets generalizing tnum with
  | nil => exact iff_of_true (List.forall_mem_nil _) fun ⟨_, h, _⟩ => by cases h
  | cons target targets ih =>
    rw [dropTargets]
    by_cases hallowed : allowedTarget "drop".toList testcase target = true
    · obtain ⟨g, hg, hsingle⟩ := exists_mutate hallowed p (tnum + 1) .drop
      rw [if_pos hallowed, hg]
      simp only [Option.toList_some, List.singleton_append, List.forall_mem_cons, hsingle]
      constructor
      · rintro ⟨hready, -⟩ -
        exact hready
      · intro h
        have hready := h ⟨target, List.mem_cons_self, hallowed⟩
        refine ⟨hready, ?_⟩
        obtain ⟨o, l, b, r, -, hop, hnodes, hchange⟩ := exists_allowedTarget hallowed
        obtain ⟨t, ht, hnodes'⟩ := hchange fun o => { o with op := none }
        have hnone := ((ready_iff hnodes hop).1 hready).1
        have hpopped : ∀ n ∈ nodesList t, n.1.op = none := by
          intro n hn
          rw [hnodes', List.mem_append, List.mem_cons] at hn
          rcases hn with hn | rfl | hn
          · exact hnone n (List.mem_append_left _ hn)
          · rfl
          · exact hnone n (List.mem_append_right _ hn)
        rw [ht, Option.getD_some, dropTargets_eq_nil hpopped]
        exact List.forall_mem_nil _
    · rw [if_neg hallowed, ih]
      have hiff : (∃ t ∈ target :: targets, allowedTarget "drop".toList testcase t = true) ↔
          ∃ t ∈ targets, allowedTarget "drop".toList testcase t = true := by
        rw [List.exists_mem_cons_iff]
        exact or_iff_right hallowed
      rw [hiff]

theorem dropTestcases_eq_none_iff (p : Property) (tnum : ℕ) (ts : List (List Obj)) :
    dropTestcases p tnum ts = none ↔ ∃ t ∈ ts, makeTargets t = none := by
  induction ts generalizing tnum with
  | nil => exact iff_of_false nofun fun ⟨_, h, _⟩ => by cases h
  | cons t ts ih =>
    rw [dropTestcases, List.exists_mem_cons_iff]
    cases ht : makeTargets t with
    | none => exact iff_of_true rfl (.inl rfl)
    | some targets =>
      have hrest := ih (dropTargets p tnum t targets).2
      cases hts : dropTestcases p (dropTargets p tnum t targets).2 ts with
      | none => simpa [hts] using hrest
      | some rest => simpa [hts] using hrest

theorem dropTestcases_iff {p : Property} {tnum : ℕ} {ts : List (List Obj)} {gs : List Generated}
    (h : dropTestcases p tnum ts = some gs) :
    (∀ g ∈ gs, g.Single) ↔ ∀ t ∈ ts, (∃ targets ∈ makeTargets t, ∃ target ∈ targets,
      allowedTarget "drop".toList t target = true) → Ready t := by
  induction ts generalizing tnum gs with
  | nil =>
    obtain rfl := Option.some.inj h
    exact iff_of_true (List.forall_mem_nil _) (List.forall_mem_nil _)
  | cons t ts ih =>
    rw [dropTestcases] at h
    cases ht : makeTargets t with
    | none => simp [ht] at h
    | some targets =>
      cases hts : dropTestcases p (dropTargets p tnum t targets).2 ts with
      | none => simp [ht, hts] at h
      | some rest =>
        obtain rfl : (dropTargets p tnum t targets).1 ++ rest = gs := by simpa [ht, hts] using h
        rw [List.forall_mem_append, List.forall_mem_cons, dropTargets_iff, ih hts, ht]
        simp

/-- What is dropped from the testcases of several property files. -/
theorem dropAll_spec (ptcs : List Property) :
    (dropAll ptcs = none ↔ ∃ p ∈ ptcs, ∃ t ∈ p.testcases, makeTargets t = none) ∧
      ∀ gs, dropAll ptcs = some gs →
        ((∀ g ∈ gs, g.2.Single) ↔ ∀ p ∈ ptcs, ∀ t ∈ p.testcases, (∃ targets ∈ makeTargets t,
          ∃ target ∈ targets, allowedTarget "drop".toList t target = true) → Ready t) := by
  induction ptcs with
  | nil =>
    constructor
    · exact iff_of_false nofun fun ⟨_, h, _⟩ => by cases h
    · intro gs h
      obtain rfl := Option.some.inj h
      exact iff_of_true (List.forall_mem_nil _) (List.forall_mem_nil _)
  | cons p ptcs ih =>
    have hnone := dropTestcases_eq_none_iff p 0 p.testcases
    rw [dropAll, dropPayloads, List.exists_mem_cons_iff, ← hnone, ← ih.1]
    cases hp : dropTestcases p 0 p.testcases with
    | none => exact ⟨iff_of_true rfl (.inl rfl), fun gs h => by cases h⟩
    | some gs₀ =>
      cases hps : dropAll ptcs with
      | none => exact ⟨iff_of_true rfl (.inr rfl), fun gs h => by cases h⟩
      | some rest =>
        refine ⟨iff_of_false nofun (by rintro (h | h) <;> cases h), fun gs h => ?_⟩
        obtain rfl := Option.some.inj h
        rw [List.forall_mem_append, List.forall_mem_cons, ← dropTestcases_iff hp, ← ih.2 rest hps,
          List.forall_mem_map]

/-- What holds for the testcases of all messages. -/
theorem forall_generated_iff {ptcs : List Property} {drops : List (Message × Generated)}
    (h : dropAll ptcs = some drops) :
    SingleMutations ptcs ↔
      (∀ p ∈ ptcs, ∀ g ∈ updateValues p, g.Single) ∧ ∀ g ∈ drops, g.2.Single := by
  rw [SingleMutations, attributeLevelManipulation, h]
  constructor
  · intro hall
    have hall := hall _ rfl
    constructor
    · intro p hp g hg
      refine hall p.message g (List.mem_append_left _ (List.mem_flatMap.2 ⟨p, ?_, hg⟩))
      exact List.mem_filter.2 ⟨hp, decide_eq_true rfl⟩
    · intro g hg
      refine hall g.1 g.2 (List.mem_append_right _ (List.mem_map.2 ⟨g, ?_, rfl⟩))
      exact List.mem_filter.2 ⟨hg, decide_eq_true rfl⟩
  · rintro ⟨hupdates, hdrops⟩ generated heq key g hg
    obtain rfl := Option.some.inj heq
    rcases List.mem_append.1 hg with hg | hg
    · obtain ⟨p, hp, hg⟩ := List.mem_flatMap.1 hg
      exact hupdates p (List.mem_filter.1 hp).1 g hg
    · obtain ⟨g', hg', rfl⟩ := List.mem_map.1 hg
      exact hdrops g' (List.mem_filter.1 hg').1

/-- All generated testcases are single mutations exactly if an exception is raised, because an array
has no last element, or if every testcase that something is generated from is ready. -/
theorem singleMutations_iff (ptcs : List Property) :
    SingleMutations ptcs ↔
      (∃ p ∈ ptcs, ∃ t ∈ p.testcases, makeTargets t = none) ∨
        ∀ p ∈ ptcs, ∀ t ∈ p.testcases, p.Generates t → Ready t := by
  obtain ⟨hnone, hsome⟩ := dropAll_spec ptcs
  rw [← hnone]
  cases hdrop : dropAll ptcs with
  | none =>
    refine iff_of_true (fun generated h => ?_) (.inl rfl)
    rw [attributeLevelManipulation, hdrop] at h
    cases h
  | some drops =>
    have hupdates : (∀ p ∈ ptcs, ∀ g ∈ updateValues p, g.Single) ↔
        ∀ p ∈ ptcs, ∀ t ∈ p.testcases, updates p t ≠ [] → Ready t :=
      forall₂_congr fun p _ => updateValues_iff p
    rw [forall_generated_iff hdrop, hupdates, hsome drops hdrop]
    constructor
    · rintro ⟨hu, hd⟩
      exact .inr fun p hp t ht => Or.rec (hu p hp t ht) (hd p hp t ht)
    · rintro (h | h)
      · cases h
      · exact ⟨fun p hp t ht hne => h p hp t ht (.inl hne), fun p hp t ht hex => h p hp t ht (.inr hex)⟩

/-- An attribute with its allowed operators. -/
def sampleAttribute (name : String) : Obj :=
  .node
    { name := name.toList, id := none, op := some (.list ["update".toList, "drop".toList])
      type := none, value := some (.int 0), emptySub := false } []

/-- An object that only has a name. -/
def sampleObject (name : String) (sub : List Obj) : Obj :=
  .node { name := name.toList, id := none, op := none, type := none, value := none, emptySub := false }
    sub

/-- A property file for two attributes of one payload. -/
def sampleProperty : Property where
  id := "401_unauthorized-security_server-alg-ealg".toList
  message := .unauthorized401
  testcases := [[sampleObject "enable_vowifi" [], sampleObject "401_unauthorized"
    [sampleObject "security_server" [sampleAttribute "alg", sampleAttribute "ealg"]]]]
  targets := ["alg".toList, "ealg".toList]
  possibleValues := fun _ => [.str "null".toList]
  correctValues := fun _ => []

/-- The controller does not accept the testcase in which `alg` is updated, because `ealg` still has
its list of operators. -/
theorem not_singleMutations_sampleProperty :
    (∃ generated, attributeLevelManipulation [sampleProperty] = some generated ∧
      ∃ g ∈ generated .unauthorized401, ∃ o ∈ g.testcase, ¬ Obj.Accepted o) ∧
      ¬ SingleMutations [sampleProperty] := by
  have hrejected : ∃ generated, attributeLevelManipulation [sampleProperty] = some generated ∧
      ∃ g ∈ generated .unauthorized401, ∃ o ∈ g.testcase, ¬ Obj.Accepted o := by
    have hg : ∃ g ∈ updateValues sampleProperty, ∃ o ∈ g.testcase, ¬ Obj.Accepted o := by
      refine ⟨_, List.mem_cons_self, _, List.mem_cons_of_mem _ List.mem_cons_self, ?_⟩
      rw [Obj.Accepted]
      decide
    obtain ⟨g, hg, ho⟩ := hg
    exact ⟨_, rfl, g, List.mem_append_left _ (List.mem_flatMap.2
      ⟨sampleProperty, List.mem_singleton_self _, hg⟩), ho⟩
  refine ⟨hrejected, fun h => ?_⟩
  obtain ⟨generated, hgenerated, g, hg, o, ho, hnot⟩ := hrejected
  exact hnot ((h generated hgenerated _ g hg).accepted o ho)

end Scripts

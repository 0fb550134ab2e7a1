import Mathlib.Data.List.Count
import VoWiFi.Scripts.Proofs.AdversarialProofs
import VoWiFi.Scripts.Proofs.PropertyDocProofs

/-!
# When mutations hit their own positions

The copies of a testcase in which one node is updated to a value are counted: there is one for each time
that the name of the node is noted, if the name is found at the node and the value is noted for it, and
none otherwise. The way down to a placeholder leads to the same node in the document, in the default object
and in the testcases that are read from it.
-/

namespace Scripts

open RoseTree (getList modifyAtList)
open Json.Reader (isPlainChar)

/-! ## Copies -/

theorem flatten_updateCopies (p : Property) (tnum : ℕ) (ts : List (List Obj)) :
    (updateCopies p tnum ts).flatten = ((ts.flatMap fun t => (updates p t).map (t, ·)).zipIdx tnum).filterMap
      fun ((testcase, target, value), tnum) => mutate p tnum testcase target (.update value) := by
  induction ts generalizing tnum with
  | nil => rfl
  | cons t ts ih =>
    rw [updateCopies, List.flatten_cons, ih, List.flatMap_cons, List.zipIdx_append, List.filterMap_append,
      List.length_map, List.zipIdx_map, List.filterMap_map]
    rfl

/-- The copies of all testcases are what `update_values` generates. -/
theorem flatten_updateCopies_testcases (p : Property) :
    (updateCopies p 1 p.testcases).flatten = updateValues p := flatten_updateCopies p 1 p.testcases

theorem getD_updateCopies (p : Property) {ts : List (List Obj)} {i : ℕ} {t : List Obj}
    (h : ts[i]? = some t) (tnum : ℕ) :
    ∃ k, (updateCopies p tnum ts).getD i [] = copies p t (updates p t) k := by
  induction ts generalizing tnum i with
  | nil => cases h
  | cons t' ts ih =>
    cases i with
    | zero =>
      cases h
      exact ⟨tnum, rfl⟩
    | succ i => exact ih h _

theorem setId_setId (id id' : Text) (testcase : List Obj) :
    setId id (setId id' testcase) = setId id testcase := by
  rcases testcase with _ | ⟨⟨o, sub⟩, os⟩
  · rfl
  · rfl

/-- Two copies with one node updated are the same only if the node and the value are. -/
theorem modifyAtList_eq_iff {t : List Obj} {pos pos' : ℕ × List ℕ} {o : Fields} {v v' : Value}
    (ho : getList pos t = some o) (hop : o.lists "update".toList = true) :
    setId [] (modifyAtList (Mutation.update v').apply pos' t) =
      setId [] (modifyAtList (Mutation.update v).apply pos t) ↔ pos' = pos ∧ v' = v := by
  constructor
  · intro heq
    have hnode := congrArg (fun t => (getList pos t).map fun o => (o.value, o.op)) heq
    simp only [map_getList_setId (fun o => (o.value, o.op)) (fun _ _ => rfl), RoseTree.getList_modifyAtList,
      if_true, ho] at hnode
    by_cases hpos : pos = pos'
    · subst hpos
      rw [if_pos rfl, ho] at hnode
      simp only [Option.map_some, Mutation.apply, Option.some.injEq, Prod.mk.injEq] at hnode
      exact ⟨rfl, hnode.1⟩
    · -- the node still has its list of operators in one copy, and a single one in the other
      rw [if_neg hpos] at hnode
      simp only [Option.map_some, Mutation.apply, Option.some.injEq, Prod.mk.injEq] at hnode
      rw [Fields.lists, hnode.2] at hop
      cases hop
  · rintro ⟨rfl, rfl⟩
    rfl

theorem hits_of_mutate {p : Property} {tnum : ℕ} {n : Node} {target : Text} {v' : Value} {g : Generated}
    (h : mutate p tnum n.testcase target (.update v') = some g)
    (hn : getList n.pos n.testcase = some n.fields) (hop : n.fields.lists "update".toList = true) (v : Value) :
    g.hits n v = true ↔ targetPos target n.testcase = some n.pos ∧ v' = v := by
  rw [mutate_eq_map] at h
  obtain ⟨pos', hpos', rfl⟩ := Option.map_eq_some_iff.1 h
  rw [Generated.hits, decide_eq_true_eq, setId_setId, modifyAtList_eq_iff hn hop, hpos', Option.some.injEq]

/-! ## Counting copies -/

theorem count_map_pair (target n : Text) (v : Value) (vs : List Value) :
    (vs.map (target, ·)).count (n, v) = if target = n then vs.count v else 0 := by
  split
  · rename_i heq
    subst heq
    exact List.count_map_of_injective vs _ (Prod.mk_right_injective target) v
  · rename_i hne
    rw [List.count_eq_zero]
    intro hmem
    obtain ⟨v', -, heq⟩ := List.mem_map.1 hmem
    exact hne (Prod.mk.inj heq).1

/-- A value of a name is taken once for each time that the name is noted. -/
theorem count_updates {p : Property} {t : List Obj} {n : Text}
    (h : allowedTarget "update".toList t n = true) (v : Value) :
    (updates p t).count (n, v) =
      p.targets.count n * ((p.possibleValues n).filter (· ∉ p.correctValues n)).count v := by
  rw [updates]
  induction p.targets with
  | nil => rw [List.count_nil, Nat.zero_mul]; rfl
  | cons target targets ih =>
    by_cases heq : target = n
    · subst heq
      rw [List.filter_cons_of_pos h, List.flatMap_cons, List.count_append, ih, count_map_pair, if_pos rfl,
        List.count_cons_self, Nat.succ_mul, Nat.add_comm]
    · rw [List.count_cons_of_ne heq, ← ih, List.filter_cons]
      split
      · rw [List.flatMap_cons, List.count_append, count_map_pair, if_neg heq, Nat.zero_add]
      · rfl

theorem name_of_targetPos {target : Text} {t : List Obj} {pos : ℕ × List ℕ} {o : Fields}
    (h : targetPos target t = some pos) (ho : getList pos t = some o) : o.name = target := by
  obtain ⟨o', ho', hname⟩ := RoseTree.getList_of_pathList h
  obtain rfl : o = o' := Option.some.inj (ho.symm.trans ho')
  exact of_decide_eq_true hname

theorem allows_of_lists {o : Fields} {op : Text} (h : o.lists op = true) : o.allows op = true := by
  rw [Fields.lists] at h
  split at h
  · rename_i ops hops
    rw [Fields.allows, hops]
    exact h
  · cases h

theorem allowedTarget_of_targetPos {target op : Text} {t : List Obj} {pos : ℕ × List ℕ} {o : Fields}
    (h : targetPos target t = some pos) (ho : getList pos t = some o) (hop : o.lists op = true) :
    allowedTarget op t target = true := by
  have hfind : findTarget target t = some o := by
    rw [findTarget, RoseTree.findList_eq_bind]
    change (targetPos target t).bind _ = _
    rw [h]
    exact ho
  rw [allowedTarget, hfind]
  exact allows_of_lists hop

section Copies

variable {p : Property} {n : Node} (hn : getList n.pos n.testcase = some n.fields)

include hn

theorem countP_found (us : List (Text × Value)) (v : Value) :
    us.countP (fun u => targetPos u.1 n.testcase = some n.pos ∧ u.2 = v) =
      if targetPos n.fields.name n.testcase = some n.pos then us.count (n.fields.name, v) else 0 := by
  split
  · rename_i hfound
    refine List.countP_congr fun u _ => ?_
    rw [decide_eq_true_eq, beq_iff_eq]
    constructor
    · rintro ⟨hu, hv⟩
      exact Prod.ext (name_of_targetPos hu hn).symm hv
    · rintro rfl
      exact ⟨hfound, rfl⟩
  · rename_i hnot
    rw [List.countP_eq_zero]
    intro u _ hu
    rw [decide_eq_true_eq] at hu
    rw [name_of_targetPos hu.1 hn] at hnot
    exact hnot hu.1

variable (hop : n.fields.lists "update".toList = true)

include hop

/-- The copies that hit a node are those of its own updates. -/
theorem countP_hits {us : List (Text × Value)}
    (hus : ∀ u ∈ us, allowedTarget "update".toList n.testcase u.1 = true) (v : Value) (k : ℕ) :
    (copies p n.testcase us k).countP (·.hits n v) =
      us.countP fun u => targetPos u.1 n.testcase = some n.pos ∧ u.2 = v := by
  induction us generalizing k with
  | nil => rfl
  | cons u us ih =>
    rw [List.forall_mem_cons] at hus
    obtain ⟨g, hg, -⟩ := exists_mutate hus.1 p k (.update u.2)
    have hcopies : copies p n.testcase (u :: us) k = g :: copies p n.testcase us (k + 1) := by
      rw [copies, List.zipIdx_cons, List.filterMap_cons, hg]
      rfl
    rw [hcopies, List.countP_cons, List.countP_cons, ih hus.2]
    simp only [hits_of_mutate hg hn hop, decide_eq_true_eq]

/-- One copy hits a node with a value exactly if the value is noted for it. -/
theorem countP_copies_iff (hnodup : (p.possibleValues n.fields.name).Nodup) (v : Value) (k : ℕ) :
    (copies p n.testcase (updates p n.testcase) k).countP (·.hits n v) = 1 ↔ p.Noted n v := by
  have hallowed : ∀ u ∈ updates p n.testcase, allowedTarget "update".toList n.testcase u.1 = true :=
    fun u hu => (mem_updates.1 hu).2.1
  rw [countP_hits hn hop hallowed, countP_found hn, Property.Noted]
  by_cases hfound : targetPos n.fields.name n.testcase = some n.pos
  · have hvalues := (hnodup.filter fun v => decide (v ∉ p.correctValues n.fields.name)).count (a := v)
    rw [if_pos hfound, count_updates (allowedTarget_of_targetPos hfound hn hop), hvalues]
    by_cases hv : v ∈ (p.possibleValues n.fields.name).filter fun v => decide (v ∉ p.correctValues n.fields.name)
    · rw [if_pos hv, Nat.mul_one]
      rw [List.mem_filter, decide_eq_true_eq] at hv
      exact ⟨fun honce => ⟨honce, hfound, hv⟩, fun h => h.1⟩
    · rw [if_neg hv, Nat.mul_zero]
      refine iff_of_false Nat.zero_ne_one fun h => hv ?_
      rw [List.mem_filter, decide_eq_true_eq]
      exact h.2.2
  · rw [if_neg hfound]
    exact iff_of_false Nat.zero_ne_one fun h => hfound h.2.1

end Copies

/-! ## Values that are noted -/

theorem nodup_of_readValues {values : Text} {possible correct : List Value}
    (h : readValues values = .ok (possible, correct)) : possible.Nodup := by
  rw [readValues] at h
  split at h
  · simp only [bind, Except.bind, pure, Except.pure] at h
    repeat' split at h
    all_goals cases h
    exact List.nodup_dedup _
  · cases h
    decide

/-- A list of possible values has no value twice. -/
theorem nodup_possibleValues {pick : Picker} {file : List Text} {tc : Testcases}
    (h : Testcases.init pick file = .ok tc) (target : Option Text) :
    ((tc.possibleValues target).getD []).Nodup := by
  obtain ⟨r, hr, -, -, hpossible, -⟩ := init_ok h
  rw [hpossible]
  refine foldlM_line_keeps (P := fun r => ((r.possibleValues target).getD []).Nodup) ?_ hr List.nodup_nil
  intro r r' line hline hnodup
  rcases line_ok hline with rfl | ⟨r₁, hname, hline⟩
  · exact hnodup
  · have hnodup₁ : ((r₁.possibleValues target).getD []).Nodup := by
      rcases noteName_ok hname with rfl | ⟨name, rfl⟩
      · exact hnodup
      · exact hnodup
    rcases noteLine_ok hline with rfl | ⟨values, possible, correct, hread, rfl⟩
    · exact hnodup₁
    · simp only [PropertyReader.noteValues, Function.update_apply]
      split
      · exact nodup_of_readValues hread
      · exact hnodup₁

/-! ## Nodes -/

theorem getElem?_of_mapM {α β : Type} {f : α → Option β} {l : List α} {l' : List β} (h : l.mapM f = some l')
    {i : ℕ} {a : α} (ha : l[i]? = some a) : ∃ b, l'[i]? = some b ∧ f a = some b := by
  induction l generalizing l' i with
  | nil => cases ha
  | cons a' l ih =>
    simp only [List.mapM_cons, Option.bind_eq_bind, Option.bind_eq_some_iff] at h
    obtain ⟨b, hb, bs, hbs, heq⟩ := h
    cases heq
    cases i with
    | zero =>
      cases ha
      exact ⟨b, rfl, hb⟩
    | succ i => exact ih hbs ha

theorem objsOfItems_eq_mapM (items : List Json) : objsOfItems items = items.mapM Obj.ofJson := by
  induction items with
  | nil => rfl
  | cons j items ih =>
    rw [objsOfItems, ih, List.mapM_cons]

theorem subOfKeys_eq (keys : List (Text × Json)) :
    subOfKeys keys = optionalKey keys "sub".toList objsOfArray := by
  rw [optionalKey]
  induction keys with
  | nil => rfl
  | cons kv keys ih =>
    obtain ⟨key, v⟩ := kv
    rw [subOfKeys, PyDict.get?_cons, ih]
    split
    · rfl
    · rfl

/-- What is read from the keys `value` and `sub` of an object. -/
theorem ofJson_obj {keys : PyDict Json} {obj : Obj} (h : Obj.ofJson (.obj keys) = some obj) :
    ∃ o sub, obj = .node o (sub.getD []) ∧ optionalKey keys "value".toList readValue = some o.value ∧
      optionalKey keys "sub".toList objsOfArray = some sub := by
  simp only [Obj.ofJson, Option.bind_eq_bind, Option.bind_eq_some_iff] at h
  obtain ⟨name, -, id, -, op, -, type, -, value, hvalue, sub, hsub, heq⟩ := h
  cases heq
  rw [subOfKeys_eq] at hsub
  exact ⟨_, sub, rfl, hvalue, hsub⟩

theorem optionalKey_some {α : Type} {keys : PyDict Json} {key : Text} {read : Json → Option α} {v : Json}
    {a : Option α} (hv : keys.get? key = some v) (h : optionalKey keys key read = some a) :
    ∃ b, a = some b ∧ read v = some b := by
  rw [optionalKey, hv] at h
  obtain ⟨b, hb, rfl⟩ := Option.map_eq_some_iff.1 h
  exact ⟨b, rfl, hb⟩

/-! ## The way down to a placeholder -/

section Holes

variable (put : Placeholder → Value)

theorem Members.get?_fill {key : Text} (members : Members) (h : members.has key = false)
    (keys : PyDict Json) : (members.fill put keys).get? key = keys.get? key := by
  cases members with
  | nil gap => rfl
  | member lead k d gap rest =>
    rw [Members.has, Bool.or_eq_false_iff, decide_eq_false_iff_not] at h
    rw [Members.fill, Members.get?_fill rest h.2, PyDict.get?_set, if_neg h.1]
  | value before after p comma rest =>
    rw [Members.has, Bool.or_eq_false_iff, decide_eq_false_iff_not] at h
    rw [Members.fill, Members.get?_fill rest h.2, PyDict.get?_set, if_neg (Ne.symm h.1)]

/-- A placeholder of an object is the one of its key `value`, or one below its array. -/
theorem Members.mem_holes (members : Members) {level : ℕ} {hole : List ℕ × Placeholder}
    (h : hole ∈ members.holes level) (keys : PyDict Json) :
    (hole.1 = [] ∧ 2 ≤ level ∧
      (members.fill put keys).get? "value".toList = some (put hole.2).json) ∨
    ∃ d : Doc, hole ∈ d.itemHoles (level + 1) ∧
      (members.fill put keys).get? (arrayKey level) = some (d.fill put) := by
  cases members with
  | nil gap => cases h
  | member lead key d gap rest =>
    rw [Members.holes, List.mem_append] at h
    rcases h with h | h
    · split at h
      · rename_i hkey
        refine Or.inr ⟨d, h, ?_⟩
        rw [Members.fill, ← hkey.1, Members.get?_fill put rest hkey.2, PyDict.get?_set, if_pos rfl]
      · cases h
    · exact Members.mem_holes rest h _
  | value before after p comma rest =>
    rw [Members.holes, List.mem_append] at h
    rcases h with h | h
    · split at h
      · rename_i hlast
        obtain rfl := List.mem_singleton.1 h
        refine Or.inl ⟨rfl, hlast.1, ?_⟩
        rw [Members.fill, Members.get?_fill put rest hlast.2, PyDict.get?_set, if_pos rfl]
      · cases h
    · exact Members.mem_holes rest h _

theorem Items.mem_holes (items : Items) {level i : ℕ} {hole : List ℕ × Placeholder}
    (h : hole ∈ items.holes level i) : ∃ j path, ∃ d : Doc, hole.1 = (i + j) :: path ∧
      (path, hole.2) ∈ d.holes level ∧ (items.fill put)[j]? = some (d.fill put) := by
  cases items with
  | nil gap => cases h
  | cons lead d gap rest =>
    rw [Items.holes, List.mem_append] at h
    rcases h with h | h
    · obtain ⟨hole, hmem, rfl⟩ := List.mem_map.1 h
      exact ⟨0, hole.1, d, rfl, hmem, rfl⟩
    · obtain ⟨j, path, d', hpath, hmem, hget⟩ := Items.mem_holes rest h
      refine ⟨j + 1, path, d', ?_, hmem, hget⟩
      rw [hpath, Nat.add_assoc, Nat.add_comm 1 j]

/-- One step of the way down. -/
theorem Doc.mem_holes {d : Doc} {level : ℕ} {path : List ℕ} {p : Placeholder}
    (h : (path, p) ∈ d.holes level) : ∃ keys, d.fill put = .obj keys ∧
      ((path = [] ∧ 2 ≤ level ∧ PyDict.get? keys "value".toList = some (put p).json) ∨
        ∃ i path' items, ∃ d' : Doc, path = i :: path' ∧ (path', p) ∈ d'.holes (level + 1) ∧
          PyDict.get? keys (arrayKey level) = some (.arr items) ∧ items[i]? = some (d'.fill put)) := by
  cases d with
  | inline text v hread => cases h
  | arr items => cases h
  | obj members =>
    refine ⟨members.fill put [], rfl, ?_⟩
    rcases members.mem_holes put h [] with hvalue | ⟨d, hmem, hget⟩
    · exact Or.inl hvalue
    · cases d with
      | inline text v hread => cases hmem
      | obj members' => cases hmem
      | arr items =>
        obtain ⟨i, path', d', hpath, hmem', hitem⟩ := items.mem_holes put hmem
        rw [Nat.zero_add] at hpath
        exact Or.inr ⟨i, path', _, d', hpath, hmem', hget, hitem⟩

/-- The way down to a placeholder in an object leads to a node with the value that is put. -/
theorem get_of_mem_holes {path : List ℕ} {p : Placeholder} {d : Doc} {level : ℕ}
    (h : (path, p) ∈ d.holes (level + 2)) {obj : Obj} (hobj : Obj.ofJson (d.fill put) = some obj) :
    ∃ o, RoseTree.get path obj = some o ∧ o.value = some (put p) := by
  induction path generalizing d level obj with
  | nil =>
    obtain ⟨keys, hkeys, hhole⟩ := Doc.mem_holes put h
    rw [hkeys] at hobj
    obtain ⟨o, sub, rfl, hvalue, -⟩ := ofJson_obj hobj
    rcases hhole with ⟨-, -, hget⟩ | ⟨i, path', items, d', hpath, -⟩
    · obtain ⟨v, hv, hread⟩ := optionalKey_some hget hvalue
      refine ⟨o, rfl, ?_⟩
      rw [hv, ← hread]
      cases put p with
      | int n => rfl
      | str s => rfl
    · cases hpath
  | cons i path ih =>
    obtain ⟨keys, hkeys, hhole⟩ := Doc.mem_holes put h
    rw [hkeys] at hobj
    obtain ⟨o, sub, rfl, -, hsub⟩ := ofJson_obj hobj
    rcases hhole with ⟨hpath, -⟩ | ⟨i, path', items, d', hpath, hmem, hget, hitem⟩
    · cases hpath
    · cases hpath
      obtain ⟨os, rfl, hos⟩ := optionalKey_some hget hsub
      change objsOfItems items = some os at hos
      rw [objsOfItems_eq_mapM] at hos
      obtain ⟨obj, hget', hobj'⟩ := getElem?_of_mapM hos hitem
      obtain ⟨o', ho', hv⟩ := ih hmem hobj'
      refine ⟨o', ?_, hv⟩
      change getList (i, path) os = some o'
      rw [RoseTree.getList_eq_bind, hget']
      exact ho'

/-- The way down to a placeholder in a file leads to a node of one of the testcases. -/
theorem node?_of_mem_holes {path : List ℕ} {ph : Placeholder} {d : Doc} (h : (path, ph) ∈ d.holes 0)
    {p : Property} (hp : testcasesOfJson (d.fill put) = some p.testcases) :
    ∃ n, p.node? path = some n ∧ n.fields.value = some (put ph) := by
  obtain ⟨keys, hkeys, ⟨-, hlevel, -⟩ | ⟨i, path₁, items, d₁, rfl, h₁, hget, hitem⟩⟩ := Doc.mem_holes put h
  · omega
  · rw [hkeys] at hp
    rw [testcasesOfJson, show PyDict.get? keys "testcases".toList = _ from hget] at hp
    obtain ⟨t, ht, htestcase⟩ := getElem?_of_mapM hp hitem
    obtain ⟨keys₁, hkeys₁, ⟨-, hlevel, -⟩ | ⟨j, path₂, items₁, d₂, rfl, h₂, hget₁, hitem₁⟩⟩ :=
      Doc.mem_holes put h₁
    · omega
    · rw [hkeys₁] at htestcase
      change (PyDict.get? keys₁ (arrayKey 1)).bind objsOfArray = _ at htestcase
      rw [hget₁] at htestcase
      change objsOfItems items₁ = _ at htestcase
      rw [objsOfItems_eq_mapM] at htestcase
      obtain ⟨obj, hobj, hread⟩ := getElem?_of_mapM htestcase hitem₁
      obtain ⟨o, ho, hv⟩ := get_of_mem_holes put h₂ hread
      refine ⟨⟨i, (j, path₂), t, o⟩, ?_, hv⟩
      have hnode : getList (j, path₂) t = some o := by
        rw [RoseTree.getList_eq_bind, hobj]
        exact ho
      simp only [Property.node?, ht, Option.bind_eq_bind, Option.bind_some, hnode]
      rfl

end Holes

theorem node?_eq_some {p : Property} {path : List ℕ} {n : Node} (h : p.node? path = some n) :
    p.testcases[n.index]? = some n.testcase ∧ getList n.pos n.testcase = some n.fields := by
  rcases path with _ | ⟨i, _ | ⟨j, path⟩⟩
  · cases h
  · cases h
  · simp only [Property.node?, Option.bind_eq_bind, Option.bind_eq_some_iff] at h
    obtain ⟨t, ht, o, ho, heq⟩ := h
    cases heq
    exact ⟨ht, ho⟩

/-- A payload with an attribute `spi`. -/
def payloadDoc (name : Text) (h : name.all isPlainChar = true) : Doc :=
  nodeDoc name h (subMember [nodeDoc "spi".toList (by decide)
    (opMember (.value noBlank oneBlank oneOfTwo none (.nil noBlank)))])

def payloadLines (name : Text) : List Line :=
  [.plain ("\"name\": \"".toList ++ name ++ "\",".toList), .plain "\"sub\": [\x7b".toList,
    .plain "\"name\": \"spi\",".toList, .plain "\"op\": [\"update\"],".toList,
    .value noBlank oneBlank oneOfTwo none, .plain "\x7d]".toList]

/-- Two payloads with attributes of the same name. -/
def twoPayloads : Doc :=
  messageDoc [payloadDoc "sa".toList (by decide), payloadDoc "ke".toList (by decide)]

def twoPayloadsLines : List Line :=
  messageLines (payloadLines "sa".toList ++ .plain "\x7d,\x7b".toList :: payloadLines "ke".toList)

end Scripts

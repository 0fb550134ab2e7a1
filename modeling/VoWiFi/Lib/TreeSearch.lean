import VoWiFi.Lib.RoseTree

/-!
# Searching and changing a tree

The first node of a tree that satisfies a predicate, children before their parent, and the tree in which
this node has been changed. What a change does to a tree is said on the list of its nodes.
-/

namespace RoseTree

variable {α : Type}

mutual

/-- The label of the first node that satisfies a predicate. -/
def find (p : α → Bool) : RoseTree α → Option α
  | node a ts => (findList p ts).or (if p a then some a else none)

/-- The same in a list of trees. -/
def findList (p : α → Bool) : List (RoseTree α) → Option α
  | [] => none
  | t :: ts => (find p t).or (findList p ts)

end

mutual

/-- Change the label of the first node that satisfies a predicate, if there is one. -/
def modify (p : α → Bool) (f : α → α) : RoseTree α → Option (RoseTree α)
  | node a ts =>
    match modifyList p f ts with
    | some ts => some (node a ts)
    | none => if p a then some (node (f a) ts) else none

/-- The same in a list of trees. -/
def modifyList (p : α → Bool) (f : α → α) : List (RoseTree α) → Option (List (RoseTree α))
  | [] => none
  | t :: ts =>
    match modify p f t with
    | some t => some (t :: ts)
    | none => (modifyList p f ts).map (t :: ·)

end

mutual

/-- The labels of a tree, each with whether its node is a leaf. -/
def nodes : RoseTree α → List (α × Bool)
  | node a ts => (a, ts.isEmpty) :: nodesList ts

/-- The same for a list of trees. -/
def nodesList : List (RoseTree α) → List (α × Bool)
  | [] => []
  | t :: ts => nodes t ++ nodesList ts

end

theorem nodesList_eq_flatMap (ts : List (RoseTree α)) : nodesList ts = ts.flatMap nodes := by
  induction ts with
  | nil => rfl
  | cons t ts ih => rw [nodesList, ih, List.flatMap_cons]

variable {p : α → Bool}

mutual

theorem modify_eq_none {t : RoseTree α} (h : find p t = none) (f : α → α) : modify p f t = none := by
  cases t with
  | node a ts =>
    rw [find, Option.or_eq_none_iff] at h
    have ha : ¬ p a = true := fun ha => by simp [ha] at h
    rw [modify, modifyList_eq_none h.1 f]
    exact if_neg ha

theorem modifyList_eq_none {ts : List (RoseTree α)} (h : findList p ts = none) (f : α → α) :
    modifyList p f ts = none := by
  cases ts with
  | nil => rfl
  | cons t ts =>
    rw [findList, Option.or_eq_none_iff] at h
    rw [modifyList, modify_eq_none h.1 f, modifyList_eq_none h.2 f]
    rfl

end

/-- The node that is found, in the list of all nodes, and what a change makes of this list. -/
def Located (p : α → Bool) (a : α) (ns : List (α × Bool))
    (change : (α → α) → Option (List (α × Bool))) : Prop :=
  p a = true ∧ ∃ l b r, ns = l ++ (a, b) :: r ∧ ∀ f, change f = some (l ++ (f a, b) :: r)

mutual

/-- A node that is found in a tree, and the tree with that node changed. -/
theorem located_of_find {t : RoseTree α} {a : α} (h : find p t = some a) :
    Located p a (nodes t) fun f => (modify p f t).map nodes := by
  cases t with
  | node c ts =>
    rw [find] at h
    cases hts : findList p ts with
    | some a' =>
      obtain rfl : a' = a := by rw [hts] at h; exact Option.some.inj h
      obtain ⟨ha, l, b, r, hnodes, hchange⟩ := located_of_findList hts
      refine ⟨ha, (c, ts.isEmpty) :: l, b, r, by rw [nodes, hnodes]; rfl, fun f => ?_⟩
      obtain ⟨ts', hts', hnodes'⟩ := Option.map_eq_some_iff.1 (hchange f)
      -- neither list of children is empty
      have hempty : ts'.isEmpty = ts.isEmpty := by
        cases ts with
        | nil => cases hts
        | cons t ts =>
          cases ts' with
          | nil => simp [nodesList] at hnodes'
          | cons t' ts' => rfl
      simp only [modify, hts', Option.map_some, nodes, hempty, hnodes', List.cons_append]
    | none =>
      rw [hts, Option.none_or] at h
      split at h
      · rename_i hc
        obtain rfl := Option.some.inj h
        refine ⟨hc, [], ts.isEmpty, nodesList ts, rfl, fun f => ?_⟩
        simp only [modify, modifyList_eq_none hts f, hc, if_true, Option.map_some, nodes,
          List.nil_append]
      · cases h

/-- The same for a list of trees. -/
theorem located_of_findList {ts : List (RoseTree α)} {a : α} (h : findList p ts = some a) :
    Located p a (nodesList ts) fun f => (modifyList p f ts).map nodesList := by
  cases ts with
  | nil => cases h
  | cons t ts =>
    rw [findList] at h
    cases ht : find p t with
    | some a' =>
      obtain rfl : a' = a := by rw [ht] at h; exact Option.some.inj h
      obtain ⟨ha, l, b, r, hnodes, hchange⟩ := located_of_find ht
      refine ⟨ha, l, b, r ++ nodesList ts, by rw [nodesList, hnodes]; simp, fun f => ?_⟩
      obtain ⟨t', ht', hnodes'⟩ := Option.map_eq_some_iff.1 (hchange f)
      simp only [modifyList, ht', Option.map_some, nodesList, hnodes', List.append_assoc,
        List.cons_append]
    | none =>
      rw [ht, Option.none_or] at h
      obtain ⟨ha, l, b, r, hnodes, hchange⟩ := located_of_findList h
      refine ⟨ha, nodes t ++ l, b, r, by rw [nodesList, hnodes, List.append_assoc], fun f => ?_⟩
      obtain ⟨ts', hts', hnodes'⟩ := Option.map_eq_some_iff.1 (hchange f)
      simp only [modifyList, modify_eq_none ht f, hts', Option.map_some, nodesList, hnodes',
        List.append_assoc]

end

end RoseTree

import Mathlib.Algebra.Order.BigOperators.Group.List
import Mathlib.Algebra.Order.Ring.Nat
import Mathlib.Data.List.Perm.Basic

/-!
# Rose trees up to the order of siblings

Finitely branching trees with labelled nodes, the relation `SibEq` that identifies trees differing
only in the order of siblings, and node sums weighted by depth. A node sum does not see the order
of siblings, which makes it the tool for telling two trees apart.
-/

/-- A finitely branching tree with labels in `α`. -/
inductive RoseTree (α : Type) where
  /-- A node with its label and the list of its subtrees. -/
  | node (label : α) (sub : List (RoseTree α))

namespace RoseTree

variable {α β : Type}

/-- The label of the root. -/
def label : RoseTree α → α
  | node a _ => a

/-- The subtrees of the root. -/
def sub : RoseTree α → List (RoseTree α)
  | node _ ts => ts

@[simp] theorem label_node (a : α) (ts : List (RoseTree α)) : (node a ts).label = a := rfl

@[simp] theorem sub_node (a : α) (ts : List (RoseTree α)) : (node a ts).sub = ts := rfl

/-- Induction over trees: a property that passes from all subtrees of a node to the node holds of
every tree. -/
theorem induction {P : RoseTree α → Prop} (h : ∀ a ts, (∀ t ∈ ts, P t) → P (node a ts)) :
    ∀ t, P t
  | node a ts => h a ts (all ts)
where
  all : ∀ ts : List (RoseTree α), ∀ t ∈ ts, P t
    | [] => nofun
    | t :: ts => List.forall_mem_cons.2 ⟨induction h t, all ts⟩

/-! ## Relabelling -/

mutual

/-- Apply `f` to every label. -/
def map (f : α → β) : RoseTree α → RoseTree β
  | node a ts => node (f a) (mapList f ts)

/-- Apply `f` to every label of a list of trees. -/
def mapList (f : α → β) : List (RoseTree α) → List (RoseTree β)
  | [] => []
  | t :: ts => map f t :: mapList f ts

end

theorem mapList_eq (f : α → β) (ts : List (RoseTree α)) : mapList f ts = ts.map (map f) := by
  induction ts with
  | nil => rfl
  | cons t ts ih => rw [mapList, ih, List.map_cons]

@[simp] theorem map_node (f : α → β) (a : α) (ts : List (RoseTree α)) :
    map f (node a ts) = node (f a) (ts.map (map f)) := by
  rw [map, mapList_eq]

/-! ## Node sums -/

mutual

/-- The sum of `f d a` over the nodes of a tree whose root is at depth `d`. -/
def wsum (f : ℕ → α → ℕ) (d : ℕ) : RoseTree α → ℕ
  | node a ts => f d a + wsumList f (d + 1) ts

/-- The sum over a list of trees whose roots are at depth `d`. -/
def wsumList (f : ℕ → α → ℕ) (d : ℕ) : List (RoseTree α) → ℕ
  | [] => 0
  | t :: ts => wsum f d t + wsumList f d ts

end

theorem wsumList_eq (f : ℕ → α → ℕ) (d : ℕ) (ts : List (RoseTree α)) :
    wsumList f d ts = (ts.map (wsum f d)).sum := by
  induction ts with
  | nil => rfl
  | cons t ts ih => rw [wsumList, ih, List.map_cons, List.sum_cons]

@[simp] theorem wsum_node (f : ℕ → α → ℕ) (d : ℕ) (a : α) (ts : List (RoseTree α)) :
    wsum f d (node a ts) = f d a + (ts.map (wsum f (d + 1))).sum := by
  rw [wsum, wsumList_eq]

/-- A sum that counts a relabelled tree counts the original one through the relabelling. -/
theorem wsum_map (f : ℕ → β → ℕ) (g : α → β) (t : RoseTree α) (d : ℕ) :
    wsum f d (map g t) = wsum (fun d a => f d (g a)) d t := by
  induction t using induction generalizing d with
  | h a ts ih =>
    simp only [map_node, wsum_node, List.map_map, Nat.add_left_cancel_iff]
    refine congrArg List.sum (List.map_congr_left fun t ht => ?_)
    exact ih t ht (d + 1)

/-- A sum that does not look at depths does not depend on where the root is. -/
theorem wsum_const_depth (f : α → ℕ) (t : RoseTree α) (d e : ℕ) :
    wsum (fun _ => f) d t = wsum (fun _ => f) e t := by
  induction t using induction generalizing d e with
  | h a ts ih =>
    rw [wsum_node, wsum_node, List.map_congr_left fun t ht => ih t ht (d + 1) (e + 1)]

/-- The sum of the depths of all nodes, the root being at depth `d`. -/
def depthSum (d : ℕ) (t : RoseTree α) : ℕ := wsum (fun d _ => d) d t

@[simp] theorem depthSum_node (d : ℕ) (a : α) (ts : List (RoseTree α)) :
    depthSum d (node a ts) = d + (ts.map (depthSum (d + 1))).sum :=
  wsum_node _ d a ts

theorem depthSum_map (g : α → β) (t : RoseTree α) (d : ℕ) :
    depthSum d (map g t) = depthSum d t :=
  wsum_map _ g t d

/-! ## Properties of all nodes -/

mutual

/-- Every subtree of the tree, the tree itself included, satisfies `p`. -/
def Every (p : RoseTree α → Prop) : RoseTree α → Prop
  | node a ts => p (node a ts) ∧ EveryList p ts

/-- Every subtree of the trees satisfies `p`. -/
def EveryList (p : RoseTree α → Prop) : List (RoseTree α) → Prop
  | [] => True
  | t :: ts => Every p t ∧ EveryList p ts

end

theorem everyList_iff (p : RoseTree α → Prop) (ts : List (RoseTree α)) :
    EveryList p ts ↔ ∀ t ∈ ts, Every p t := by
  induction ts with
  | nil => simp [EveryList]
  | cons t ts ih => simp [EveryList, ih]

@[simp] theorem every_node (p : RoseTree α → Prop) (a : α) (ts : List (RoseTree α)) :
    Every p (node a ts) ↔ p (node a ts) ∧ ∀ t ∈ ts, Every p t := by
  rw [Every, everyList_iff]

theorem Every.root {p : RoseTree α → Prop} {t : RoseTree α} (h : Every p t) : p t := by
  obtain ⟨a, ts⟩ := t
  exact ((every_node p a ts).1 h).1

theorem Every.imp {p q : RoseTree α → Prop} {t : RoseTree α} (ht : Every p t)
    (h : ∀ t, p t → q t) : Every q t := by
  induction t using induction with
  | h a ts ih =>
    rw [every_node] at ht ⊢
    exact ⟨h _ ht.1, fun t hm => ih t hm (ht.2 t hm)⟩

theorem Every.and {p q : RoseTree α → Prop} {t : RoseTree α} (hp : Every p t) (hq : Every q t) :
    Every (fun t => p t ∧ q t) t := by
  induction t using induction with
  | h a ts ih =>
    rw [every_node] at hp hq ⊢
    exact ⟨⟨hp.1, hq.1⟩, fun t ht => ih t ht (hp.2 t ht) (hq.2 t ht)⟩

mutual

/-- Whether every subtree satisfies a decidable predicate is decidable. -/
instance decidableEvery (p : RoseTree α → Prop) [DecidablePred p] :
    ∀ t : RoseTree α, Decidable (Every p t)
  | node a ts => @instDecidableAnd (p (node a ts)) (EveryList p ts) _ (decidableEveryList p ts)

/-- The same for lists of trees. -/
instance decidableEveryList (p : RoseTree α → Prop) [DecidablePred p] :
    ∀ ts : List (RoseTree α), Decidable (EveryList p ts)
  | [] => instDecidableTrue
  | t :: ts =>
    @instDecidableAnd (Every p t) (EveryList p ts) (decidableEvery p t) (decidableEveryList p ts)

end

/-- Every label of the tree satisfies `p`. -/
def All (p : α → Prop) : RoseTree α → Prop := Every fun t => p t.label

instance (p : α → Prop) [DecidablePred p] (t : RoseTree α) : Decidable (All p t) :=
  inferInstanceAs (Decidable (Every _ t))

@[simp] theorem all_node (p : α → Prop) (a : α) (ts : List (RoseTree α)) :
    All p (node a ts) ↔ p a ∧ ∀ t ∈ ts, All p t :=
  every_node _ a ts

theorem All.imp {p q : α → Prop} {t : RoseTree α} (ht : All p t) (h : ∀ a, p a → q a) :
    All q t :=
  Every.imp ht fun t => h t.label

theorem All.and {p q : α → Prop} {t : RoseTree α} (hp : All p t) (hq : All q t) :
    All (fun a => p a ∧ q a) t :=
  Every.and hp hq

theorem map_congr {f g : α → β} {t : RoseTree α} (h : All (fun a => f a = g a) t) :
    map f t = map g t := by
  induction t using induction with
  | h a ts ih =>
    rw [all_node] at h
    rw [map_node, map_node, h.1, List.map_congr_left fun t ht => ih t ht (h.2 t ht)]

/-- Pointwise comparison of node sums. -/
theorem wsum_le {f g : α → ℕ} {t : RoseTree α} (h : All (fun a => f a ≤ g a) t) (d : ℕ) :
    wsum (fun _ => f) d t ≤ wsum (fun _ => g) d t := by
  induction t using induction generalizing d with
  | h a ts ih =>
    rw [all_node] at h
    rw [wsum_node, wsum_node]
    exact Nat.add_le_add h.1 (List.sum_le_sum fun t ht => ih t ht (h.2 t ht) (d + 1))

/-- If one weight is below another at every node and the two sums over the tree agree, then the
weights agree at every node. -/
theorem all_eq_of_wsum_le {f g : α → ℕ} {t : RoseTree α} (hle : All (fun a => f a ≤ g a) t) {d : ℕ}
    (h : wsum (fun _ => g) d t ≤ wsum (fun _ => f) d t) : All (fun a => f a = g a) t := by
  induction t using induction generalizing d with
  | h a ts ih =>
    rw [all_node] at hle
    rw [wsum_node, wsum_node] at h
    have hsub : ∀ t ∈ ts, wsum (fun _ => f) (d + 1) t ≤ wsum (fun _ => g) (d + 1) t :=
      fun t ht => wsum_le (hle.2 t ht) (d + 1)
    have hsum := List.sum_le_sum hsub
    have ha := hle.1
    refine (all_node _ _ _).2 ⟨by omega, fun t ht => ?_⟩
    refine ih t ht (hle.2 t ht) (d := d + 1) (not_lt.1 fun hlt => ?_)
    have := List.sum_lt_sum _ _ hsub ⟨t, ht, hlt⟩
    omega

/-! ## Equality up to the order of siblings -/

mutual

/-- The trees agree up to the order of siblings. -/
def SibEq : RoseTree α → RoseTree α → Prop
  | node a ts, node b us => a = b ∧ ∃ us', us'.Perm us ∧ SibEqList ts us'

/-- The lists agree element by element, up to the order of siblings inside the elements. -/
def SibEqList : List (RoseTree α) → List (RoseTree α) → Prop
  | [], us => us = []
  | t :: ts, us => ∃ u us', us = u :: us' ∧ SibEq t u ∧ SibEqList ts us'

end

/-- Node sums do not see the order of siblings. -/
theorem SibEq.wsum_eq (f : ℕ → α → ℕ) : ∀ {t u : RoseTree α}, SibEq t u → ∀ d,
    wsum f d t = wsum f d u
  | node a ts, node b us, h, d => by
    obtain ⟨rfl, us', hp, hl⟩ := h
    rw [wsum_node, wsum_node, list hl, (hp.map _).sum_eq]
where
  list : ∀ {ts us : List (RoseTree α)}, SibEqList ts us → ∀ {d : ℕ},
      (ts.map (wsum f d)).sum = (us.map (wsum f d)).sum
    | [], us, h, d => by rw [show us = [] from h]
    | t :: ts, us, h, d => by
      obtain ⟨u, us', rfl, ht, hts⟩ := h
      rw [List.map_cons, List.map_cons, List.sum_cons, List.sum_cons, ht.wsum_eq f d, list hts]

mutual

/-- The tree with the siblings of every level in reverse order. -/
def mirror : RoseTree α → RoseTree α
  | node a ts => node a (mirrorList ts)

/-- A list of trees in reverse order, each one mirrored. -/
def mirrorList : List (RoseTree α) → List (RoseTree α)
  | [] => []
  | t :: ts => mirrorList ts ++ [mirror t]

end

theorem mirrorList_eq (ts : List (RoseTree α)) : mirrorList ts = (ts.map mirror).reverse := by
  induction ts with
  | nil => rfl
  | cons t ts ih => rw [mirrorList, ih, List.map_cons, List.reverse_cons]

@[simp] theorem mirror_node (a : α) (ts : List (RoseTree α)) :
    mirror (node a ts) = node a (ts.map mirror).reverse := by
  rw [mirror, mirrorList_eq]

theorem sibEqList_map {f : RoseTree α → RoseTree α} :
    ∀ {ts : List (RoseTree α)}, (∀ t ∈ ts, SibEq t (f t)) → SibEqList ts (ts.map f)
  | [], _ => rfl
  | t :: ts, h => by
    rw [List.forall_mem_cons] at h
    exact ⟨f t, ts.map f, rfl, h.1, sibEqList_map h.2⟩

/-- Mirroring only reorders siblings. -/
theorem sibEq_mirror (t : RoseTree α) : SibEq t (mirror t) := by
  induction t using induction with
  | h a ts ih =>
    rw [mirror_node]
    exact ⟨rfl, ts.map mirror, (List.reverse_perm _).symm, sibEqList_map ih⟩

end RoseTree

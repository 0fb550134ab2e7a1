import VoWiFi.Lib.RoseTree

/-!
# A cursor into a growing tree

A mutable tree whose nodes know their parent, together with a pointer to one of its nodes. The two
moves are the ones a decoder of a bracketed stream makes: insert a new first child and go there, and
go to the parent. A cursor is therefore always at the first child of its parent, and what it needs
to remember about an ancestor is its label and the children behind the one on the path.

A decoder that appends new children instead makes the same moves, with the children before the one on
the path remembered (`parentLast?`).
-/

/-- A pointer into a tree: the node it points at and its ancestors, innermost first, each with the
siblings that follow the child on the path. -/
structure Cursor (α : Type) where
  label : α
  sub : List (RoseTree α)
  up : List (α × List (RoseTree α))

namespace Cursor

variable {α : Type}

/-- The tree below the cursor. -/
def tree (c : Cursor α) : RoseTree α := .node c.label c.sub

/-- The number of ancestors. -/
def depth (c : Cursor α) : ℕ := c.up.length

/-- A cursor at the root of a one-node tree. -/
def single (a : α) : Cursor α := ⟨a, [], []⟩

/-- Insert a new first child with label `a` and move to it. -/
def addSub (c : Cursor α) (a : α) : Cursor α := ⟨a, [], (c.label, c.sub) :: c.up⟩

/-- Move to the parent, if there is one. -/
def parent? (c : Cursor α) : Option (Cursor α) :=
  match c.up with
  | [] => none
  | (a, ts) :: up => some ⟨a, c.tree :: ts, up⟩

/-- Move to the parent, if there is one, in a tree that grows at the last child. -/
def parentLast? (c : Cursor α) : Option (Cursor α) :=
  match c.up with
  | [] => none
  | (a, ts) :: up => some ⟨a, ts ++ [c.tree], up⟩

/-- Append whole subtrees to the children of the node. -/
def append (c : Cursor α) (ts : List (RoseTree α)) : Cursor α := { c with sub := c.sub ++ ts }

/-- Change the label of the node. -/
def setLabel (c : Cursor α) (a : α) : Cursor α := { c with label := a }

/-- Close the ancestors around a tree. -/
def closeUp (t : RoseTree α) : List (α × List (RoseTree α)) → RoseTree α
  | [] => t
  | (a, ts) :: up => closeUp (.node a (t :: ts)) up

/-- The whole tree the cursor points into. -/
def whole (c : Cursor α) : RoseTree α := closeUp c.tree c.up

@[simp] theorem depth_single (a : α) : (single a).depth = 0 := rfl

@[simp] theorem depth_addSub (c : Cursor α) (a : α) : (c.addSub a).depth = c.depth + 1 := rfl

@[simp] theorem parent?_addSub (c : Cursor α) (a : α) :
    (c.addSub a).parent? = some ⟨c.label, .node a [] :: c.sub, c.up⟩ := rfl

@[simp] theorem append_nil (c : Cursor α) : c.append [] = c := by simp [append]

theorem append_append (c : Cursor α) (ts us : List (RoseTree α)) :
    (c.append ts).append us = c.append (ts ++ us) := by simp [append]

/-- Going down, adding children there and coming back appends one subtree. -/
theorem parentLast?_addSub_append (c : Cursor α) (a : α) (ts : List (RoseTree α)) :
    ((c.addSub a).append ts).parentLast? = some (c.append [.node a ts]) := by
  simp [addSub, append, parentLast?, tree]

/-- A cursor that is not at the root has a parent, one level up in the same tree. -/
theorem exists_parent {c : Cursor α} (h : 0 < c.depth) :
    ∃ p, c.parent? = some p ∧ p.depth + 1 = c.depth ∧ p.whole = c.whole := by
  obtain ⟨a, ts, up⟩ := c
  cases up with
  | nil => exact absurd h (by simp [depth])
  | cons p up => exact ⟨_, rfl, rfl, rfl⟩

theorem parent?_eq_none {c : Cursor α} : c.parent? = none ↔ c.depth = 0 := by
  obtain ⟨a, ts, up⟩ := c
  cases up <;> simp [parent?, depth]

/-! ## Properties of all nodes -/

/-- Every label of the whole tree satisfies `p`. -/
structure All (p : α → Prop) (c : Cursor α) : Prop where
  label : p c.label
  sub : ∀ t ∈ c.sub, t.All p
  up : ∀ u ∈ c.up, p u.1 ∧ ∀ t ∈ u.2, t.All p

section All

variable {p : α → Prop} {c : Cursor α} {a : α}

theorem All.single (ha : p a) : (single a).All p := ⟨ha, nofun, nofun⟩

theorem All.tree (h : c.All p) : c.tree.All p := (RoseTree.all_node p c.label c.sub).2 ⟨h.label, h.sub⟩

theorem All.addSub (h : c.All p) (ha : p a) : (c.addSub a).All p :=
  ⟨ha, nofun, List.forall_mem_cons.2 ⟨⟨h.label, h.sub⟩, h.up⟩⟩

theorem All.setLabel (h : c.All p) (ha : p a) : (c.setLabel a).All p := ⟨ha, h.sub, h.up⟩

theorem All.parentLast? (h : c.All p) {q : Cursor α} (hq : c.parentLast? = some q) : q.All p := by
  have htree := h.tree
  obtain ⟨a, ts, up⟩ := c
  cases up with
  | nil => cases hq
  | cons u up =>
    obtain rfl := Option.some.inj hq
    obtain ⟨hu, hup⟩ := List.forall_mem_cons.1 h.up
    refine ⟨hu.1, ?_, hup⟩
    intro t ht
    rcases List.mem_append.1 ht with ht | ht
    · exact hu.2 t ht
    · rw [List.mem_singleton.1 ht]
      exact htree

end All

/-! ## Node sums of the whole tree -/

/-- What the ancestors of a node contribute to a node sum, the innermost one at depth `d`. -/
def upSum (f : ℕ → α → ℕ) : List (α × List (RoseTree α)) → ℕ
  | [] => 0
  | (a, ts) :: up =>
    f up.length a + (ts.map (RoseTree.wsum f (up.length + 1))).sum + upSum f up

theorem wsum_closeUp (f : ℕ → α → ℕ) (up : List (α × List (RoseTree α))) (t : RoseTree α) :
    (closeUp t up).wsum f 0 = t.wsum f up.length + upSum f up := by
  induction up generalizing t with
  | nil => simp [closeUp, upSum]
  | cons p up ih =>
    obtain ⟨a, ts⟩ := p
    rw [closeUp, ih, RoseTree.wsum_node, List.map_cons, List.sum_cons, upSum, List.length_cons]
    omega

theorem wsum_whole (f : ℕ → α → ℕ) (c : Cursor α) :
    c.whole.wsum f 0 = c.tree.wsum f c.depth + upSum f c.up :=
  wsum_closeUp f c.up c.tree

/-- A new child adds its own weight, at its own depth, to every node sum. -/
theorem wsum_whole_addSub (f : ℕ → α → ℕ) (c : Cursor α) (a : α) :
    (c.addSub a).whole.wsum f 0 = c.whole.wsum f 0 + f (c.depth + 1) a := by
  rw [wsum_whole, wsum_whole, depth_addSub]
  simp only [addSub, tree, upSum, RoseTree.wsum_node, List.map_nil, List.sum_nil, depth]
  omega

theorem depthSum_whole_addSub (c : Cursor α) (a : α) :
    (c.addSub a).whole.depthSum 0 = c.whole.depthSum 0 + (c.depth + 1) :=
  wsum_whole_addSub _ c a

/-- A tree below a cursor that is as large as the whole tree is the whole tree. -/
theorem depth_eq_zero_of_size {c : Cursor α}
    (h : c.whole.wsum (fun _ _ => 1) 0 ≤ c.tree.wsum (fun _ _ => 1) c.depth) : c.depth = 0 := by
  rw [wsum_whole] at h
  obtain ⟨a, ts, up⟩ := c
  cases up with
  | nil => rfl
  | cons p up => obtain ⟨b, us⟩ := p; simp only [upSum] at h; omega

theorem whole_of_depth_eq_zero {c : Cursor α} (h : c.depth = 0) : c.whole = c.tree := by
  obtain ⟨a, ts, up⟩ := c
  cases up with
  | nil => rfl
  | cons p up => exact absurd h (by simp [depth])

end Cursor

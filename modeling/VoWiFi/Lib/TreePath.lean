import VoWiFi.Lib.TreeSearch

/-!
# Positions in a tree

A position in a tree is the list of the indices on the way down to a node; in a list of trees, it is the
index of a tree and a position in it. The first node that satisfies a predicate is found at a position, and
changing this node is changing what is at that position.
-/

namespace RoseTree

variable {α : Type}

mutual

/-- The label at a position. -/
def get : List ℕ → RoseTree α → Option α
  | [], node a _ => some a
  | i :: path, node _ ts => getList (i, path) ts

def getList : ℕ × List ℕ → List (RoseTree α) → Option α
  | _, [] => none
  | (0, path), t :: _ => get path t
  | (i + 1, path), _ :: ts => getList (i, path) ts

end

mutual

/-- Change the label at a position. -/
def modifyAt (f : α → α) : List ℕ → RoseTree α → RoseTree α
  | [], node a ts => node (f a) ts
  | i :: path, node a ts => node a (modifyAtList f (i, path) ts)

def modifyAtList (f : α → α) : ℕ × List ℕ → List (RoseTree α) → List (RoseTree α)
  | _, [] => []
  | (0, path), t :: ts => modifyAt f path t :: ts
  | (i + 1, path), t :: ts => t :: modifyAtList f (i, path) ts

end

mutual

/-- The position of the first node that satisfies a predicate, children before their parent. -/
def path (p : α → Bool) : RoseTree α → Option (List ℕ)
  | node a ts =>
    match pathList p ts with
    | some pos => some (pos.1 :: pos.2)
    | none => if p a then some [] else none

def pathList (p : α → Bool) : List (RoseTree α) → Option (ℕ × List ℕ)
  | [] => none
  | t :: ts =>
    match path p t with
    | some path => some (0, path)
    | none => (pathList p ts).map fun pos => (pos.1 + 1, pos.2)

end

mutual

/-- Equality of trees is decided node by node. -/
def decEq [DecidableEq α] : (t u : RoseTree α) → Decidable (t = u)
  | node a ts, node b us =>
    match decEqList ts us with
    | isTrue hts => decidable_of_iff (a = b) ⟨fun ha => by rw [ha, hts], fun h => by cases h; rfl⟩
    | isFalse hts => isFalse fun h => hts (by cases h; rfl)

def decEqList [DecidableEq α] : (ts us : List (RoseTree α)) → Decidable (ts = us)
  | [], [] => isTrue rfl
  | [], _ :: _ => isFalse nofun
  | _ :: _, [] => isFalse nofun
  | t :: ts, u :: us =>
    match decEq t u, decEqList ts us with
    | isTrue ht, isTrue hts => isTrue (by rw [ht, hts])
    | isFalse ht, _ => isFalse fun h => ht (List.cons.inj h).1
    | _, isFalse hts => isFalse fun h => hts (List.cons.inj h).2

end

instance [DecidableEq α] : DecidableEq (RoseTree α) := decEq

variable {p : α → Bool}

theorem getList_eq_bind (i : ℕ) (pos : List ℕ) (ts : List (RoseTree α)) :
    getList (i, pos) ts = ts[i]?.bind (get pos) := by
  induction ts generalizing i with
  | nil => rfl
  | cons t ts ih =>
    cases i with
    | zero => rfl
    | succ i => exact ih i

/-! ## Searching -/

mutual

/-- A node is found at a position where there is one, and it satisfies the predicate. -/
theorem get_of_path {t : RoseTree α} {pos : List ℕ} (h : path p t = some pos) :
    ∃ a, get pos t = some a ∧ p a = true := by
  cases t with
  | node a ts =>
    rw [path] at h
    cases hts : pathList p ts with
    | some pos' =>
      rw [hts] at h
      obtain rfl := Option.some.inj h
      exact getList_of_pathList hts
    | none =>
      rw [hts] at h
      change (if p a then some [] else none) = some pos at h
      by_cases ha : p a = true
      · rw [if_pos ha] at h
        obtain rfl := Option.some.inj h
        exact ⟨a, rfl, ha⟩
      · rw [if_neg ha] at h
        cases h

theorem getList_of_pathList {ts : List (RoseTree α)} {pos : ℕ × List ℕ} (h : pathList p ts = some pos) :
    ∃ a, getList pos ts = some a ∧ p a = true := by
  cases ts with
  | nil => cases h
  | cons t ts =>
    rw [pathList] at h
    cases ht : path p t with
    | some pos' =>
      rw [ht] at h
      obtain rfl := Option.some.inj h
      exact get_of_path ht
    | none =>
      rw [ht] at h
      obtain ⟨pos', hpos', rfl⟩ := Option.map_eq_some_iff.1 h
      obtain ⟨a, ha, hpa⟩ := getList_of_pathList hpos'
      exact ⟨a, ha, hpa⟩

end

mutual

/-- The node that is found is the one at the position that is found. -/
theorem find_eq_bind (t : RoseTree α) : find p t = (path p t).bind fun pos => get pos t := by
  cases t with
  | node a ts =>
    rw [find, path, findList_eq_bind ts]
    cases hts : pathList p ts with
    | some pos =>
      obtain ⟨b, hb, -⟩ := getList_of_pathList hts
      change (getList pos ts).or _ = getList pos ts
      rw [hb, Option.some_or]
    | none =>
      change (none : Option α).or _ = Option.bind (if p a then some [] else none) _
      rw [Option.none_or]
      by_cases ha : p a = true
      · rw [if_pos ha, if_pos ha]
        rfl
      · rw [if_neg ha, if_neg ha]
        rfl

theorem findList_eq_bind (ts : List (RoseTree α)) :
    findList p ts = (pathList p ts).bind fun pos => getList pos ts := by
  cases ts with
  | nil => rfl
  | cons t ts =>
    rw [findList, pathList, find_eq_bind t, findList_eq_bind ts]
    cases ht : path p t with
    | some pos =>
      obtain ⟨b, hb, -⟩ := get_of_path ht
      change (get pos t).or _ = get pos t
      rw [hb, Option.some_or]
    | none =>
      change (none : Option α).or _ = Option.bind (Option.map _ (pathList p ts)) _
      rw [Option.none_or]
      cases pathList p ts with
      | none => rfl
      | some pos => rfl

end

mutual

/-- Changing the node that is found is changing the one at the position that is found. -/
theorem modify_eq_map (f : α → α) (t : RoseTree α) :
    modify p f t = (path p t).map fun pos => modifyAt f pos t := by
  cases t with
  | node a ts =>
    rw [modify, path, modifyList_eq_map f ts]
    cases pathList p ts with
    | some pos => rfl
    | none =>
      change (if p a then some (node (f a) ts) else none) = Option.map _ (if p a then some [] else none)
      by_cases ha : p a = true
      · rw [if_pos ha, if_pos ha]
        rfl
      · rw [if_neg ha, if_neg ha]
        rfl

theorem modifyList_eq_map (f : α → α) (ts : List (RoseTree α)) :
    modifyList p f ts = (pathList p ts).map fun pos => modifyAtList f pos ts := by
  cases ts with
  | nil => rfl
  | cons t ts =>
    rw [modifyList, pathList, modify_eq_map f t, modifyList_eq_map f ts]
    cases path p t with
    | some pos => rfl
    | none =>
      cases pathList p ts with
      | none => rfl
      | some pos => rfl

end

/-! ## Changing -/

mutual

/-- A change that keeps the predicate does not move the position that is found. -/
theorem path_modifyAt {f : α → α} (hf : ∀ a, p (f a) = p a) (pos : List ℕ) (t : RoseTree α) :
    path p (modifyAt f pos t) = path p t := by
  cases t with
  | node a ts =>
    cases pos with
    | nil => rw [modifyAt, path, path, hf]
    | cons i pos => rw [modifyAt, path, path, pathList_modifyAtList hf (i, pos) ts]

theorem pathList_modifyAtList {f : α → α} (hf : ∀ a, p (f a) = p a) (pos : ℕ × List ℕ)
    (ts : List (RoseTree α)) : pathList p (modifyAtList f pos ts) = pathList p ts := by
  cases ts with
  | nil => rw [modifyAtList]
  | cons t ts =>
    obtain ⟨i, pos⟩ := pos
    cases i with
    | zero => rw [modifyAtList, pathList, pathList, path_modifyAt hf pos t]
    | succ i => rw [modifyAtList, pathList, pathList, pathList_modifyAtList hf (i, pos) ts]

end

mutual

/-- What is at a position after a change at another position, or at the same one. -/
theorem get_modifyAt (f : α → α) (pos pos' : List ℕ) (t : RoseTree α) :
    get pos' (modifyAt f pos t) = if pos' = pos then (get pos t).map f else get pos' t := by
  cases t with
  | node a ts =>
    cases pos with
    | nil =>
      cases pos' with
      | nil => rfl
      | cons i pos' => rw [if_neg (List.cons_ne_nil _ _)]; rfl
    | cons i pos =>
      cases pos' with
      | nil => rfl
      | cons j pos' =>
        have hlist := getList_modifyAtList f (i, pos) (j, pos') ts
        simp only [modifyAt, get, List.cons.injEq]
        simpa only [Prod.mk.injEq] using hlist

theorem getList_modifyAtList (f : α → α) (pos pos' : ℕ × List ℕ) (ts : List (RoseTree α)) :
    getList pos' (modifyAtList f pos ts) = if pos' = pos then (getList pos ts).map f else getList pos' ts := by
  obtain ⟨i, pos⟩ := pos
  obtain ⟨j, pos'⟩ := pos'
  cases ts with
  | nil => simp [modifyAtList, getList]
  | cons t ts =>
    cases i with
    | zero =>
      cases j with
      | zero =>
        have htree := get_modifyAt f pos pos' t
        simpa only [modifyAtList, getList, Prod.mk.injEq, true_and] using htree
      | succ j => simp [modifyAtList, getList]
    | succ i =>
      cases j with
      | zero => simp [modifyAtList, getList]
      | succ j =>
        have hlist := getList_modifyAtList f (i, pos) (j, pos') ts
        simpa only [modifyAtList, getList, Prod.mk.injEq, Nat.succ_inj] using hlist

end

end RoseTree

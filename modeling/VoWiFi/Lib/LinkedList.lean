import Mathlib.Data.List.Nodup
import Mathlib.Data.List.Perm.Subperm
import Mathlib.Data.List.Range
import Mathlib.Tactic.Common

/-!
# Singly linked lists in a memory

A memory is a list of cells, the position of a cell being its address. A cell holds a value and the
address of the next cell. `Chain` relates a pointer to the addresses and values that are met when one
follows the links from it to the end; it determines them, and so no address is met twice.

The loops of such programs run along the links with a bound on the number of cells, and give no result if
they reach the bound, leave the memory or meet a value that cannot be read.
-/

namespace LinkedList

variable {α β : Type}

/-- A value and the address of the next cell. -/
structure Cell (α : Type) where
  data : α
  next : Option ℕ
  deriving DecidableEq, Repr

/-- Following the links from a pointer one meets these addresses with their values, and then the end. -/
inductive Chain (mem : List (Cell α)) : Option ℕ → List (ℕ × α) → Prop where
  | nil : Chain mem none []
  | cons {a : ℕ} {x : α} {next : Option ℕ} {l : List (ℕ × α)} (read : mem[a]? = some ⟨x, next⟩)
      (rest : Chain mem next l) : Chain mem (some a) ((a, x) :: l)

variable {mem mem' : List (Cell α)} {p : Option ℕ} {a b : ℕ} {x y : α} {l l₁ l₂ : List (ℕ × α)}

theorem Chain.unique (h : Chain mem p l) (h' : Chain mem p l₁) : l = l₁ := by
  induction h generalizing l₁ with
  | nil =>
    cases h'
    rfl
  | cons read rest ih =>
    obtain _ | ⟨read', rest'⟩ := h'
    obtain ⟨rfl, rfl⟩ := Cell.mk.inj (Option.some.inj (read.symm.trans read'))
    rw [ih rest']

/-- The part of a chain behind one of its cells. -/
theorem Chain.suffix (h : Chain mem p (l₁ ++ (a, x) :: l₂)) :
    ∃ next, mem[a]? = some ⟨x, next⟩ ∧ Chain mem next l₂ := by
  induction l₁ generalizing p with
  | nil =>
    obtain _ | ⟨read, rest⟩ := h
    exact ⟨_, read, rest⟩
  | cons y l₁ ih =>
    obtain _ | ⟨-, rest⟩ := h
    exact ih rest

/-- No address is met twice: from there on the chain would be its own part. -/
theorem Chain.nodup (h : Chain mem p l) : (l.map Prod.fst).Nodup := by
  induction h with
  | nil => exact List.nodup_nil
  | @cons a x next l read rest ih =>
    refine List.nodup_cons.2 ⟨fun hmem => ?_, ih⟩
    obtain ⟨⟨_, y⟩, hy, rfl⟩ := List.mem_map.1 hmem
    obtain ⟨l₁, l₂, rfl⟩ := List.append_of_mem hy
    obtain ⟨next', read', rest'⟩ := rest.suffix
    obtain ⟨-, rfl⟩ := Cell.mk.inj (Option.some.inj (read.symm.trans read'))
    have hlen := congrArg List.length (rest.unique rest')
    rw [List.length_append, List.length_cons] at hlen
    omega

theorem Chain.lt_length (h : Chain mem p l) : ∀ y ∈ l, y.1 < mem.length := by
  induction h with
  | nil => exact List.forall_mem_nil _
  | cons read rest ih => exact List.forall_mem_cons.2 ⟨(List.getElem?_eq_some_iff.1 read).1, ih⟩

/-- A chain has at most as many cells as the memory. -/
theorem Chain.length_le (h : Chain mem p l) : l.length ≤ mem.length := by
  have hsub : l.map Prod.fst ⊆ List.range mem.length := by
    intro a ha
    obtain ⟨y, hy, rfl⟩ := List.mem_map.1 ha
    exact List.mem_range.2 (h.lt_length y hy)
  have hle := (List.subperm_of_subset h.nodup hsub).length_le
  rwa [List.length_map, List.length_range] at hle

theorem Chain.eq_none_iff (h : Chain mem p l) : p = none ↔ l = [] := by
  cases h with
  | nil => exact iff_of_true rfl rfl
  | cons read rest => exact iff_of_false nofun (List.cons_ne_nil _ _)

/-- The frame rule: a chain does not depend on other cells. -/
theorem Chain.congr (h : Chain mem p l) (hmem : ∀ y ∈ l, mem'[y.1]? = mem[y.1]?) : Chain mem' p l := by
  induction h with
  | nil => exact .nil
  | cons read rest ih =>
    rw [List.forall_mem_cons] at hmem
    exact .cons (hmem.1.trans read) (ih hmem.2)

/-! ## Changing links -/

/-- Set the link of a cell. -/
def setNext (mem : List (Cell α)) (a : ℕ) (next : Option ℕ) : List (Cell α) :=
  mem.modify a fun c => { c with next := next }

theorem getElem?_setNext_of_ne (h : a ≠ b) {next : Option ℕ} : (setNext mem a next)[b]? = mem[b]? :=
  List.getElem?_modify_ne _ _ h

theorem getElem?_setNext {next next' : Option ℕ} (h : mem[a]? = some ⟨x, next⟩) :
    (setNext mem a next')[a]? = some ⟨x, next'⟩ := by
  rw [setNext, List.getElem?_modify_eq, h]
  rfl

/-- The link of a cell inside a chain is redirected to another chain. -/
theorem Chain.redirect (h : Chain mem p (l₁ ++ (a, x) :: l₂)) {next : Option ℕ}
    (hnext : Chain (setNext mem a next) next l) :
    Chain (setNext mem a next) p (l₁ ++ (a, x) :: l) := by
  have hnodup := h.nodup
  induction l₁ generalizing p with
  | nil =>
    obtain _ | ⟨read, -⟩ := h
    exact .cons (getElem?_setNext read) hnext
  | cons y l₁ ih =>
    obtain ⟨b, y⟩ := y
    obtain _ | ⟨read, rest⟩ := h
    obtain ⟨hb, hnodup⟩ := List.nodup_cons.1 hnodup
    have hne : a ≠ b := by
      rintro rfl
      exact hb (by simp)
    exact .cons ((getElem?_setNext_of_ne hne).trans read) (ih rest hnodup)

/-! ## Walking along the links -/

/-- Walk along the links from `curr` to the cell number `idx` among those whose value `test` accepts. The
result is the cell before it, which for the first one is `prev`, and the cell itself. -/
def seek (test : α → Option Bool) (mem : List (Cell α)) :
    ℕ → Option ℕ → Option ℕ → ℕ → Option (Option (Option ℕ × ℕ))
  | _, _, none, _ => some none
  | 0, _, some _, _ => none
  | fuel + 1, prev, some curr, idx =>
    match mem[curr]? with
    | none => none
    | some c =>
      match test c.data, idx with
      | none, _ => none
      | some false, idx => seek test mem fuel (some curr) c.next idx
      | some true, 0 => some (some (prev, curr))
      | some true, idx + 1 => seek test mem fuel (some curr) c.next idx

/-- Count the cells from `curr` on whose value `test` accepts. -/
def count (test : α → Option Bool) (mem : List (Cell α)) : ℕ → Option ℕ → ℕ → Option ℕ
  | _, none, n => some n
  | 0, some _, _ => none
  | fuel + 1, some curr, n =>
    match mem[curr]? with
    | none => none
    | some c =>
      match test c.data with
      | none => none
      | some b => count test mem fuel c.next (if b then n + 1 else n)

/-- The result of a walk, for the cells it meets. -/
def locate (q : α → Bool) : Option ℕ → List (ℕ × α) → ℕ → Option (Option ℕ × ℕ)
  | _, [], _ => none
  | prev, y :: l, idx =>
    match q y.2, idx with
    | false, idx => locate q (some y.1) l idx
    | true, 0 => some (prev, y.1)
    | true, idx + 1 => locate q (some y.1) l idx

variable {test : α → Option Bool} {q : α → Bool} {prev : Option ℕ} {idx fuel : ℕ}

theorem seek_eq (h : Chain mem p l) (hfuel : l.length ≤ fuel)
    (htest : ∀ y ∈ l, test y.2 = some (q y.2)) :
    seek test mem fuel prev p idx = some (locate q prev l idx) := by
  induction h generalizing fuel prev idx with
  | nil => cases fuel <;> rfl
  | @cons a x next l read rest ih =>
    obtain ⟨fuel, rfl⟩ := Nat.exists_eq_add_one.2 (Nat.lt_of_lt_of_le l.length.succ_pos hfuel)
    obtain ⟨hx, hl⟩ := List.forall_mem_cons.1 htest
    have hle : l.length ≤ fuel := Nat.le_of_succ_le_succ hfuel
    simp only [seek, locate, read, hx]
    cases q x with
    | false => exact ih hle hl
    | true =>
      cases idx with
      | zero => rfl
      | succ idx => exact ih hle hl

theorem count_eq (h : Chain mem p l) (hfuel : l.length ≤ fuel)
    (htest : ∀ y ∈ l, test y.2 = some (q y.2)) (n : ℕ) :
    count test mem fuel p n = some (n + l.countP fun y => q y.2) := by
  induction h generalizing fuel n with
  | nil => cases fuel <;> rfl
  | @cons a x next l read rest ih =>
    obtain ⟨fuel, rfl⟩ := Nat.exists_eq_add_one.2 (Nat.lt_of_lt_of_le l.length.succ_pos hfuel)
    obtain ⟨hx, hl⟩ := List.forall_mem_cons.1 htest
    simp only [count, read, hx]
    rw [ih (Nat.le_of_succ_le_succ hfuel) hl, List.countP_cons, Option.some.injEq]
    cases q x
    · rfl
    · simp only [if_true]
      omega

/-! ## Lists by the number of a match -/

/-- Insert an element right behind the match number `idx`, or at the end if there is none. -/
def insertAfterNth (q : β → Bool) (y : β) : ℕ → List β → List β
  | _, [] => [y]
  | idx, x :: l =>
    match q x, idx with
    | false, idx => x :: insertAfterNth q y idx l
    | true, 0 => x :: y :: l
    | true, idx + 1 => x :: insertAfterNth q y idx l

/-- Remove the match number `idx`, if there is one. -/
def eraseNth (q : β → Bool) : ℕ → List β → List β
  | _, [] => []
  | idx, x :: l =>
    match q x, idx with
    | false, idx => x :: eraseNth q idx l
    | true, 0 => l
    | true, idx + 1 => x :: eraseNth q idx l

theorem map_insertAfterNth {γ : Type} (f : γ → β) (q : β → Bool) (y : γ) (idx : ℕ) (l : List γ) :
    (insertAfterNth (fun z => q (f z)) y idx l).map f = insertAfterNth q (f y) idx (l.map f) := by
  induction l generalizing idx with
  | nil => rfl
  | cons z l ih =>
    cases hz : q (f z) with
    | false => simp [insertAfterNth, hz, ih]
    | true => cases idx <;> simp [insertAfterNth, hz, ih]

theorem map_eraseNth {γ : Type} (f : γ → β) (q : β → Bool) (idx : ℕ) (l : List γ) :
    (eraseNth (fun z => q (f z)) idx l).map f = eraseNth q idx (l.map f) := by
  induction l generalizing idx with
  | nil => rfl
  | cons z l ih =>
    cases hz : q (f z) with
    | false => simp [eraseNth, hz, ih]
    | true => cases idx <;> simp [eraseNth, hz, ih]

/-- A walk that finds nothing: there are too few matches. -/
theorem locate_eq_none (h : locate q prev l idx = none) (y : ℕ × α) :
    (l.filter fun y => q y.2)[idx]? = none ∧ insertAfterNth (fun y => q y.2) y idx l = l ++ [y] ∧
      eraseNth (fun y => q y.2) idx l = l := by
  induction l generalizing prev idx with
  | nil => exact ⟨rfl, rfl, rfl⟩
  | cons z l ih =>
    cases hz : q z.2 with
    | false =>
      simp only [locate, hz] at h
      obtain ⟨hfilter, hinsert, herase⟩ := ih h
      simp [insertAfterNth, eraseNth, hz, hfilter, hinsert, herase]
    | true =>
      cases idx with
      | zero => simp [locate, hz] at h
      | succ idx =>
        simp only [locate, hz] at h
        obtain ⟨hfilter, hinsert, herase⟩ := ih h
        simp [insertAfterNth, eraseNth, hz, hfilter, hinsert, herase]

/-- The match number `idx` of a list is at address `a`, with what lies before and behind it. -/
structure Located (q : α → Bool) (l : List (ℕ × α)) (idx a : ℕ) (l₁ : List (ℕ × α)) (x : α)
    (l₂ : List (ℕ × α)) : Prop where
  split : l = l₁ ++ (a, x) :: l₂
  nth : (l.filter fun y => q y.2)[idx]? = some (a, x)
  insert : ∀ y, insertAfterNth (fun y => q y.2) y idx l = l₁ ++ (a, x) :: y :: l₂
  erase : eraseNth (fun y => q y.2) idx l = l₁ ++ l₂

theorem Located.cons_of_false (h : Located q l idx a l₁ x l₂) {z : ℕ × α} (hz : q z.2 = false) :
    Located q (z :: l) idx a (z :: l₁) x l₂ where
  split := congrArg (z :: ·) h.split
  nth := by simp [hz, h.nth]
  insert y := by simp [insertAfterNth, hz, h.insert]
  erase := by simp [eraseNth, hz, h.erase]

theorem Located.cons_of_true (h : Located q l idx a l₁ x l₂) {z : ℕ × α} (hz : q z.2 = true) :
    Located q (z :: l) (idx + 1) a (z :: l₁) x l₂ where
  split := congrArg (z :: ·) h.split
  nth := by simp [hz, h.nth]
  insert y := by simp [insertAfterNth, hz, h.insert]
  erase := by simp [eraseNth, hz, h.erase]

/-- The address of the last of some cells, of which the first one comes after `prev`. -/
def lastAddress (prev : Option ℕ) (l : List (ℕ × α)) : Option ℕ := (l.getLast?.map Prod.fst).or prev

theorem lastAddress_cons (z : ℕ × α) (l : List (ℕ × α)) :
    lastAddress prev (z :: l) = lastAddress (some z.1) l := by
  cases l with
  | nil => rfl
  | cons w l =>
    rw [lastAddress, lastAddress, List.getLast?_cons_cons,
      List.getLast?_eq_some_getLast (List.cons_ne_nil _ _)]
    rfl

theorem lastAddress_append (p : Option ℕ) (l₁ l₂ : List (ℕ × α)) :
    lastAddress p (l₁ ++ l₂) = lastAddress (lastAddress p l₁) l₂ := by
  induction l₁ generalizing p with
  | nil => rfl
  | cons z l₁ ih => rw [List.cons_append, lastAddress_cons, lastAddress_cons, ih]

theorem lastAddress_append_cons (p : Option ℕ) (l₁ : List (ℕ × α)) (z : ℕ × α) (l₂ : List (ℕ × α)) :
    lastAddress p (l₁ ++ z :: l₂) = lastAddress (some z.1) l₂ := by
  rw [lastAddress_append, lastAddress_cons]

theorem lastAddress_of_ne_nil (h : l ≠ []) (p p' : Option ℕ) : lastAddress p l = lastAddress p' l := by
  rw [lastAddress, lastAddress, List.getLast?_eq_some_getLast h]
  rfl

/-- The last cell is the one at address `a` exactly if nothing comes behind it. -/
theorem lastAddress_eq_iff (ha : a ∉ l.map Prod.fst) : lastAddress (some a) l = some a ↔ l = [] := by
  cases l with
  | nil => exact iff_of_true rfl rfl
  | cons z l =>
    refine iff_of_false (fun hlast => ha ?_) (List.cons_ne_nil _ _)
    rw [lastAddress, List.getLast?_eq_some_getLast (List.cons_ne_nil _ _), Option.map_some,
      Option.some_or, Option.some.injEq] at hlast
    rw [← hlast]
    exact List.mem_map_of_mem (List.getLast_mem _)

/-- A walk that finds a cell. -/
theorem locate_eq_some {before : Option ℕ} (h : locate q prev l idx = some (before, a)) :
    ∃ l₁ x l₂, Located q l idx a l₁ x l₂ ∧ before = lastAddress prev l₁ := by
  induction l generalizing prev idx with
  | nil => cases h
  | cons z l ih =>
    cases hz : q z.2 with
    | false =>
      simp only [locate, hz] at h
      obtain ⟨l₁, x, l₂, hloc, hbefore⟩ := ih h
      exact ⟨z :: l₁, x, l₂, hloc.cons_of_false hz, hbefore.trans (lastAddress_cons z l₁).symm⟩
    | true =>
      cases idx with
      | zero =>
        simp only [locate, hz, Option.some.injEq, Prod.mk.injEq] at h
        obtain ⟨rfl, rfl⟩ := h
        refine ⟨[], z.2, l, ⟨rfl, ?_, fun y => ?_, ?_⟩, rfl⟩
        · simp [hz]
        · simp [insertAfterNth, hz]
        · simp [eraseNth, hz]
      | succ idx =>
        simp only [locate, hz] at h
        obtain ⟨l₁, x, l₂, hloc, hbefore⟩ := ih h
        exact ⟨z :: l₁, x, l₂, hloc.cons_of_true hz, hbefore.trans (lastAddress_cons z l₁).symm⟩

end LinkedList

import Mathlib.Algebra.Ring.Int.Defs
import Mathlib.Data.List.DropRight
import VoWiFi.Lib.CString

/-!
# Texts as Python programs read them

The methods `strip` and `split` of a string, and the numbers that `int` accepts, apart from digits that
are not ASCII.
-/

/-- The exceptions of Python that the modelled code raises. -/
inductive PyError where
  | indexError
  | keyError
  | typeError
  | valueError
  | unboundLocalError
  deriving DecidableEq, Repr

namespace Text

/-- The characters for which `isspace` holds. -/
def isPySpace (c : Char) : Bool :=
  c.toNat ∈ [9, 10, 11, 12, 13, 28, 29, 30, 31, 32, 133, 160, 5760, 8232, 8233, 8239, 8287, 12288] ||
    8192 ≤ c.toNat && c.toNat ≤ 8202

def pyStrip (s : Text) : Text := (s.dropWhile isPySpace).rdropWhile isPySpace

/-- The parts between the separators, given how many characters of a separator are still to be skipped and
what has been read of the current part. -/
def pySplitFrom (sep : Text) : (skip : ℕ) → (part : Text) → Text → List Text
  | _, part, [] => [part]
  | skip + 1, part, _ :: s => pySplitFrom sep skip part s
  | 0, part, c :: s =>
    if sep.isPrefixOf (c :: s) then part :: pySplitFrom sep (sep.length - 1) [] s
    else pySplitFrom sep 0 (part ++ [c]) s

/-- `split` with a separator that is not empty. -/
def pySplit (sep s : Text) : List Text := pySplitFrom sep 0 [] s

/-- The value of digits behind others, with single underscores between them. -/
def pyDigits (n : ℕ) : Text → Option ℕ
  | [] => some n
  | '_' :: c :: s => if c.isDigit then pyDigits (n * 10 + (c.toNat - 48)) s else none
  | c :: s => if c.isDigit then pyDigits (n * 10 + (c.toNat - 48)) s else none

/-- The value of an unsigned numeral. -/
def pyNat : Text → Option ℕ
  | c :: s => if c.isDigit then pyDigits (c.toNat - 48) s else none
  | [] => none

/-- `int`; `none` is a `ValueError`. -/
def pyInt (s : Text) : Option ℤ :=
  match pyStrip s with
  | '-' :: s => (pyNat s).map fun n : ℕ => -(n : ℤ)
  | '+' :: s => (pyNat s).map fun n : ℕ => (n : ℤ)
  | s => (pyNat s).map fun n : ℕ => (n : ℤ)

/-! ## Stripping -/

/-- Spaces at the ends make no difference. -/
theorem pyStrip_append {l s r : Text} (hl : ∀ c ∈ l, isPySpace c = true) (hr : ∀ c ∈ r, isPySpace c = true) :
    pyStrip (l ++ s ++ r) = pyStrip s := by
  have hright : ∀ t : Text, (t ++ r).rdropWhile isPySpace = t.rdropWhile isPySpace := by
    intro t
    rw [List.rdropWhile, List.rdropWhile, List.reverse_append,
      List.dropWhile_append_of_pos fun c hc => hr c (List.mem_reverse.1 hc)]
  rw [pyStrip, pyStrip, List.append_assoc, List.dropWhile_append_of_pos hl, List.dropWhile_append]
  split
  · rename_i hempty
    rw [List.isEmpty_iff.1 hempty, List.dropWhile_eq_nil_iff.2 hr]
  · exact hright _

theorem pyStrip_eq_self {s : Text} (hhead : ∀ c ∈ s.head?, isPySpace c = false)
    (hlast : ∀ c ∈ s.getLast?, isPySpace c = false) : pyStrip s = s := by
  have hdrop : s.dropWhile isPySpace = s := by
    cases s with
    | nil => rfl
    | cons c s => exact List.dropWhile_cons_of_neg (by simp [hhead c rfl])
  rw [pyStrip, hdrop, List.rdropWhile_eq_self_iff]
  intro hne
  simp [hlast _ (List.getLast?_eq_some_getLast hne)]

/-- A text that starts and ends with a character that is not a space, with spaces around it. -/
theorem pyStrip_spaced {l s r : Text} (hl : ∀ c ∈ l, isPySpace c = true) (hr : ∀ c ∈ r, isPySpace c = true)
    (hhead : ∀ c ∈ s.head?, isPySpace c = false) (hlast : ∀ c ∈ s.getLast?, isPySpace c = false) :
    pyStrip (l ++ s ++ r) = s := by
  rw [pyStrip_append hl hr, pyStrip_eq_self hhead hlast]

/-! ## Splitting at a character -/

theorem pySplitFrom_cons (sep c : Char) (part s : Text) : pySplitFrom [sep] 0 part (c :: s) =
    if c = sep then part :: pySplitFrom [sep] 0 [] s else pySplitFrom [sep] 0 (part ++ [c]) s := by
  rw [pySplitFrom]
  by_cases h : c = sep
  · subst h
    rw [if_pos (by simp), if_pos rfl]
    rfl
  · have hne : sep ≠ c := Ne.symm h
    rw [if_neg (by simp [hne]), if_neg h]

theorem pySplitFrom_append {sep : Char} {s : Text} (h : sep ∉ s) (part t : Text) :
    pySplitFrom [sep] 0 part (s ++ t) = pySplitFrom [sep] 0 (part ++ s) t := by
  induction s generalizing part with
  | nil => rw [List.nil_append, List.append_nil]
  | cons c s ih =>
    rw [List.mem_cons, not_or] at h
    rw [List.cons_append, pySplitFrom_cons, if_neg (Ne.symm h.1), ih h.2, List.append_assoc]
    rfl

theorem pySplit_of_not_mem {sep : Char} {s : Text} (h : sep ∉ s) : pySplit [sep] s = [s] := by
  have heq := pySplitFrom_append h [] []
  rwa [List.append_nil] at heq

theorem pySplit_append_cons {sep : Char} {s : Text} (h : sep ∉ s) (t : Text) :
    pySplit [sep] (s ++ sep :: t) = s :: pySplit [sep] t := by
  rw [pySplit, pySplitFrom_append h, pySplitFrom_cons, if_pos rfl]
  rfl

theorem pySplit_intercalate {sep : Char} {parts : List Text} (hne : parts ≠ [])
    (h : ∀ part ∈ parts, sep ∉ part) : pySplit [sep] (List.intercalate [sep] parts) = parts := by
  induction parts with
  | nil => exact absurd rfl hne
  | cons part parts ih =>
    rw [List.forall_mem_cons] at h
    cases parts with
    | nil => rw [List.intercalate_singleton, pySplit_of_not_mem h.1]
    | cons next parts =>
      rw [List.intercalate_cons_cons, List.append_assoc, List.singleton_append, pySplit_append_cons h.1,
        ih (List.cons_ne_nil _ _) h.2]

/-! ## Numerals -/

theorem pyDigits_of_isDigit {s : Text} (h : ∀ c ∈ s, c.isDigit = true) (n : ℕ) :
    pyDigits n s = some (Nat.ofDigitChars 10 s n) := by
  induction s generalizing n with
  | nil => rfl
  | cons c s ih =>
    rw [List.forall_mem_cons] at h
    have hstep : pyDigits n (c :: s) = pyDigits (n * 10 + (c.toNat - 48)) s := by
      conv_lhs => unfold pyDigits
      split
      · rename_i heq
        cases heq
      · rename_i heq
        cases heq
        exact absurd h.1 (by decide)
      · rename_i heq
        cases heq
        rw [if_pos h.1]
    rw [hstep, ih h.2, Nat.ofDigitChars_cons, Nat.mul_comm]
    rfl

theorem pyNat_toDigits (n : ℕ) : pyNat (Nat.toDigits 10 n) = some n := by
  have hdigits : ∀ c ∈ Nat.toDigits 10 n, c.isDigit = true := fun c hc =>
    Nat.isDigit_of_mem_toDigits (by omega) (by omega) hc
  cases hn : Nat.toDigits 10 n with
  | nil => exact absurd hn (Nat.toDigits_ne_nil)
  | cons c s =>
    rw [hn, List.forall_mem_cons] at hdigits
    rw [pyNat, if_pos hdigits.1, pyDigits_of_isDigit hdigits.2]
    have hvalue := Nat.ofDigitChars_ten_toDigits (n := n)
    rw [hn, Nat.ofDigitChars_cons] at hvalue
    simpa using hvalue

theorem isPySpace_of_isDigit {c : Char} (h : c.isDigit = true) : isPySpace c = false := by
  have hrange : 48 ≤ c.toNat ∧ c.toNat ≤ 57 := Char.isDigit_iff_toNat.1 h
  rw [isPySpace, Bool.or_eq_false_iff]
  constructor
  · simp only [List.mem_cons, List.not_mem_nil, or_false, decide_eq_false_iff_not]
    omega
  · simp only [Bool.and_eq_false_iff, decide_eq_false_iff_not]
    omega

/-- The first and the last character of a numeral are not spaces. -/
theorem isPySpace_numeral (n : ℤ) : (∀ c ∈ (toString n).toList.head?, isPySpace c = false) ∧
    ∀ c ∈ (toString n).toList.getLast?, isPySpace c = false := by
  have hchars : ∀ c ∈ (toString n).toList, isPySpace c = false := by
    have hdigits : ∀ (k : ℕ) (c : Char), c ∈ Nat.toDigits 10 k → isPySpace c = false := fun k c hc =>
      isPySpace_of_isDigit (Nat.isDigit_of_mem_toDigits (by omega) (by omega) hc)
    cases n with
    | ofNat m =>
      intro c hc
      exact hdigits m c (by simpa [toString, Int.repr] using hc)
    | negSucc m =>
      intro c hc
      have hc : c = '-' ∨ c ∈ Nat.toDigits 10 (m + 1) := by simpa [toString, Int.repr] using hc
      rcases hc with rfl | hc
      · rfl
      · exact hdigits _ c hc
  exact ⟨fun c hc => hchars c (List.mem_of_mem_head? hc), fun c hc => hchars c (List.mem_of_getLast? hc)⟩

/-- A numeral with spaces around it. -/
theorem pyInt_numeral {l r : Text} (hl : ∀ c ∈ l, isPySpace c = true) (hr : ∀ c ∈ r, isPySpace c = true)
    (n : ℤ) : pyInt (l ++ (toString n).toList ++ r) = some n := by
  obtain ⟨hhead, hlast⟩ := isPySpace_numeral n
  rw [pyInt, pyStrip_spaced hl hr hhead hlast]
  cases n with
  | ofNat m =>
    have htext : (toString (Int.ofNat m)).toList = Nat.toDigits 10 m := by simp [toString, Int.repr]
    have hnat := pyNat_toDigits m
    rw [htext]
    split
    · rename_i heq
      rw [heq] at hnat
      cases hnat
    · rename_i heq
      rw [heq] at hnat
      cases hnat
    · rw [hnat]
      rfl
  | negSucc m =>
    have htext : (toString (Int.negSucc m)).toList = '-' :: Nat.toDigits 10 (m + 1) := by
      simp [toString, Int.repr]
    rw [htext]
    show (pyNat (Nat.toDigits 10 (m + 1))).map _ = _
    rw [pyNat_toDigits]
    rfl

/-- A text that starts with neither a digit nor a sign is not a number. -/
theorem pyInt_eq_none {l s : Text} {c : Char} (hl : ∀ c ∈ l, isPySpace c = true) (hspace : isPySpace c = false)
    (hdigit : c.isDigit = false) (hminus : c ≠ '-') (hplus : c ≠ '+') : pyInt (l ++ c :: s) = none := by
  have hstrip : ∃ s', pyStrip (l ++ c :: s) = c :: s' := by
    rw [pyStrip, List.dropWhile_append_of_pos hl, List.dropWhile_cons_of_neg (by simp [hspace])]
    cases h : (c :: s).rdropWhile isPySpace with
    | nil => 
      rw [List.rdropWhile_eq_nil_iff] at h
      have := h c List.mem_cons_self
      rw [hspace] at this
      cases this
    | cons c' s' =>
      have hpre := List.rdropWhile_prefix isPySpace (l := c :: s)
      rw [h] at hpre
      obtain ⟨rfl, -⟩ := List.cons_prefix_cons.1 hpre
      exact ⟨s', rfl⟩
  obtain ⟨s', hs'⟩ := hstrip
  rw [pyInt, hs']
  split
  · rename_i heq
    cases heq
    exact absurd rfl hminus
  · rename_i heq
    cases heq
    exact absurd rfl hplus
  · rw [pyNat, if_neg (by simp [hdigit])]
    rfl

end Text

import Mathlib.Algebra.Ring.Int.Defs
import Mathlib.Data.List.DropRight
import VoWiFi.Lib.CString

/-!
# Texts as Java programs read them

The lines that `BufferedReader.readLine` returns, the parts that `String.split` returns, the texts that
`String.contains` finds, and the numbers that `Integer.parseInt` accepts, for texts of ASCII characters.
-/

namespace Text

/-- The first text has the second one in it. -/
def contains : Text → Text → Bool
  | [], t => t.isEmpty
  | c :: s, t => t.isPrefixOf (c :: s) || contains s t

theorem contains_of_infix {s t : Text} (h : t <:+: s) : contains s t = true := by
  obtain ⟨l, r, rfl⟩ := h
  induction l with
  | nil =>
    rw [List.nil_append]
    cases t with
    | nil => cases r <;> rfl
    | cons c t =>
      have hprefix : (c :: t).isPrefixOf (c :: (t ++ r)) = true :=
        List.isPrefixOf_iff_prefix.2 (List.prefix_append _ r)
      rw [List.cons_append, contains, hprefix, Bool.true_or]
  | cons c l ih => rw [List.cons_append, List.cons_append, contains, ih, Bool.or_true]

/-! ## Lines -/

/-- The lines that are complete in a stream, given whether a line feed is skipped next and what has been
read of the current line. A line ends at a line feed, at a carriage return, or at both in this
order. -/
def readLinesFrom : Bool → Text → Text → List Text
  | _, _, [] => []
  | skipLF, line, c :: s =>
    if c = '\n' then
      if skipLF then readLinesFrom false line s else line :: readLinesFrom false [] s
    else if c = '\r' then line :: readLinesFrom true [] s
    else readLinesFrom false (line ++ [c]) s

/-- The lines that are complete in a stream. -/
def readLines (s : Text) : List Text := readLinesFrom false [] s

/-- A text without a line end in it. -/
def OneLine (s : Text) : Prop := '\r' ∉ s ∧ '\n' ∉ s

instance (s : Text) : Decidable (OneLine s) := inferInstanceAs (Decidable (_ ∧ _))

theorem oneLine_cons {c : Char} {s : Text} :
    OneLine (c :: s) ↔ (c ≠ '\r' ∧ c ≠ '\n') ∧ OneLine s := by
  simp only [OneLine, List.mem_cons, not_or]
  constructor
  · rintro ⟨⟨hr, hrs⟩, hn, hns⟩
    exact ⟨⟨Ne.symm hr, Ne.symm hn⟩, hrs, hns⟩
  · rintro ⟨⟨hr, hn⟩, hrs, hns⟩
    exact ⟨⟨Ne.symm hr, hrs⟩, Ne.symm hn, hns⟩

theorem oneLine_append {s t : Text} : OneLine (s ++ t) ↔ OneLine s ∧ OneLine t := by
  simp only [OneLine, List.mem_append, not_or]
  exact and_and_and_comm

theorem readLinesFrom_append {l : Text} (hl : OneLine l) (skipLF : Bool) (line s : Text)
    (hne : l ≠ []) : readLinesFrom skipLF line (l ++ s) = readLinesFrom false (line ++ l) s := by
  induction l generalizing skipLF line with
  | nil => exact absurd rfl hne
  | cons c l ih =>
    obtain ⟨⟨hr, hn⟩, hl⟩ := oneLine_cons.1 hl
    rw [List.cons_append, readLinesFrom, if_neg hn, if_neg hr]
    by_cases hnil : l = []
    · rw [hnil, List.nil_append]
    · rw [ih hl false _ hnil, List.append_assoc, List.cons_append, List.nil_append]

/-- A line that ends with a line feed is read as it is. -/
theorem readLines_append {l : Text} (hl : OneLine l) (s : Text) :
    readLines (l ++ '\n' :: s) = l :: readLines s := by
  by_cases hnil : l = []
  · rw [hnil]
    rfl
  · rw [readLines, readLinesFrom_append hl _ _ _ hnil]
    rfl

/-- Lines, each followed by a line feed. -/
def unlines (ls : List Text) : Text := ls.flatMap (· ++ ['\n'])

theorem readLines_unlines {ls : List Text} (hls : ∀ l ∈ ls, OneLine l) (s : Text) :
    readLines (unlines ls ++ s) = ls ++ readLines s := by
  induction ls with
  | nil => rfl
  | cons l ls ih =>
    have hsplit : unlines (l :: ls) ++ s = l ++ '\n' :: (unlines ls ++ s) := by
      simp [unlines]
    rw [hsplit, readLines_append (hls l List.mem_cons_self),
      ih fun m hm => hls m (List.mem_cons_of_mem _ hm), List.cons_append]

theorem oneLine_of_mem_readLinesFrom {skipLF : Bool} {line s l : Text} (hline : OneLine line)
    (h : l ∈ readLinesFrom skipLF line s) : OneLine l := by
  have hnil : OneLine [] := ⟨List.not_mem_nil, List.not_mem_nil⟩
  induction s generalizing skipLF line with
  | nil => cases h
  | cons c s ih =>
    rw [readLinesFrom] at h
    by_cases hn : c = '\n'
    · rw [if_pos hn] at h
      cases skipLF with
      | true => exact ih hline h
      | false =>
        rcases List.mem_cons.1 h with rfl | h
        · exact hline
        · exact ih hnil h
    · rw [if_neg hn] at h
      by_cases hr : c = '\r'
      · rw [if_pos hr] at h
        rcases List.mem_cons.1 h with rfl | h
        · exact hline
        · exact ih hnil h
      · rw [if_neg hr] at h
        exact ih (oneLine_append.2 ⟨hline, oneLine_cons.2 ⟨⟨hr, hn⟩, hnil⟩⟩) h

theorem oneLine_of_mem_readLines {s l : Text} (h : l ∈ readLines s) : OneLine l :=
  oneLine_of_mem_readLinesFrom ⟨List.not_mem_nil, List.not_mem_nil⟩ h

/-! ## Parts -/

/-- `String.split` with limit zero: the parts between separators, without the empty ones at the end. -/
def split (sep : Char) (s : Text) : List Text := (s.splitOnP (· = sep)).rdropWhile (· = [])

theorem rdropWhile_cons {α : Type} {p : α → Bool} {a : α} {l : List α}
    (h : ¬ p a ∨ l.rdropWhile p ≠ []) : (a :: l).rdropWhile p = a :: l.rdropWhile p := by
  induction l using List.reverseRecOn with
  | nil =>
    have ha : ¬ p a := h.resolve_right (by simp)
    rw [List.rdropWhile_singleton, if_neg ha, List.rdropWhile_nil]
  | append_singleton l x ih =>
    rw [List.rdropWhile_concat] at h
    rw [← List.cons_append, List.rdropWhile_concat, List.rdropWhile_concat]
    by_cases hx : p x
    · rw [if_pos hx] at h
      rw [if_pos hx, if_pos hx, ih h]
    · rw [if_neg hx, if_neg hx, List.cons_append]

theorem split_nil (sep : Char) : split sep [] = [] := rfl

theorem split_cons {sep : Char} {s t : Text} (hs : sep ∉ s) (hne : s ≠ [] ∨ split sep t ≠ []) :
    split sep (s ++ sep :: t) = s :: split sep t := by
  have hsep : ∀ x ∈ s, decide (x = sep) = false := by
    intro x hx
    exact decide_eq_false fun h => hs (h ▸ hx)
  rw [split, List.splitOnP_append_cons_of_forall_mem hsep sep (decide_eq_true rfl)]
  exact rdropWhile_cons (hne.imp_left fun h => by simpa using h)

theorem split_single {sep : Char} {s : Text} (hs : sep ∉ s) (hne : s ≠ []) : split sep s = [s] := by
  have hsep : ∀ x ∈ s, decide (x = sep) = false := by
    intro x hx
    exact decide_eq_false fun h => hs (h ▸ hx)
  rw [split, List.splitOnP_eq_singleton hsep]
  simp [List.rdropWhile, hne]

theorem mem_split {sep : Char} {s l : Text} (hl : l ∈ split sep s) : ∀ c ∈ l, c ≠ sep ∧ c ∈ s := by
  intro c hc
  have hmem : l ∈ s.splitOnP (· = sep) := (List.rdropWhile_prefix _ _).subset hl
  obtain ⟨hsep, hcs⟩ := mem_splitOnP hmem c hc
  exact ⟨of_decide_eq_false hsep, hcs⟩

/-! ## Numbers -/

/-- The number a sequence of digits stands for. -/
def ofDigits (s : Text) : ℤ := s.foldl (fun n c => 10 * n + (c.toNat - 48)) 0

/-- `Integer.parseInt`; `none` is a `NumberFormatException`. -/
def parseInt (s : Text) : Option ℤ :=
  let (sign, digits) : ℤ × Text :=
    match s with
    | [] => (1, [])
    | c :: ds => if c = '-' then (-1, ds) else if c = '+' then (1, ds) else (1, c :: ds)
  let n := sign * ofDigits digits
  if digits ≠ [] ∧ digits.all Char.isDigit ∧ -2 ^ 31 ≤ n ∧ n < 2 ^ 31 then some n else none

end Text

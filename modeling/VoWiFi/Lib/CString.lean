import Mathlib.Data.List.TakeWhile

/-!
# Texts as C programs read them

A text is the list of its bytes, each byte written as the character with that code. A C function
that is handed a text reads it up to the first NUL byte; `strtok` cuts what it reads into the maximal
non-empty pieces that are free of the delimiters.
-/

/-- A text, one character for each byte. -/
abbrev Text := List Char

namespace Text

/-- What `strlen` and its relatives see of a text: the part before the first NUL byte. -/
def cstr (s : Text) : Text := s.takeWhile (· ≠ '\x00')

/-- The non-empty pieces between delimiters. -/
def pieces (delim : Char → Bool) (s : Text) : List Text := (s.splitOnP delim).filter (· ≠ [])

/-- The tokens that repeated calls of `strtok` return. -/
def strtok (delim : Char → Bool) (s : Text) : List Text := pieces delim (cstr s)

theorem ne_nul_of_mem {s : Text} (h : '\x00' ∉ s) : ∀ c ∈ s, decide (c ≠ '\x00') = true := by
  intro c hc
  simp only [ne_eq, decide_not, Bool.not_eq_eq_eq_not, Bool.not_true, decide_eq_false_iff_not]
  exact fun e => h (e ▸ hc)

theorem cstr_of_nul_free {s : Text} (h : '\x00' ∉ s) : cstr s = s :=
  List.takeWhile_eq_self_iff.2 (ne_nul_of_mem h)

theorem cstr_append_of_nul_free {s : Text} (h : '\x00' ∉ s) (t : Text) :
    cstr (s ++ t) = s ++ cstr t :=
  List.takeWhile_append_of_pos (ne_nul_of_mem h)

theorem length_cstr_le (s : Text) : (cstr s).length ≤ s.length :=
  (List.takeWhile_sublist _).length_le

/-- A text that is read in full has no NUL byte. -/
theorem nul_free_of_length_cstr {s : Text} (h : (cstr s).length = s.length) : '\x00' ∉ s := by
  have hs : cstr s = s := (List.takeWhile_sublist _).eq_of_length h
  intro hmem
  simpa using List.takeWhile_eq_self_iff.1 hs _ hmem

/-- A NUL byte hides what follows it. -/
theorem cstr_append_of_nul {s : Text} (h : '\x00' ∈ s) (t : Text) : cstr (s ++ t) = cstr s := by
  rw [cstr, List.takeWhile_append, if_neg, cstr]
  intro hlen
  exact nul_free_of_length_cstr hlen h

theorem mem_of_mem_cstr {s : Text} {c : Char} (h : c ∈ cstr s) : c ∈ s :=
  (List.takeWhile_sublist _).subset h

/-- A NUL byte shortens what is read. -/
theorem length_cstr_lt {s : Text} (h : '\x00' ∈ s) : (cstr s).length < s.length :=
  lt_of_le_of_ne (length_cstr_le s) fun hlen => nul_free_of_length_cstr hlen h

/-! ## Tokens -/

/-- Cutting at the first delimiter. -/
theorem strtok_cons {delim : Char → Bool} {s : Text} {c : Char} (t : Text) (hnul : '\x00' ∉ s)
    (hs : ∀ x ∈ s, delim x = false) (hc : delim c) (hc0 : c ≠ '\x00') (hne : s ≠ []) :
    strtok delim (s ++ c :: t) = s :: strtok delim t := by
  have hcstr : cstr (c :: t) = c :: cstr t := by simp [cstr, hc0]
  rw [strtok, pieces, cstr_append_of_nul_free hnul, hcstr,
    List.splitOnP_append_cons_of_forall_mem hs c hc,
    List.filter_cons_of_pos (by simpa using hne), strtok, pieces]

/-- A delimiter in front is skipped. -/
theorem strtok_delim {delim : Char → Bool} {c : Char} (t : Text) (hc : delim c) (hc0 : c ≠ '\x00') :
    strtok delim (c :: t) = strtok delim t := by
  have hcstr : cstr (c :: t) = c :: cstr t := by simp [cstr, hc0]
  rw [strtok, pieces, hcstr, List.splitOnP_cons_eq_if_modifyHead, if_pos hc]
  rfl

/-- A text without delimiters is its only token, unless it is empty. -/
theorem strtok_single {delim : Char → Bool} {s : Text} (hs : ∀ x ∈ cstr s, delim x = false) :
    strtok delim s = if cstr s = [] then [] else [cstr s] := by
  rw [strtok, pieces, List.splitOnP_eq_singleton hs]
  split <;> rename_i h <;> simp [h]

theorem mem_splitOnP {delim : Char → Bool} {s l : Text} (hl : l ∈ s.splitOnP delim) :
    ∀ c ∈ l, delim c = false ∧ c ∈ s := by
  induction s generalizing l with
  | nil =>
    rw [List.splitOnP_nil, List.mem_singleton] at hl
    subst hl
    exact List.forall_mem_nil _
  | cons a s ih =>
    rw [List.splitOnP_cons_eq_if_modifyHead] at hl
    cases ha : delim a with
    | true =>
      rw [if_pos ha] at hl
      rcases List.mem_cons.1 hl with rfl | hl
      · exact List.forall_mem_nil _
      · exact fun c hc => ⟨(ih hl c hc).1, List.mem_cons_of_mem _ (ih hl c hc).2⟩
    | false =>
      rw [if_neg (by simp [ha])] at hl
      obtain ⟨x, xs, hxs⟩ := List.exists_cons_of_ne_nil (List.splitOnP_ne_nil delim s)
      rw [hxs, List.modifyHead_cons] at hl
      intro c hc
      rcases List.mem_cons.1 hl with rfl | hl
      · rcases List.mem_cons.1 hc with rfl | hc
        · exact ⟨ha, List.mem_cons_self⟩
        · obtain ⟨hdelim, hmem⟩ := ih (hxs ▸ List.mem_cons_self) c hc
          exact ⟨hdelim, List.mem_cons_of_mem _ hmem⟩
      · obtain ⟨hdelim, hmem⟩ := ih (hxs ▸ List.mem_cons_of_mem _ hl) c hc
        exact ⟨hdelim, List.mem_cons_of_mem _ hmem⟩

/-- A token is made of bytes of the text that are neither delimiters nor NUL. -/
theorem mem_strtok {delim : Char → Bool} {s l : Text} (hl : l ∈ strtok delim s) :
    '\x00' ∉ l ∧ ∀ c ∈ l, delim c = false := by
  have hl' := mem_splitOnP (List.mem_filter.1 hl).1
  refine ⟨fun hmem => ?_, fun c hc => (hl' c hc).1⟩
  simpa using List.mem_takeWhile_imp (hl' _ hmem).2

theorem splitOnP_append {delim : Char → Bool} {s : Text} (t : Text)
    (hs : ∀ x ∈ s, delim x = false) :
    (s ++ t).splitOnP delim = (t.splitOnP delim).modifyHead (s ++ ·) := by
  obtain ⟨x, xs, hxs⟩ := List.exists_cons_of_ne_nil (List.splitOnP_ne_nil delim t)
  rw [hxs, List.modifyHead_cons]
  induction s with
  | nil => exact hxs
  | cons a s ih =>
    rw [List.cons_append, List.splitOnP_cons_eq_if_modifyHead,
      if_neg (by simp [hs a List.mem_cons_self]), ih fun x hx => hs x (List.mem_cons_of_mem _ hx)]
    rfl

/-- A text without delimiters is the beginning of the first token. -/
theorem strtok_append {delim : Char → Bool} {s : Text} (t : Text) (hnul : '\x00' ∉ s)
    (hs : ∀ x ∈ s, delim x = false) (hne : s ≠ []) :
    ∃ x ls, strtok delim (s ++ t) = (s ++ x) :: ls := by
  obtain ⟨x, xs, hxs⟩ := List.exists_cons_of_ne_nil (List.splitOnP_ne_nil delim (cstr t))
  rw [strtok, pieces, cstr_append_of_nul_free hnul, splitOnP_append _ hs, hxs, List.modifyHead_cons,
    List.filter_cons_of_pos (by simp [hne])]
  exact ⟨_, _, rfl⟩

/-! ## Lines -/

/-- Lines, each followed by the two bytes that end it. -/
def endLines (a b : Char) (ls : List Text) : Text := ls.flatMap (· ++ [a, b])

theorem mem_endLines {a b c : Char} {ls : List Text} :
    c ∈ endLines a b ls ↔ ∃ l ∈ ls, c ∈ l ∨ c = a ∨ c = b := by
  simp [endLines]

/-- What precedes the first occurrence of a character is determined. -/
theorem append_cons_inj {a : Char} {s s' t t' : Text} (hs : a ∉ s) (hs' : a ∉ s')
    (heq : s ++ a :: t = s' ++ a :: t') : s = s' ∧ t = t' := by
  induction s generalizing s' with
  | nil =>
    cases s' with
    | nil =>
      cases heq
      exact ⟨rfl, rfl⟩
    | cons c s' =>
      cases heq
      exact absurd List.mem_cons_self hs'
  | cons c s ih =>
    cases s' with
    | nil =>
      cases heq
      exact absurd List.mem_cons_self hs
    | cons c' s' =>
      obtain ⟨rfl, hrest⟩ := List.cons.inj heq
      obtain ⟨rfl, rfl⟩ := ih (fun hmem => hs (List.mem_cons_of_mem _ hmem))
        (fun hmem => hs' (List.mem_cons_of_mem _ hmem)) hrest
      exact ⟨rfl, rfl⟩

/-- Non-empty lines and what follows the first empty one are determined by the text. -/
theorem endLines_inj {a b : Char} {ls ls' : List Text} {t t' : Text}
    (hls : ∀ l ∈ ls, l ≠ [] ∧ a ∉ l) (hls' : ∀ l ∈ ls', l ≠ [] ∧ a ∉ l)
    (heq : endLines a b ls ++ a :: b :: t = endLines a b ls' ++ a :: b :: t') :
    ls = ls' ∧ t = t' := by
  have hhead : ∀ {l : Text} {s s' : Text}, l ≠ [] ∧ a ∉ l → l ++ s ≠ a :: s' := by
    rintro l s s' ⟨hne, hmem⟩ heq
    obtain ⟨c, l, rfl⟩ := List.exists_cons_of_ne_nil hne
    obtain ⟨rfl, -⟩ := List.cons.inj heq
    exact hmem List.mem_cons_self
  induction ls generalizing ls' with
  | nil =>
    cases ls' with
    | nil =>
      cases heq
      exact ⟨rfl, rfl⟩
    | cons l' ls' =>
      simp only [endLines, List.flatMap_cons, List.append_assoc] at heq
      exact absurd heq.symm (hhead (hls' l' List.mem_cons_self))
  | cons l ls ih =>
    cases ls' with
    | nil =>
      simp only [endLines, List.flatMap_cons, List.append_assoc] at heq
      exact absurd heq (hhead (hls l List.mem_cons_self))
    | cons l' ls' =>
      simp only [endLines, List.flatMap_cons, List.append_assoc, List.cons_append,
        List.nil_append] at heq
      obtain ⟨rfl, hrest⟩ := append_cons_inj (hls l List.mem_cons_self).2
        (hls' l' List.mem_cons_self).2 heq
      obtain ⟨rfl, rfl⟩ := ih (fun m hm => hls m (List.mem_cons_of_mem _ hm))
        (fun m hm => hls' m (List.mem_cons_of_mem _ hm)) (List.cons.inj hrest).2
      exact ⟨rfl, rfl⟩

/-- `strtok` finds the lines again, and skips the end of an empty one. -/
theorem strtok_endLines {delim : Char → Bool} {a b : Char} {ls : List Text}
    (ha : delim a) (hb : delim b) (ha0 : a ≠ '\x00') (hb0 : b ≠ '\x00')
    (hls : ∀ l ∈ ls, l ≠ [] ∧ '\x00' ∉ l ∧ ∀ c ∈ l, delim c = false) (t : Text) :
    strtok delim (endLines a b ls ++ a :: b :: t) = ls ++ strtok delim t := by
  induction ls with
  | nil => exact (strtok_delim _ ha ha0).trans (strtok_delim _ hb hb0)
  | cons l ls ih =>
    obtain ⟨hne, hnul, hdelim⟩ := hls l List.mem_cons_self
    simp only [endLines, List.flatMap_cons, List.append_assoc, List.cons_append, List.nil_append]
    rw [strtok_cons _ hnul hdelim ha ha0 hne, strtok_delim _ hb hb0]
    exact congrArg (l :: ·) (ih fun m hm => hls m (List.mem_cons_of_mem _ hm))

/-! ## Lines that end with a newline -/

/-- The complete lines of a stream that is read byte by byte, each with its newline, given what has been
read of the first one. -/
def cutLinesFrom (line : Text) : Text → List Text
  | [] => []
  | c :: s => if c = '\n' then (line ++ [c]) :: cutLinesFrom [] s else cutLinesFrom (line ++ [c]) s

/-- The complete lines of a stream. -/
def cutLines (s : Text) : List Text := cutLinesFrom [] s

/-- A text with a newline at its end and nowhere else. -/
def IsLine (l : Text) : Prop := ∃ body, l = body ++ ['\n'] ∧ '\n' ∉ body

theorem cutLinesFrom_append {body : Text} (h : '\n' ∉ body) (line s : Text) :
    cutLinesFrom line (body ++ '\n' :: s) = (line ++ body ++ ['\n']) :: cutLines s := by
  induction body generalizing line with
  | nil =>
    rw [List.nil_append, cutLinesFrom, if_pos rfl, List.append_nil]
    rfl
  | cons c body ih =>
    rw [List.mem_cons, not_or] at h
    rw [List.cons_append, cutLinesFrom, if_neg (Ne.symm h.1), ih h.2, List.append_assoc line,
      List.cons_append, List.nil_append]

/-- Lines that are sent one after the other are found again. -/
theorem cutLines_flatten {ls : List Text} (h : ∀ l ∈ ls, IsLine l) : cutLines ls.flatten = ls := by
  induction ls with
  | nil => rfl
  | cons l ls ih =>
    rw [List.forall_mem_cons] at h
    obtain ⟨body, rfl, hbody⟩ := h.1
    rw [List.flatten_cons, List.append_assoc, List.cons_append, List.nil_append, cutLines,
      cutLinesFrom_append hbody, ih h.2, List.nil_append]

end Text

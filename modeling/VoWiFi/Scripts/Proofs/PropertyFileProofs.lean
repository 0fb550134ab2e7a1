import VoWiFi.Scripts.PropertyDoc

/-!
# What is read from the lines of a property file

The parts that a line with `VALUE` is cut into are its elements, because none of the characters at which it
is cut can be in an element. A possible value is read as the value that it is. A correct value is read as
the value that it is only if it is a number: a string is taken with its quotation marks and spaces.
-/

namespace Scripts

open Json (isSpace)
open Json.Reader (isPlainChar)

/-! ## Characters -/

theorem isPySpace_of_isSpace {c : Char} (h : isSpace c = true) : Text.isPySpace c = true := by
  have hc : c = ' ' ∨ c = '\t' ∨ c = '\n' ∨ c = '\r' := by simpa [isSpace, or_assoc] using h
  rcases hc with rfl | rfl | rfl | rfl <;> rfl

theorem Blank.isPySpace (b : Blank) : ∀ c ∈ b.1, Text.isPySpace c = true := fun c hc =>
  isPySpace_of_isSpace (b.2 c hc)

/-- The characters that an element may have. -/
def inElement (c : Char) : Bool := isSpace c || c.isDigit || c = '-' || c = '"' || isElementChar c

theorem inElement_of_isSpace {c : Char} (h : isSpace c = true) : inElement c = true := by
  simp [inElement, h]

theorem inElement_literal {v : Value} (h : ∀ s, v = .str s → ∀ c ∈ s, isElementChar c = true) :
    ∀ c ∈ v.literal, inElement c = true := by
  intro c hc
  have hdigits : ∀ k, c ∈ Nat.toDigits 10 k → inElement c = true := fun k hk => by
    simp [inElement, Json.Reader.isDigit_toDigits k c hk]
  rcases v with (m | m) | s
  · exact hdigits m (by simpa [Value.literal, toString, Int.repr] using hc)
  · have hc : c = '-' ∨ c ∈ Nat.toDigits 10 (m + 1) := by
      simpa [Value.literal, toString, Int.repr] using hc
    rcases hc with rfl | hc
    · rfl
    · exact hdigits _ hc
  · have hc : c = '"' ∨ c ∈ s := by simpa [Value.literal, or_comm, or_assoc] using hc
    rcases hc with rfl | hc
    · rfl
    · simp [inElement, h s rfl c hc]

theorem Element.inElement_text (e : Element) : ∀ c ∈ e.text, inElement c = true := by
  intro c hc
  rw [Element.text, List.mem_append, List.mem_append] at hc
  rcases hc with (hc | hc) | hc
  · exact inElement_of_isSpace (e.left.2 c hc)
  · exact inElement_literal e.plain c hc
  · exact inElement_of_isSpace (e.right.2 c hc)

/-- A list of elements has no other characters than they have, and commas. -/
theorem mem_elementsText {es : List Element} {c : Char} (h : c ∈ elementsText es) :
    c = ',' ∨ inElement c = true := by
  induction es with
  | nil => exact absurd h List.not_mem_nil
  | cons e es ih =>
    rw [elementsText, List.map_cons] at h
    cases es with
    | nil =>
      rw [List.map_nil, List.intercalate_singleton] at h
      exact Or.inr (e.inElement_text c h)
    | cons e' es =>
      rw [List.map_cons, List.intercalate_cons_cons, List.mem_append, List.mem_append,
        List.mem_singleton] at h
      rcases h with (h | h) | h
      · exact Or.inr (e.inElement_text c h)
      · exact Or.inl h
      · exact ih h

theorem not_mem_elementsText {c : Char} (hc : c ≠ ',') (h : inElement c = false) (es : List Element) :
    c ∉ elementsText es := by
  intro hmem
  rcases mem_elementsText hmem with rfl | hin
  · exact hc rfl
  · rw [h] at hin
    cases hin

theorem not_mem_blank {c : Char} (h : isSpace c = false) (b : Blank) : c ∉ b.1 := by
  intro hmem
  rw [b.2 c hmem] at h
  cases h

/-! ## Elements -/

theorem literal_ends (v : Value) : (∀ c ∈ v.literal.head?, Text.isPySpace c = false) ∧
    ∀ c ∈ v.literal.getLast?, Text.isPySpace c = false := by
  cases v with
  | int n => exact Text.isPySpace_numeral n
  | str s =>
    constructor
    · rintro c ⟨⟩
      rfl
    · intro c hc
      rw [Value.literal, List.getLast?_append] at hc
      cases hc
      rfl

theorem pyStrip_element (e : Element) : Text.pyStrip e.text = e.value.literal :=
  Text.pyStrip_spaced e.left.isPySpace e.right.isPySpace (literal_ends e.value).1 (literal_ends e.value).2

theorem unquote_literal (s : Text) : unquote ('"' :: s ++ ['"']) = .ok s := by
  simp [unquote, unquote.bound?, bind, Except.bind, pure, Except.pure]

theorem pyInt_element_str {e : Element} {s : Text} (h : e.value = .str s) : Text.pyInt e.text = none := by
  have htext : e.text = e.left.1 ++ '"' :: (s ++ ['"'] ++ e.right.1) := by
    rw [Element.text, h, Value.literal]
    simp
  rw [htext]
  exact Text.pyInt_eq_none e.left.isPySpace rfl rfl (by decide) (by decide)

theorem pyInt_element_int {e : Element} {n : ℤ} (h : e.value = .int n) : Text.pyInt e.text = some n := by
  rw [Element.text, h]
  exact Text.pyInt_numeral e.left.isPySpace e.right.isPySpace n

theorem readPossible_element (e : Element) : readPossible e.text = .ok e.value := by
  cases h : e.value with
  | int n => rw [readPossible, pyInt_element_int h]
  | str s =>
    rw [readPossible, pyInt_element_str h, pyStrip_element, h]
    show (unquote ('"' :: s ++ ['"'])).bind _ = _
    rw [unquote_literal]
    rfl

/-- What a correct value is taken for. -/
def Element.taken (e : Element) : Value :=
  match e.value with
  | .int n => .int n
  | .str _ => .str e.text

theorem readCorrect_element (e : Element) : readCorrect e.text = e.taken := by
  cases h : e.value with
  | int n => rw [readCorrect, pyInt_element_int h, Element.taken, h]
  | str s => rw [readCorrect, pyInt_element_str h, Element.taken, h]

/-! ## Lists of elements -/

theorem pySplit_elementsText {es : List Element} (hne : es ≠ []) :
    Text.pySplit [','] (elementsText es) = es.map Element.text := by
  refine Text.pySplit_intercalate (by simpa using hne) fun part hpart => ?_
  obtain ⟨e, -, rfl⟩ := List.mem_map.1 hpart
  intro hmem
  exact absurd (e.inElement_text _ hmem) (by decide)

theorem mapM_readPossible (es : List Element) :
    (es.map Element.text).mapM readPossible = .ok (es.map Element.value) := by
  induction es with
  | nil => rfl
  | cons e es ih =>
    rw [List.map_cons, List.mapM_cons, readPossible_element, ih]
    rfl

theorem between_eq {left right : Char} {a m b : Text} (hl : left ∉ a) (hr : right ∉ a ++ left :: m) :
    between left right (a ++ left :: m ++ right :: b) = .ok m := by
  have hleft : (a ++ left :: m ++ right :: b).idxOf left = a.length := by
    rw [List.append_assoc, List.idxOf_append_of_notMem hl, List.cons_append, List.idxOf_cons_self]
    rfl
  have hright : (a ++ left :: m ++ right :: b).idxOf right = (a ++ left :: m).length := by
    rw [List.idxOf_append_of_notMem hr, List.idxOf_cons_self]
    rfl
  have hdrop : (a ++ left :: m).drop (a.length + 1) = m := by
    rw [← List.drop_drop, List.drop_left]
    rfl
  rw [between, if_pos ⟨by simp, by simp⟩, hleft, hright, List.take_left, hdrop]

/-- The correct values that are read. An empty list is taken for a list of one empty text. -/
def Placeholder.takenCorrect : Placeholder → List Value
  | .listed _ (some (_, cs)) => if cs = [] then [.str []] else cs.map Element.taken
  | _ => []

theorem readCorrect_elementsText (cs : List Element) :
    (Text.pySplit [','] (elementsText cs)).map readCorrect =
      if cs = [] then [.str []] else cs.map Element.taken := by
  by_cases h : cs = []
  · rw [if_pos h, h]
    rfl
  · rw [if_neg h, pySplit_elementsText h, List.map_map]
    exact List.map_congr_left fun e _ => readCorrect_element e

/-! ## The parts of a placeholder -/

/-- What is between the parentheses. -/
def argsText (ps : List Element) (cs : Option (Blank × List Element)) : Text :=
  '[' :: elementsText ps ++ ']' :: Placeholder.correctText cs

theorem not_mem_correctText {c : Char} (hin : inElement c = false) (hc : c ∉ [',', '[', ']'])
    (cs : Option (Blank × List Element)) : c ∉ Placeholder.correctText cs := by
  simp only [List.mem_cons, List.not_mem_nil, or_false, not_or] at hc
  have hspace : isSpace c = false := by
    by_contra h
    rw [inElement_of_isSpace (by simpa using h)] at hin
    cases hin
  rcases cs with _ | ⟨gap, cs⟩
  · exact List.not_mem_nil
  · simp only [Placeholder.correctText, List.cons_append, List.mem_cons, List.mem_append, List.not_mem_nil,
      or_false, not_or]
    exact ⟨hc.1, ⟨not_mem_blank hspace gap, hc.2.1, not_mem_elementsText hc.1 hin cs⟩, hc.2.2⟩

theorem not_mem_argsText (c : Char) (hin : inElement c = false) (hc : c ∉ [',', '[', ']'])
    (ps : List Element) (cs : Option (Blank × List Element)) : c ∉ argsText ps cs := by
  have hcs := not_mem_correctText hin hc cs
  simp only [List.mem_cons, List.not_mem_nil, or_false, not_or] at hc
  simp only [argsText, List.cons_append, List.mem_cons, List.mem_append, not_or]
  exact ⟨hc.2.1, not_mem_elementsText hc.1 hin ps, hc.2.2, hcs⟩

theorem between_args (before : Blank) (ps : List Element) (cs : Option (Blank × List Element))
    (post : Text) :
    between '(' ')' (before.1 ++ (Placeholder.listed ps cs).text ++ post) = .ok (argsText ps cs) := by
  have htext : before.1 ++ (Placeholder.listed ps cs).text ++ post =
      (before.1 ++ "VALUE".toList) ++ '(' :: argsText ps cs ++ ')' :: post := by
    have hopen : "VALUE(".toList = "VALUE".toList ++ ['('] := by decide
    have hassoc : ∀ a b c d : Text, a ++ ((b ++ ['(']) ++ c ++ [')']) ++ d = (a ++ b) ++ '(' :: c ++ ')' :: d := by
      simp
    exact (congrArg (fun s => before.1 ++ (s ++ argsText ps cs ++ [')']) ++ post) hopen).trans (hassoc _ _ _ _)
  rw [htext]
  have hbefore : ∀ c, isSpace c = false → c ∉ "VALUE".toList → c ∉ before.1 ++ "VALUE".toList :=
    fun c hspace hc => List.not_mem_append (not_mem_blank hspace before) hc
  refine between_eq (hbefore '(' rfl (by decide)) (List.not_mem_append (hbefore ')' rfl (by decide)) ?_)
  exact List.not_mem_cons_of_ne_of_not_mem (by decide) (not_mem_argsText ')' rfl (by decide) ps cs)

theorem not_mem_openList (ps : List Element) : ']' ∉ '[' :: elementsText ps := by
  rw [List.mem_cons, not_or]
  exact ⟨by decide, not_mem_elementsText (by decide) rfl ps⟩

theorem between_possible (ps : List Element) (cs : Option (Blank × List Element)) :
    between '[' ']' (argsText ps cs) = .ok (elementsText ps) :=
  between_eq (a := []) List.not_mem_nil (not_mem_openList ps)

theorem drop_possible (ps : List Element) (cs : Option (Blank × List Element)) :
    (argsText ps cs).drop ((argsText ps cs).idxOf ']' + 1) = Placeholder.correctText cs := by
  have hidx : (argsText ps cs).idxOf ']' = ('[' :: elementsText ps).length := by
    rw [argsText, List.idxOf_append_of_notMem (not_mem_openList ps), List.idxOf_cons_self]
    rfl
  rw [hidx, argsText, ← List.drop_drop, List.drop_left]
  rfl

theorem pyStrip_correctText (cs : Option (Blank × List Element)) :
    Text.pyStrip (Placeholder.correctText cs) = Placeholder.correctText cs := by
  rcases cs with _ | ⟨gap, cs⟩
  · rfl
  · refine Text.pyStrip_eq_self ?_ ?_
    · rintro c ⟨⟩
      rfl
    · intro c hc
      rw [Placeholder.correctText, List.getLast?_append] at hc
      cases hc
      rfl

theorem between_correct (gap : Blank) (cs : List Element) :
    between '[' ']' (Placeholder.correctText (some (gap, cs))) = .ok (elementsText cs) := by
  refine between_eq (a := ',' :: gap.1) ?_ ?_
  · rw [List.mem_cons, not_or]
    exact ⟨by decide, not_mem_blank rfl gap⟩
  · rw [List.mem_append, not_or, List.mem_cons, not_or]
    exact ⟨⟨by decide, not_mem_blank rfl gap⟩, not_mem_openList cs⟩

theorem readCorrects_correctText (ps : List Element) (cs : Option (Blank × List Element)) :
    readCorrects (Placeholder.correctText cs) = .ok (Placeholder.listed ps cs).takenCorrect := by
  rcases cs with _ | ⟨gap, cs⟩
  · rfl
  · rw [readCorrects, if_neg (by simp [Placeholder.correctText]), between_correct]
    change Except.ok ((Text.pySplit [','] (elementsText cs)).map readCorrect) = _
    rw [readCorrect_elementsText]
    rfl

/-- The possible and the correct values of a placeholder. An empty list of possible values is refused. -/
theorem readValues_placeholder (p : Placeholder) (before : Blank) (post : Text) (hpost : '(' ∉ post) :
    readValues (before.1 ++ p.text ++ post) =
      if p.possibleValues = [] then .error .indexError
      else .ok (p.possibleValues.dedup, p.takenCorrect.dedup) := by
  cases p with
  | any =>
    have hmem : '(' ∉ before.1 ++ Placeholder.any.text ++ post :=
      List.not_mem_append (List.not_mem_append (not_mem_blank rfl before) (by decide)) hpost
    rw [readValues, if_neg hmem]
    rfl
  | listed ps cs =>
    have hmem : '(' ∈ before.1 ++ (Placeholder.listed ps cs).text ++ post := by
      refine List.mem_append_left _ (List.mem_append_right _ ?_)
      exact List.mem_append_left _ (List.mem_append_left _ (by decide))
    rw [readValues, if_pos hmem, between_args]
    change Except.bind (between '[' ']' (argsText ps cs)) _ = _
    rw [between_possible]
    change Except.bind ((Text.pySplit [','] (elementsText ps)).mapM readPossible) _ = _
    by_cases hps : ps = []
    · subst hps
      rfl
    · rw [pySplit_elementsText hps, mapM_readPossible, if_neg (by simpa [Placeholder.possibleValues] using hps)]
      change Except.bind (readCorrects (Text.pyStrip ((argsText ps cs).drop _))) _ = _
      rw [drop_possible, pyStrip_correctText, readCorrects_correctText ps]
      rfl

/-! ## Lines -/

theorem colon_not_mem_placeholder (p : Placeholder) : ':' ∉ p.text := by
  cases p with
  | any => decide
  | listed ps cs =>
    have hargs := not_mem_argsText ':' rfl (by decide) ps cs
    exact List.not_mem_append (List.not_mem_append (by decide) hargs) (by decide)

theorem not_mem_commaText {c : Char} (hspace : isSpace c = false) (hc : c ≠ ',') (comma : Option Blank) :
    c ∉ commaText comma := by
  cases comma with
  | none => exact List.not_mem_nil
  | some gap =>
    rw [commaText, List.mem_append, List.mem_singleton, not_or]
    exact ⟨not_mem_blank hspace gap, hc⟩

theorem afterColon_eq {a b : Text} (ha : ':' ∉ a) (hb : ':' ∉ b) : afterColon (a ++ ':' :: b) = .ok b := by
  rw [afterColon, Text.pySplit_append_cons ha, Text.pySplit_of_not_mem hb]

theorem afterColon_value (before after : Blank) (p : Placeholder) (comma : Option Blank) :
    afterColon (Line.value before after p comma).text = .ok (after.1 ++ p.text ++ commaText comma) := by
  have hkey : ':' ∉ "\"value\"".toList ++ before.1 := List.not_mem_append (by decide) (not_mem_blank rfl before)
  have hvalue : ':' ∉ after.1 ++ p.text := List.not_mem_append (not_mem_blank rfl after) (colon_not_mem_placeholder p)
  have hrest : ':' ∉ after.1 ++ p.text ++ commaText comma :=
    List.not_mem_append hvalue (not_mem_commaText rfl (by decide) comma)
  exact afterColon_eq hkey hrest

theorem contains_value (before after : Blank) (p : Placeholder) (comma : Option Blank) :
    Text.contains (Line.value before after p comma).text "VALUE".toList = true := by
  have hvalue : "VALUE".toList <:+: p.text := by
    cases p with
    | any => exact List.infix_rfl
    | listed ps cs => exact ⟨[], '(' :: argsText ps cs ++ [')'], rfl⟩
  have hline : p.text <:+: (Line.value before after p comma).text := by
    have hassoc : ∀ a b c d e : Text, (a ++ b ++ ':' :: c) ++ d ++ e = a ++ b ++ ':' :: (c ++ d ++ e) := by
      simp
    exact ⟨_, _, hassoc _ _ _ _ _⟩
  exact Text.contains_of_infix (hvalue.trans hline)

/-- The values of a placeholder are noted, unless the list of possible values is empty. -/
theorem noteLine_value (pick : Picker) (r : PropertyReader) (before after : Blank) (p : Placeholder)
    (comma : Option Blank) : r.noteLine pick (Line.value before after p comma).text =
      if p.possibleValues = [] then .error .indexError
      else .ok (r.noteValues pick p.possibleValues.dedup p.takenCorrect.dedup) := by
  rw [PropertyReader.noteLine, if_pos (contains_value before after p comma), afterColon_value]
  change Except.bind (readValues _) _ = _
  rw [readValues_placeholder p after _ (not_mem_commaText rfl (by decide) comma)]
  split <;> rfl

/-! ## What a line does -/

theorem noteName_ok {r r' : PropertyReader} {line : Text} (h : r.noteName line = .ok r') :
    r' = r ∨ ∃ name, r' = { r with target := some name, names := r.names ++ [name] } := by
  rw [PropertyReader.noteName] at h
  split at h
  · cases hname : readName line with
    | error e =>
      rw [hname] at h
      cases h
    | ok name =>
      rw [hname] at h
      cases h
      exact Or.inr ⟨name, rfl⟩
  · cases h
    exact Or.inl rfl

theorem noteLine_ok {pick : Picker} {r r' : PropertyReader} {line : Text} (h : r.noteLine pick line = .ok r') :
    r' = { r with js := r.js ++ line } ∨
      ∃ values possible correct, readValues values = .ok (possible, correct) ∧
        r' = r.noteValues pick possible correct := by
  rw [PropertyReader.noteLine] at h
  split at h
  · cases hvalues : afterColon line with
    | error e =>
      rw [hvalues] at h
      cases h
    | ok values =>
      rw [hvalues] at h
      change Except.bind (readValues values) _ = _ at h
      cases hread : readValues values with
      | error e =>
        rw [hread] at h
        cases h
      | ok read =>
        rw [hread] at h
        cases h
        exact Or.inr ⟨values, read.1, read.2, hread, rfl⟩
  · cases h
    exact Or.inl rfl

theorem line_ok {pick : Picker} {r r' : PropertyReader} {line : Text} (h : r.line pick line = .ok r') :
    r' = r ∨ ∃ r₁, r.noteName (Text.pyStrip line) = .ok r₁ ∧ r₁.noteLine pick (Text.pyStrip line) = .ok r' := by
  rw [PropertyReader.line] at h
  split at h
  · cases h
    exact Or.inl rfl
  · rw [PropertyReader.content] at h
    cases hname : r.noteName (Text.pyStrip line) with
    | error e =>
      rw [hname] at h
      cases h
    | ok r₁ =>
      rw [hname] at h
      exact Or.inr ⟨r₁, rfl, h⟩

/-- What a line keeps holds once all lines have been gone through. -/
theorem foldlM_line_keeps {pick : Picker} {P : PropertyReader → Prop}
    (hstep : ∀ {r r' line}, PropertyReader.line pick r line = .ok r' → P r → P r') {file : List Text}
    {r r' : PropertyReader} (h : file.foldlM (PropertyReader.line pick) r = .ok r') (hr : P r) : P r' := by
  induction file generalizing r with
  | nil =>
    cases h
    exact hr
  | cons line file ih =>
    rw [List.foldlM_cons] at h
    cases hline : r.line pick line with
    | error e =>
      rw [hline] at h
      cases h
    | ok r₁ =>
      rw [hline] at h
      exact ih h (hstep hline hr)

/-- The constructor goes through the lines and reads the text that they are joined to. -/
theorem init_ok {pick : Picker} {file : List Text} {tc : Testcases} (h : Testcases.init pick file = .ok tc) :
    ∃ r, file.foldlM (PropertyReader.line pick) PropertyReader.start = .ok r ∧
      Json.loads r.js = some tc.defaultObject ∧ tc.targets = r.targets ∧
      tc.possibleValues = r.possibleValues ∧ tc.correctValues = r.correctValues := by
  rw [Testcases.init] at h
  cases hr : file.foldlM (PropertyReader.line pick) PropertyReader.start with
  | error e =>
    rw [hr] at h
    cases h
  | ok r =>
    rw [hr] at h
    change Testcases.ofReader r = _ at h
    rw [Testcases.ofReader] at h
    cases hobj : Json.loads r.js with
    | none =>
      rw [hobj] at h
      cases h
    | some obj =>
      rw [hobj] at h
      cases h
      exact ⟨r, rfl, hobj, rfl, rfl, rfl⟩

/-! ## Evaluating a file -/

/-- The first element of a list. -/
def firstPicker : Picker where
  first vs := vs.headD (.int 0)
  mem vs hne := by
    cases vs with
    | nil => exact absurd rfl hne
    | cons v vs => exact List.mem_cons_self

/-- What has been read from a file satisfies a condition. -/
def fileCheck (file : List Text) (check : Testcases → Property → Bool) : Bool :=
  match Testcases.init firstPicker file with
  | .ok tc => tc.property.any (check tc)
  | .error _ => false

theorem exists_of_fileCheck (file : List Text) (check : Testcases → Property → Bool)
    (h : fileCheck file check = true) :
    ∃ tc p, Testcases.init firstPicker file = .ok tc ∧ tc.property = some p ∧ check tc p = true := by
  rw [fileCheck] at h
  split at h
  · rename_i tc htc
    cases hp : tc.property with
    | none =>
      rw [hp] at h
      cases h
    | some p =>
      rw [hp] at h
      exact ⟨tc, p, htc, hp, h⟩
  · cases h

end Scripts

import VoWiFi.Scripts.Proofs.PropertyFileProofs

/-!
# When a property file is the document that it stands for

The lines of a document are joined to a text in which a value stands for each placeholder and the comma
behind it is missing. Going through this text with the document, the reader of JSON either has read the
value of the document, or it has failed at a placeholder: at the key that follows it, or because there was
no value to put.
-/

namespace Scripts

open Json (Frame)
open Json.Reader (Expects ExpectsKey Reads IsBody keyText isPlainChar fail run run_append run_cons
  run_fail run_append_spaces run_append_done)

/-! ## What is put for a placeholder -/

/-- The value that a text taken as a correct value is the JSON text of. -/
def Value.bare : Value → Value
  | int n => int n
  | str t =>
    match unquote (Text.pyStrip t) with
    | .ok s => str s
    | .error _ => str t

/-- The value that is put for a placeholder. -/
def Placeholder.chosen (pick : Picker) (p : Placeholder) : Value :=
  if p.correctValues = [] then .int 0 else (pick.first p.takenCorrect.dedup).bare

/-- The text that is put for it. -/
def Placeholder.chosenText (pick : Picker) (p : Placeholder) : Text :=
  if p.takenCorrect.dedup = [] then ['0'] else (pick.first p.takenCorrect.dedup).text

theorem valueLine_eq (pick : Picker) (p : Placeholder) :
    PropertyReader.valueLine pick p.takenCorrect.dedup = PropertyReader.valueKey ++ p.chosenText pick := rfl

theorem bare_taken (e : Element) : e.taken.bare = e.value := by
  rw [Element.taken]
  cases he : e.value with
  | int n => rfl
  | str s =>
    show (match unquote (Text.pyStrip e.text) with
      | .ok s => Value.str s
      | .error _ => Value.str e.text) = _
    rw [pyStrip_element, he, Value.literal, unquote_literal]

/-- An element is read as its value. -/
theorem reads_taken (e : Element) : Reads e.taken.text e.value.json := by
  rw [Element.taken]
  cases he : e.value with
  | int n => exact Json.Reader.reads_numeral n
  | str s =>
    show Reads e.text (.str s)
    have hplain : ∀ c ∈ s, isPlainChar c = true := by
      intro c hc
      have hchar := e.plain s he c hc
      rw [isElementChar, Bool.and_eq_true] at hchar
      exact hchar.1
    rw [Element.text, he, Value.literal]
    exact (Json.Reader.isBody_of_plain hplain).reads e.left.2 e.right.2

theorem first_taken (pick : Picker) {cs : List Element} (h : cs ≠ []) :
    ∃ e ∈ cs, pick.first (cs.map Element.taken).dedup = e.taken := by
  have hne : (cs.map Element.taken).dedup ≠ [] := by
    rw [ne_eq, List.dedup_eq_nil]
    simpa using h
  obtain ⟨e, he, heq⟩ := List.mem_map.1 (List.mem_dedup.1 (pick.mem _ hne))
  exact ⟨e, he, heq.symm⟩

theorem chosen_mem_defaults (pick : Picker) (p : Placeholder) : p.chosen pick ∈ p.defaults := by
  rw [Placeholder.chosen, Placeholder.defaults]
  by_cases h : p.correctValues = []
  · rw [if_pos h, if_pos h]
    exact List.mem_singleton_self _
  · rw [if_neg h, if_neg h]
    rcases p with _ | ⟨ps, _ | ⟨gap, cs⟩⟩
    · exact absurd rfl h
    · exact absurd rfl h
    · have hcs : cs ≠ [] := by
        rintro rfl
        exact h rfl
      obtain ⟨e, he, heq⟩ := first_taken pick hcs
      rw [Placeholder.takenCorrect, if_neg hcs, heq, bare_taken]
      exact List.mem_map_of_mem he

/-- What is put can be read, unless the list of correct values is empty. -/
theorem reads_chosenText {pick : Picker} {p : Placeholder} (h : p.definite = true) :
    Reads (p.chosenText pick) (p.chosen pick).json := by
  have hzero : Reads ['0'] (Value.int 0).json := Json.Reader.reads_numeral 0
  rcases p with _ | ⟨ps, _ | ⟨gap, cs⟩⟩
  · exact hzero
  · exact hzero
  · have hcs : cs ≠ [] := by
      rintro rfl
      cases h
    obtain ⟨e, he, heq⟩ := first_taken pick hcs
    have hne : (cs.map Element.taken).dedup ≠ [] := by
      rw [ne_eq, List.dedup_eq_nil]
      simpa using hcs
    have hvalues : (Placeholder.listed ps (some (gap, cs))).correctValues ≠ [] := by
      simpa [Placeholder.correctValues] using hcs
    rw [Placeholder.chosenText, Placeholder.chosen, if_neg hvalues, Placeholder.takenCorrect, if_neg hcs,
      if_neg hne, heq, bare_taken]
    exact reads_taken e

theorem chosenText_eq_nil {pick : Picker} {p : Placeholder} (h : p.definite = false) :
    p.chosenText pick = [] := by
  rcases p with _ | ⟨ps, _ | ⟨gap, cs⟩⟩
  · cases h
  · cases h
  · have hcs : cs = [] := by
      cases cs with
      | nil => rfl
      | cons e cs => cases h
    subst hcs
    have hfirst : pick.first [Value.str []] = .str [] :=
      List.mem_singleton.1 (pick.mem [Value.str []] (List.cons_ne_nil _ _))
    show (pick.first [Value.str []]).text = []
    rw [hfirst]
    rfl

/-! ## The text of a document -/

/-- What a line adds to the text. -/
def Line.code (pick : Picker) : Line → Text
  | plain text => text
  | value _ _ p _ => PropertyReader.valueLine pick p.takenCorrect.dedup

/-- What a character or a placeholder of a document becomes. -/
def Glyph.code (pick : Picker) : Glyph → Text
  | char c => [c]
  | value _ _ p _ => PropertyReader.valueKey ++ p.chosenText pick

mutual

/-- The text that the lines of a document are joined to. -/
def Doc.code (pick : Picker) : Doc → Text
  | .inline text _ _ => text
  | .arr items => '[' :: (items.code pick ++ [']'])
  | .obj members => '\x7b' :: (members.code pick ++ ['\x7d'])

def Items.code (pick : Picker) : Items → Text
  | .nil gap => gap.1
  | .cons lead d gap rest => lead.1 ++ (d.code pick ++ (gap.1 ++ (separator rest.isNil ++ rest.code pick)))

def Members.code (pick : Picker) : Members → Text
  | .nil gap => gap.1
  | .member lead key d gap rest =>
    lead.1 ++ (key.text ++ (d.code pick ++ (gap.1 ++ (separator rest.isNil ++ rest.code pick))))
  | .value _ _ p _ rest => PropertyReader.valueKey ++ (p.chosenText pick ++ rest.code pick)

end

theorem flatMap_spell (pick : Picker) (text : Text) : (spell text).flatMap (Glyph.code pick) = text := by
  rw [spell, List.flatMap_map]
  exact List.flatMap_singleton' text

theorem Line.flatMap_glyphs (pick : Picker) (line : Line) :
    line.glyphs.flatMap (Glyph.code pick) = line.code pick := by
  cases line with
  | plain text => exact flatMap_spell pick text
  | value before after p comma => exact List.append_nil _

mutual

theorem Doc.flatMap_glyphs (pick : Picker) (d : Doc) : d.glyphs.flatMap (Glyph.code pick) = d.code pick := by
  cases d with
  | inline text v h => exact flatMap_spell pick text
  | arr items => simp [Doc.glyphs, Doc.code, Glyph.code, Items.flatMap_glyphs pick items]
  | obj members => simp [Doc.glyphs, Doc.code, Glyph.code, Members.flatMap_glyphs pick members]

theorem Items.flatMap_glyphs (pick : Picker) (items : Items) :
    items.glyphs.flatMap (Glyph.code pick) = items.code pick := by
  cases items with
  | nil gap => exact flatMap_spell pick gap.1
  | cons lead d gap rest =>
    simp only [Items.glyphs, Items.code, List.flatMap_append, flatMap_spell, Doc.flatMap_glyphs pick d,
      Items.flatMap_glyphs pick rest, List.append_assoc]

theorem Members.flatMap_glyphs (pick : Picker) (members : Members) :
    members.glyphs.flatMap (Glyph.code pick) = members.code pick := by
  cases members with
  | nil gap => exact flatMap_spell pick gap.1
  | member lead key d gap rest =>
    simp only [Members.glyphs, Members.code, List.flatMap_append, flatMap_spell, Doc.flatMap_glyphs pick d,
      Members.flatMap_glyphs pick rest, List.append_assoc]
  | value before after p comma rest =>
    rw [Members.glyphs, List.flatMap_cons, Members.flatMap_glyphs pick rest, Glyph.code, Members.code,
      List.append_assoc]

end

/-! ## Reading the text -/

theorem key_append (key : Key) (t : Text) :
    key.text ++ t = keyText key.body key.before.1 (key.after.1 ++ t) := by
  simp [Key.text, keyText]

theorem valueKey_append (t : Text) :
    PropertyReader.valueKey ++ t = keyText "value".toList [] (' ' :: t) := by
  have hkey : PropertyReader.valueKey = '"' :: ("value".toList ++ '"' :: ':' :: [' ']) := by decide +kernel
  rw [hkey, keyText, List.cons_append, List.append_assoc]
  rfl

theorem isBody_value : IsBody "value".toList "value".toList :=
  Json.Reader.isBody_of_plain (List.all_eq_true.1 (by decide))

/-- The text of an object starts with a key. -/
theorem Members.code_eq_keyText (pick : Picker) {members : Members} (h : members.isNil = false) :
    ∃ lead body key before t, (∀ c ∈ lead, Json.isSpace c = true) ∧ IsBody body key ∧
      (∀ c ∈ before, Json.isSpace c = true) ∧ members.code pick = lead ++ keyText body before t := by
  cases members with
  | nil gap => cases h
  | member lead key d gap rest =>
    have hcode : (Members.member lead key d gap rest).code pick = _ :=
      congrArg (lead.1 ++ ·) (key_append key _)
    exact ⟨lead.1, key.body, key.name, key.before.1, _, lead.2, key.isBody, key.before.2, hcode⟩
  | value before after p comma rest =>
    exact ⟨[], _, _, [], _, List.forall_mem_nil _, isBody_value, List.forall_mem_nil _, valueKey_append _⟩

/-- What is put for a placeholder at the end of an object. -/
theorem run_chosenText (pick : Picker) {p : Placeholder} (hp : p.definite = true) (stack : List Frame)
    (keys : PyDict Json) (key : Text) (gap : Blank) (t : Text) :
    run ⟨.obj keys key :: stack, .value⟩ (p.chosenText pick ++ (gap.1 ++ '\x7d' :: t)) =
      run ⟨stack, .done (.obj (keys.set key (p.chosen pick).json))⟩ t :=
  run_append_done (reads_chosenText hp _) gap.2 rfl t

/-- If a key follows, or nothing has been put, the text is refused. -/
theorem run_chosenText_eq_fail (pick : Picker) {p : Placeholder} {rest : Members}
    (h : (rest.isNil && p.definite) = false) (stack : List Frame) (keys : PyDict Json) (key t : Text) :
    run ⟨.obj keys key :: stack, .value⟩ (p.chosenText pick ++ (rest.code pick ++ '\x7d' :: t)) = fail := by
  have hspaces : Expects (.obj keys key :: stack) ⟨.obj keys key :: stack, .value⟩ := Or.inl rfl
  cases hrest : rest.isNil with
  | true =>
    rw [hrest, Bool.true_and] at h
    rw [chosenText_eq_nil h]
    cases rest with
    | nil gap =>
      rw [Members.code, List.nil_append, run_append, hspaces.run_spaces gap.2]
      exact run_fail t
    | member lead key' d gap rest => cases hrest
    | value before after p' comma rest => cases hrest
  | false =>
    obtain ⟨lead, body, key', before, u, hlead, hbody, hbefore, hcode⟩ := rest.code_eq_keyText pick hrest
    have happend : lead ++ keyText body before u ++ '\x7d' :: t =
        lead ++ keyText body before (u ++ '\x7d' :: t) := by
      simp [keyText]
    rw [hcode, happend]
    cases hp : p.definite with
    | true =>
      rw [keyText, run_append_done (reads_chosenText hp _) hlead rfl]
      exact run_fail _
    | false =>
      rw [chosenText_eq_nil hp, List.nil_append, run_append, hspaces.run_spaces hlead]
      exact hbody.run_key_eq_fail _ hbefore _

/-- Reading on behind a document that has been read, or refused. -/
theorem run_append_closed {r r' : Json.Reader} {closed : Bool} {stack : List Frame} {v : Json} {s gap : Text}
    (h : (r.run s).settle = if closed then ⟨stack, .done v⟩ else fail)
    (hgap : ∀ c ∈ gap, Json.isSpace c = true) {c : Char} (hc : Json.isNumberChar c = false)
    (hr' : Json.Reader.afterValue stack v c = r') (t : Text) :
    r.run (s ++ (gap ++ c :: t)) = if closed then r'.run t else fail := by
  cases closed with
  | true => rw [run_append_done h hgap hc, hr', if_pos rfl]
  | false =>
    rw [run_append_spaces h hgap hc]
    exact run_fail _

mutual

/-- A document is read up to its end if it is closed. -/
theorem Doc.run_code (pick : Picker) (d : Doc) {stack : List Frame} {r : Json.Reader}
    (hr : Expects stack r) : (r.run (d.code pick)).settle =
      if d.closed then ⟨stack, .done (d.fill (Placeholder.chosen pick))⟩ else fail := by
  cases d with
  | inline text v hread =>
    rw [Doc.code, Doc.closed, if_pos rfl, Doc.fill]
    exact hread.run_eq hr
  | arr items =>
    rw [Doc.code, Doc.closed, Doc.fill, run_cons, hr.step_eq rfl (by decide)]
    change (run ⟨.arr [] :: stack, .firstItem⟩ _).settle = _
    have hfirst : Expects (.arr [] :: stack) ⟨.arr [] :: stack, .firstItem⟩ := Or.inr rfl
    rw [Items.run_code pick items hfirst (fun _ => rfl) []]
    split
    · rfl
    · rfl
  | obj members =>
    rw [Doc.code, Doc.closed, Doc.fill, run_cons, hr.step_eq rfl (by decide)]
    change (run ⟨stack, .firstKey⟩ _).settle = _
    have hfirst : ExpectsKey stack [] ⟨stack, .firstKey⟩ := Or.inr ⟨rfl, rfl⟩
    rw [Members.run_code pick members hfirst (fun _ => rfl) []]
    split
    · rfl
    · rfl

/-- The elements of an array are read up to its end. If there are none, the end must be expected. -/
theorem Items.run_code (pick : Picker) (items : Items) {stack : List Frame} {done : List Json}
    {r : Json.Reader} (hr : Expects (.arr done :: stack) r)
    (hend : items.isNil = true → r.step ']' = ⟨stack, .done (.arr done)⟩) (t : Text) :
    r.run (items.code pick ++ ']' :: t) =
      if items.closed then run ⟨stack, .done (.arr (done ++ items.fill (Placeholder.chosen pick)))⟩ t
      else fail := by
  cases items with
  | nil gap =>
    rw [Items.code, run_append, hr.run_spaces gap.2, run_cons, hend rfl, Items.closed, if_pos rfl, Items.fill,
      List.append_nil]
  | cons lead d gap rest =>
    have hd := Doc.run_code pick d hr
    rw [Items.code, Items.closed, Items.fill]
    simp only [List.append_assoc]
    rw [run_append, hr.run_spaces lead.2]
    cases hrest : rest.isNil with
    | true =>
      cases rest with
      | nil gap' =>
        rw [separator, if_pos rfl, List.nil_append, Items.code, ← List.append_assoc gap.1,
          run_append_closed hd (List.forall_mem_append.2 ⟨gap.2, gap'.2⟩) rfl rfl, Items.closed,
          Bool.and_true, Items.fill]
        rfl
      | cons lead' d' gap' rest => cases hrest
    | false =>
      have hcomma : Json.Reader.afterValue (.arr done :: stack) (d.fill (Placeholder.chosen pick)) ',' =
          ⟨.arr (done ++ [d.fill (Placeholder.chosen pick)]) :: stack, .value⟩ := rfl
      have hvalue : Expects (.arr (done ++ [d.fill (Placeholder.chosen pick)]) :: stack) ⟨_, .value⟩ :=
        Or.inl rfl
      rw [separator, if_neg Bool.false_ne_true, List.singleton_append, run_append_closed hd gap.2 rfl hcomma,
        Items.run_code pick rest hvalue (fun h => absurd h (by rw [hrest]; decide)) t, List.append_assoc]
      cases d.closed with
      | true => rfl
      | false => rfl

theorem Members.run_code (pick : Picker) (members : Members) {stack : List Frame} {keys : PyDict Json}
    {r : Json.Reader} (hr : ExpectsKey stack keys r)
    (hend : members.isNil = true → r.step '\x7d' = ⟨stack, .done (.obj keys)⟩) (t : Text) :
    r.run (members.code pick ++ '\x7d' :: t) =
      if members.closed then run ⟨stack, .done (.obj (members.fill (Placeholder.chosen pick) keys))⟩ t
      else fail := by
  cases members with
  | nil gap =>
    rw [Members.code, run_append, hr.run_spaces gap.2, run_cons, hend rfl, Members.closed, if_pos rfl,
      Members.fill]
  | member lead key d gap rest =>
    have hvalue : Expects (.obj keys key.name :: stack) ⟨.obj keys key.name :: stack, .value⟩ := Or.inl rfl
    have hd := Doc.run_code pick d hvalue
    rw [Members.code, Members.closed, Members.fill]
    simp only [List.append_assoc]
    rw [run_append, hr.run_spaces lead.2, key_append, key.isBody.run_key hr key.before.2, run_append,
      hvalue.run_spaces key.after.2]
    cases hrest : rest.isNil with
    | true =>
      cases rest with
      | nil gap' =>
        rw [separator, if_pos rfl, List.nil_append, Members.code, ← List.append_assoc gap.1,
          run_append_closed hd (List.forall_mem_append.2 ⟨gap.2, gap'.2⟩) rfl rfl, Members.closed,
          Bool.and_true, Members.fill]
        rfl
      | member lead' key' d' gap' rest => cases hrest
      | value before after p comma rest => cases hrest
    | false =>
      have hcomma : Json.Reader.afterValue (.obj keys key.name :: stack) (d.fill (Placeholder.chosen pick)) ',' =
          ⟨stack, .nextKey (keys.set key.name (d.fill (Placeholder.chosen pick)))⟩ := rfl
      have hkey : ExpectsKey stack (keys.set key.name (d.fill (Placeholder.chosen pick))) ⟨stack, .nextKey _⟩ :=
        Or.inl rfl
      rw [separator, if_neg Bool.false_ne_true, List.singleton_append, run_append_closed hd gap.2 rfl hcomma,
        Members.run_code pick rest hkey (fun h => absurd h (by rw [hrest]; decide)) t]
      cases d.closed with
      | true => rfl
      | false => rfl
  | value before after p comma rest =>
    rw [Members.code, List.append_assoc, List.append_assoc, valueKey_append,
      isBody_value.run_key hr (List.forall_mem_nil _), run_cons, Json.Reader.step_value_space _ rfl,
      Members.closed, Members.fill]
    cases h : rest.isNil && p.definite with
    | true =>
      rw [Bool.and_eq_true] at h
      cases rest with
      | nil gap =>
        rw [Members.code, run_chosenText pick h.2, Members.fill, if_pos rfl]
      | member lead' key' d' gap' rest => cases h.1
      | value before' after' p' comma' rest => cases h.1
    | false =>
      rw [if_neg Bool.false_ne_true]
      exact run_chosenText_eq_fail pick h stack keys _ t

end

/-- The text is read as the value of the document, or refused. -/
theorem loads_code (pick : Picker) (d : Doc) : Json.loads (d.code pick) =
    if d.closed then some (d.fill (Placeholder.chosen pick)) else none := by
  have hexpects : Expects [] ⟨[], .value⟩ := Or.inl rfl
  rw [Json.loads, Doc.run_code pick d hexpects]
  cases d.closed with
  | true => rfl
  | false => rfl

/-! ## Going through the lines -/

theorem noteName_js {r r' : PropertyReader} {line : Text} (h : r.noteName line = .ok r') : r'.js = r.js := by
  rcases noteName_ok h with rfl | ⟨name, rfl⟩
  · rfl
  · rfl

theorem noteLine_line {line : Line} (hclear : line.Clear) (pick : Picker) (r : PropertyReader) :
    if line.hasValues then ∃ r', r.noteLine pick line.text = .ok r' ∧ r'.js = r.js ++ line.code pick
    else r.noteLine pick line.text = .error .indexError := by
  cases line with
  | plain text =>
    rw [Line.hasValues, if_pos rfl]
    refine ⟨{ r with js := r.js ++ text }, ?_, rfl⟩
    show r.noteLine pick text = _
    rw [PropertyReader.noteLine, show Text.contains text _ = false from hclear, if_neg Bool.false_ne_true]
  | value before after p comma =>
    rw [noteLine_value]
    by_cases hp : p.possibleValues = []
    · rw [if_neg (by simp [Line.hasValues, hp]), if_pos hp]
    · rw [if_pos (by simpa [Line.hasValues] using hp), if_neg hp]
      exact ⟨_, rfl, rfl⟩

theorem content_ok {line : Line} (hclear : line.Clear) (hread : line.Readable) (pick : Picker)
    (r : PropertyReader) :
    ∃ r', r.content pick line.text = .ok r' ∧ r'.js = r.js ++ line.code pick := by
  have hname : ∃ r₁, r.noteName line.text = .ok r₁ := by
    rw [PropertyReader.noteName]
    split
    · rename_i hcontains
      have hok := hread.2 hcontains
      cases hname : readName line.text with
      | error e =>
        rw [hname] at hok
        cases hok
      | ok name => exact ⟨_, rfl⟩
    · exact ⟨r, rfl⟩
  obtain ⟨r₁, hr₁⟩ := hname
  have hline := noteLine_line hclear pick r₁
  rw [if_pos hread.1] at hline
  obtain ⟨r', hr', hjs⟩ := hline
  refine ⟨r', ?_, by rw [hjs, noteName_js hr₁]⟩
  rw [PropertyReader.content, hr₁]
  exact hr'

theorem content_error {line : Line} (hclear : line.Clear) (hread : ¬ line.Readable) (pick : Picker)
    (r : PropertyReader) : ∃ e, r.content pick line.text = .error e := by
  rw [PropertyReader.content]
  cases hr₁ : r.noteName line.text with
  | error e => exact ⟨e, rfl⟩
  | ok r₁ =>
    change ∃ e, r₁.noteLine pick line.text = .error e
    have hline := noteLine_line hclear pick r₁
    split at hline
    · rename_i hvalues
      -- a name has been read, so the line is readable
      refine absurd ⟨hvalues, fun hcontains => ?_⟩ hread
      rw [PropertyReader.noteName, if_pos hcontains] at hr₁
      cases hname : readName line.text with
      | error e =>
        rw [hname] at hr₁
        cases hr₁
      | ok name => rfl
    · exact ⟨_, hline⟩

theorem foldlM_content_ok {lines : List Line} (hclear : ∀ line ∈ lines, line.Clear)
    (hread : ∀ line ∈ lines, line.Readable) (pick : Picker) (r : PropertyReader) :
    ∃ r', (lines.map Line.text).foldlM (PropertyReader.content pick) r = .ok r' ∧
      r'.js = r.js ++ lines.flatMap (Line.code pick) := by
  induction lines generalizing r with
  | nil => exact ⟨r, rfl, (List.append_nil _).symm⟩
  | cons line lines ih =>
    rw [List.forall_mem_cons] at hclear hread
    obtain ⟨r₁, hr₁, hjs₁⟩ := content_ok hclear.1 hread.1 pick r
    obtain ⟨r', hr', hjs⟩ := ih hclear.2 hread.2 r₁
    refine ⟨r', ?_, by rw [hjs, hjs₁, List.flatMap_cons, List.append_assoc]⟩
    rw [List.map_cons, List.foldlM_cons, hr₁]
    exact hr'

theorem foldlM_content_error {lines : List Line} (hclear : ∀ line ∈ lines, line.Clear)
    (hread : ¬ ∀ line ∈ lines, line.Readable) (pick : Picker) (r : PropertyReader) :
    ∃ e, (lines.map Line.text).foldlM (PropertyReader.content pick) r = .error e := by
  induction lines generalizing r with
  | nil => exact absurd (List.forall_mem_nil _) hread
  | cons line lines ih =>
    rw [List.forall_mem_cons] at hclear hread
    rw [List.map_cons, List.foldlM_cons]
    by_cases hline : line.Readable
    · obtain ⟨r₁, hr₁, -⟩ := content_ok hclear.1 hline pick r
      rw [hr₁]
      exact ih hclear.2 (fun h => hread ⟨hline, h⟩) r₁
    · obtain ⟨e, he⟩ := content_error hclear.1 hline pick r
      rw [he]
      exact ⟨e, rfl⟩

/-- Blank lines, comments and the spaces at the ends of lines make no difference. -/
theorem foldlM_line_eq (pick : Picker) (file : List Text) (r : PropertyReader) :
    file.foldlM (PropertyReader.line pick) r =
      ((file.map Text.pyStrip).filter fun line => line ≠ [] ∧ line.head? ≠ some '#').foldlM
        (PropertyReader.content pick) r := by
  induction file generalizing r with
  | nil => rfl
  | cons line file ih =>
    rw [List.map_cons, List.foldlM_cons, PropertyReader.line]
    by_cases hblank : Text.pyStrip line = [] ∨ (Text.pyStrip line).head? = some '#'
    · rw [List.filter_cons_of_neg (by simpa [imp_iff_not_or] using hblank)]
      simp only [if_pos hblank]
      exact ih r
    · rw [List.filter_cons_of_pos (by simpa [not_or] using hblank), List.foldlM_cons]
      simp only [if_neg hblank]
      cases r.content pick (Text.pyStrip line) with
      | error e => rfl
      | ok r₁ => exact ih r₁

section Document

variable {d : Doc} {lines : List Line} {file : List Text} (hfile : d.WrittenIn lines file)
  (hclear : ∀ line ∈ lines, line.Clear) {pick : Picker}

include hfile hclear

/-- The text that is read is the text of the document. -/
theorem foldlM_document (hread : ∀ line ∈ lines, line.Readable) :
    ∃ r, file.foldlM (PropertyReader.line pick) PropertyReader.start = .ok r ∧ r.js = d.code pick := by
  obtain ⟨r, hr, hjs⟩ := foldlM_content_ok hclear hread pick PropertyReader.start
  refine ⟨r, by rw [foldlM_line_eq, hfile.stripped, hr], ?_⟩
  have hcode : lines.flatMap (Line.code pick) = (lines.flatMap Line.glyphs).flatMap (Glyph.code pick) := by
    simp only [List.flatMap_assoc, Line.flatMap_glyphs]
  rw [hjs, hcode, hfile.glyphs, Doc.flatMap_glyphs]
  exact List.nil_append _

/-- What the constructor reads from the file of a document, if it succeeds. -/
theorem defaultObject_of_init {tc : Testcases} (h : Testcases.init pick file = .ok tc) :
    (∀ line ∈ lines, line.Readable) ∧ d.closed = true ∧
      tc.defaultObject = d.fill (Placeholder.chosen pick) := by
  obtain ⟨r, hr, hobj, -⟩ := init_ok h
  have hread : ∀ line ∈ lines, line.Readable := by
    by_contra hnot
    obtain ⟨e, he⟩ := foldlM_content_error hclear hnot pick PropertyReader.start
    rw [foldlM_line_eq, hfile.stripped, he] at hr
    cases hr
  obtain ⟨r', hr', hjs⟩ := foldlM_document hfile hclear hread
  obtain rfl : r' = r := Except.ok.inj (hr'.symm.trans hr)
  rw [hjs, loads_code] at hobj
  cases hclosed : d.closed with
  | false =>
    rw [hclosed] at hobj
    cases hobj
  | true =>
    rw [hclosed] at hobj
    exact ⟨hread, rfl, (Option.some.inj hobj).symm⟩

end Document

/-- A string on a line. -/
def stringDoc (s : Text) (h : s.all isPlainChar = true) : Doc :=
  .inline ('"' :: s ++ ['"']) (.str s) fun _ =>
    congrArg Json.Reader.settle ((Json.Reader.isBody_of_plain (List.all_eq_true.1 h)).run_value (Or.inl rfl))

/-- A key with a space behind its colon. -/
def plainKey (s : Text) (h : s.all isPlainChar = true) : Key :=
  ⟨s, s, noBlank, oneBlank, Json.Reader.isBody_of_plain (List.all_eq_true.1 h)⟩

/-- An array of documents. -/
def arrayDoc (ds : List Doc) : Doc := .arr (ds.foldr (Items.cons noBlank · noBlank ·) (.nil noBlank))

/-- A node with a name. -/
def nodeDoc (name : Text) (h : name.all isPlainChar = true) (rest : Members) : Doc :=
  .obj (.member noBlank (plainKey "name".toList (by decide)) (stringDoc name h) noBlank rest)

def opMember (rest : Members) : Members :=
  .member noBlank (plainKey "op".toList (by decide)) (arrayDoc [stringDoc "update".toList (by decide)]) noBlank rest

/-- The last key of an object, with an array. -/
def arrayMember (key : Text) (h : key.all isPlainChar = true) (ds : List Doc) : Members :=
  .member noBlank (plainKey key h) (arrayDoc ds) noBlank (.nil noBlank)

/-- The nodes below a node. -/
def subMember (ds : List Doc) : Members := arrayMember "sub".toList (by decide) ds

/-- A document with one testcase and one message. -/
def messageDoc (attributes : List Doc) : Doc :=
  .obj (arrayMember "testcases".toList (by decide) [.obj (arrayMember "testcase".toList (by decide)
    [nodeDoc "ike_auth_1_response".toList (by decide) (subMember attributes)])])

/-- One correct value of two possible ones. -/
def oneOfTwo : Placeholder := .listed [numberElement 1, numberElement 2] (some (noBlank, [numberElement 1]))

def valueLast : Doc :=
  messageDoc [nodeDoc "notify".toList (by decide) (opMember (.value noBlank oneBlank oneOfTwo none (.nil noBlank)))]

def valueFirst : Doc :=
  messageDoc [nodeDoc "notify".toList (by decide)
    (.value noBlank oneBlank oneOfTwo (some noBlank) (opMember (.nil noBlank)))]

def messageLines (inner : List Line) : List Line :=
  [.plain "\x7b".toList, .plain "\"testcases\": [\x7b".toList, .plain "\"testcase\": [\x7b".toList,
    .plain "\"name\": \"ike_auth_1_response\",".toList, .plain "\"sub\": [\x7b".toList] ++ inner ++
    [.plain "\x7d]\x7d]\x7d]\x7d".toList]

def valueLastLines : List Line :=
  messageLines [.plain "\"name\": \"notify\",".toList, .plain "\"op\": [\"update\"],".toList,
    .value noBlank oneBlank oneOfTwo none]

def valueFirstLines : List Line :=
  messageLines [.plain "\"name\": \"notify\",".toList, .value noBlank oneBlank oneOfTwo (some noBlank),
    .plain "\"op\": [\"update\"]".toList]

/-- The lines of a file with a comment and a blank line in front. -/
def commented (lines : List Line) : List Text :=
  "# one of two values".toList :: "  ".toList :: lines.map fun line => "  ".toList ++ line.text

end Scripts

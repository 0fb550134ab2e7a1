import Mathlib.Data.List.ReduceOption
import VoWiFi.Scripts.Positions
import VoWiFi.Scripts.Proofs.GenerateProofs
import VoWiFi.Scripts.Proofs.PropertyFileProofs

/-!
# When adversarial values are not correct

The values that are noted for an attribute are those of its line, unless its name is noted again. What is
generated for it are the possible values that are not among the correct ones as they are read. For numbers
this is the same as being among the correct ones.
-/

namespace Scripts

open RoseTree (getList modifyAtList)

/-! ## What is noted -/

/-- The values that are noted for a name stay, unless it is noted again. -/
def NotesMore (r r' : PropertyReader) : Prop :=
  ∃ noted, r'.targets = r.targets ++ noted ∧ ∀ target ∉ noted,
    r'.possibleValues target = r.possibleValues target ∧ r'.correctValues target = r.correctValues target

theorem NotesMore.refl (r : PropertyReader) : NotesMore r r :=
  ⟨[], (List.append_nil _).symm, fun _ _ => ⟨rfl, rfl⟩⟩

theorem NotesMore.trans {r r₁ r₂ : PropertyReader} (h : NotesMore r r₁) (h₁ : NotesMore r₁ r₂) :
    NotesMore r r₂ := by
  obtain ⟨noted, htargets, hsame⟩ := h
  obtain ⟨noted₁, htargets₁, hsame₁⟩ := h₁
  refine ⟨noted ++ noted₁, by rw [htargets₁, htargets, List.append_assoc], fun target hmem => ?_⟩
  rw [List.mem_append, not_or] at hmem
  obtain ⟨hp, hc⟩ := hsame target hmem.1
  obtain ⟨hp₁, hc₁⟩ := hsame₁ target hmem.2
  exact ⟨hp₁.trans hp, hc₁.trans hc⟩

theorem notesMore_noteValues (pick : Picker) (r : PropertyReader) (possible correct : List Value) :
    NotesMore r (r.noteValues pick possible correct) := by
  refine ⟨[r.target], rfl, fun target hmem => ?_⟩
  have hne : target ≠ r.target := fun heq => hmem (List.mem_singleton.2 heq)
  exact ⟨Function.update_of_ne hne _ _, Function.update_of_ne hne _ _⟩

theorem notesMore_line {pick : Picker} {r r' : PropertyReader} {line : Text}
    (h : r.line pick line = .ok r') : NotesMore r r' := by
  rcases line_ok h with rfl | ⟨r₁, hname, hline⟩
  · exact NotesMore.refl r'
  · have h₁ : NotesMore r r₁ := by
      rcases noteName_ok hname with rfl | ⟨name, rfl⟩
      · exact NotesMore.refl r₁
      · exact ⟨[], (List.append_nil _).symm, fun _ _ => ⟨rfl, rfl⟩⟩
    refine h₁.trans ?_
    rcases noteLine_ok hline with rfl | ⟨values, possible, correct, -, rfl⟩
    · exact ⟨[], (List.append_nil _).symm, fun _ _ => ⟨rfl, rfl⟩⟩
    · exact notesMore_noteValues pick r₁ possible correct

theorem notesMore_foldlM {pick : Picker} {file : List Text} {r r' : PropertyReader}
    (h : file.foldlM (PropertyReader.line pick) r = .ok r') : NotesMore r r' :=
  foldlM_line_keeps (fun hline hmore => hmore.trans (notesMore_line hline)) h (NotesMore.refl r)

/-- What `update_values` takes from an object of `Testcases`. -/
theorem property_eq_some {tc : Testcases} {p : Property} (h : tc.property = some p) :
    testcasesOfJson tc.defaultObject = some p.testcases ∧ p.targets = tc.targets.reduceOption ∧
      (p.possibleValues = fun target => (tc.possibleValues (some target)).getD []) ∧
      p.correctValues = fun target => (tc.correctValues (some target)).getD [] := by
  simp only [Testcases.property, Option.bind_eq_bind, Option.bind_eq_some_iff] at h
  obtain ⟨m, -, ts, hts, heq⟩ := h
  cases heq
  exact ⟨hts, rfl, rfl, rfl⟩

/-- A line with the values of an attribute, and without `name` in it. -/
theorem line_value {pick : Picker} {r : PropertyReader} {line : Text} {left right : Blank} {p : Placeholder}
    {comma : Option Blank} (hline : Text.pyStrip line = (Line.value left right p comma).text)
    (hname : Text.contains (Text.pyStrip line) "name".toList = false) : r.line pick line =
      if p.possibleValues = [] then .error .indexError
      else .ok (r.noteValues pick p.possibleValues.dedup p.takenCorrect.dedup) := by
  have hcontent : ¬ (Text.pyStrip line = [] ∨ (Text.pyStrip line).head? = some '#') := by
    rw [hline]
    rintro (h | h)
    · cases h
    · cases h
  have hnote : r.noteName (Text.pyStrip line) = .ok r := by
    rw [PropertyReader.noteName, hname, if_neg Bool.false_ne_true]
  rw [PropertyReader.line]
  simp only [if_neg hcontent, PropertyReader.content, hnote]
  change r.noteLine pick (Text.pyStrip line) = _
  rw [hline, noteLine_value]

/-- The values noted for an attribute whose name is noted once. -/
theorem values_of_hasValueLine {pick : Picker} {file : List Text} {target : Text} {ps cs : List Element}
    (h : HasValueLine pick file target ps cs) {tc : Testcases} (hinit : Testcases.init pick file = .ok tc)
    (honce : tc.targets.count (some target) = 1) :
    tc.possibleValues (some target) = some (ps.map Element.value).dedup ∧
      tc.correctValues (some target) = some (if cs = [] then [.str []] else cs.map Element.taken).dedup := by
  obtain ⟨before, line, after, r, rfl, hbefore, htarget, hname, left, right, gap, comma, hline⟩ := h
  obtain ⟨r', hr', -, htargets, hpossible, hcorrect⟩ := init_ok hinit
  rw [List.foldlM_append, hbefore] at hr'
  change (line :: after).foldlM (PropertyReader.line pick) r = _ at hr'
  rw [List.foldlM_cons, line_value hline hname] at hr'
  split at hr'
  · cases hr'
  · change after.foldlM (PropertyReader.line pick) _ = _ at hr'
    obtain ⟨noted, hnoted, hsame⟩ := notesMore_foldlM hr'
    -- the name is not noted behind the line
    have hnot : some target ∉ noted := by
      intro hmem
      have hpos := List.count_pos_iff.2 hmem
      rw [htargets, hnoted, PropertyReader.noteValues, htarget, List.count_append, List.count_append,
        List.count_singleton_self] at honce
      omega
    obtain ⟨hp, hc⟩ := hsame _ hnot
    rw [hpossible, hcorrect, hp, hc]
    simp only [PropertyReader.noteValues, htarget, Function.update_self]
    exact ⟨rfl, rfl⟩

/-! ## What is generated -/

theorem setId_eq_modifyAtList (id : Text) (testcase : List Obj) :
    setId id testcase = modifyAtList (fun o => { o with id := some id }) (0, []) testcase := by
  rcases testcase with _ | ⟨⟨o, sub⟩, os⟩
  · rfl
  · rfl

/-- A copy differs from the testcase at the position that is found, and in the identifier. -/
theorem mutate_eq_map (p : Property) (tnum : ℕ) (t : List Obj) (target : Text) (m : Mutation) :
    mutate p tnum t target m = (targetPos target t).map fun pos =>
      ⟨target, m, setId (m.id p tnum) (modifyAtList m.apply pos t)⟩ := by
  rw [mutate, changeTarget, RoseTree.modifyList_eq_map, Option.map_map]
  rfl

theorem targetPos_modifyAtList {f : Fields → Fields} (hf : ∀ o, (f o).name = o.name) (target : Text)
    (pos : ℕ × List ℕ) (t : List Obj) : targetPos target (modifyAtList f pos t) = targetPos target t :=
  RoseTree.pathList_modifyAtList (fun o => by rw [hf]) pos t

theorem targetPos_setId (target id : Text) (testcase : List Obj) :
    targetPos target (setId id testcase) = targetPos target testcase := by
  rw [setId_eq_modifyAtList]
  refine targetPos_modifyAtList ?_ target _ testcase
  exact fun _ => rfl

/-- The identifier is the only key that is set. -/
theorem map_getList_setId {β : Type} (f : Fields → β) (hf : ∀ o id, f { o with id := id } = f o) (id : Text)
    (pos : ℕ × List ℕ) (testcase : List Obj) :
    (getList pos (setId id testcase)).map f = (getList pos testcase).map f := by
  rw [setId_eq_modifyAtList, RoseTree.getList_modifyAtList]
  split
  · rename_i hpos
    rw [hpos, Option.map_map]
    exact congrArg (Option.map · _) (funext fun o => hf o _)
  · rfl

/-- A copy with a value set carries this value. -/
theorem carried_of_mutate {p : Property} {tnum : ℕ} {t : List Obj} {target : Text} {v : Value}
    {g : Generated} (h : mutate p tnum t target (.update v) = some g) :
    g.target = target ∧ g.carried = some v := by
  rw [mutate_eq_map] at h
  obtain ⟨pos, hpos, rfl⟩ := Option.map_eq_some_iff.1 h
  refine ⟨rfl, ?_⟩
  obtain ⟨o, ho, -⟩ := RoseTree.getList_of_pathList hpos
  have hmoved : targetPos target (setId ((Mutation.update v).id p tnum)
      (modifyAtList (Mutation.update v).apply pos t)) = some pos := by
    have hname : ∀ o, ((Mutation.update v).apply o).name = o.name := fun _ => rfl
    rw [targetPos_setId, targetPos_modifyAtList hname, hpos]
  change Option.bind (RoseTree.findList _ _) _ = _
  rw [RoseTree.findList_eq_bind]
  change Option.bind (Option.bind (targetPos target _) _) _ = _
  have hnode : (getList pos (setId ((Mutation.update v).id p tnum)
      (modifyAtList (Mutation.update v).apply pos t))).map Fields.value = some (some v) := by
    rw [map_getList_setId Fields.value fun _ _ => rfl, RoseTree.getList_modifyAtList, if_pos rfl, ho]
    rfl
  obtain ⟨o', ho', hv⟩ := Option.map_eq_some_iff.1 hnode
  rw [hmoved, Option.bind_some, ho']
  exact hv

/-- The testcases generated for an attribute carry the values that are read as possible and not as
correct. -/
theorem exists_carried_iff {p : Property} {target : Text} {v : Value} :
    (∃ g ∈ updateValues p, g.target = target ∧ g.carried = some v) ↔
      ∃ t ∈ p.testcases, (target, v) ∈ updates p t := by
  constructor
  · rintro ⟨g, hg, rfl, hcarried⟩
    obtain ⟨t, ht, ⟨target, v'⟩, hu, tnum, hmutate⟩ := mem_updateValues hg
    obtain ⟨htarget, hcarried'⟩ := carried_of_mutate hmutate
    rw [hcarried] at hcarried'
    obtain rfl := Option.some.inj hcarried'
    rw [htarget]
    exact ⟨t, ht, hu⟩
  · rintro ⟨t, ht, hu⟩
    obtain ⟨tnum, hmem⟩ := exists_mem_updateValues ht hu
    obtain ⟨g, hg, -⟩ := exists_mutate (mem_updates.1 hu).2.1 p tnum (.update v)
    exact ⟨g, hmem g hg, carried_of_mutate hg⟩

/-- What is generated separates the values exactly if a possible value is read as correct exactly if it is. -/
theorem separates_iff_of_values {p : Property} {target : Text} (htarget : target ∈ p.targets)
    (hallowed : ∃ t ∈ p.testcases, allowedTarget "update".toList t target = true)
    {possible correct : List Value} (hpossible : ∀ v, v ∈ p.possibleValues target ↔ v ∈ possible) :
    Separates p target possible correct ↔
      ∀ v ∈ possible, v ∈ p.correctValues target ↔ v ∈ correct := by
  have hgenerated : ∀ v, (∃ g ∈ updateValues p, g.target = target ∧ g.carried = some v) ↔
      v ∈ possible ∧ v ∉ p.correctValues target := by
    intro v
    rw [exists_carried_iff, ← hpossible]
    constructor
    · rintro ⟨t, ht, hu⟩
      exact (mem_updates.1 hu).2.2
    · intro hv
      obtain ⟨t, ht, hallowed⟩ := hallowed
      exact ⟨t, ht, mem_updates.2 ⟨htarget, hallowed, hv⟩⟩
  constructor
  · rintro ⟨hexcluded, hcarried⟩ v hv
    constructor
    · intro hread
      by_contra hcorrect
      exact ((hgenerated v).1 (hcarried v hv hcorrect)).2 hread
    · intro hcorrect
      by_contra hread
      obtain ⟨g, hg, hgt, hgv⟩ := (hgenerated v).2 ⟨hv, hread⟩
      exact hexcluded g hg hgt v hcorrect hgv
  · intro h
    constructor
    · intro g hg hgt v hcorrect hgv
      obtain ⟨hv, hread⟩ := (hgenerated v).1 ⟨g, hg, hgt, hgv⟩
      exact hread ((h v hv).2 hcorrect)
    · intro v hv hcorrect
      exact (hgenerated v).2 ⟨hv, fun hread => hcorrect ((h v hv).1 hread)⟩

/-! ## Strings and numbers -/

/-- A text with quotation marks in it is no string of an element. -/
theorem str_text_not_mem {ps : List Element} {e : Element} {s : Text} (he : e.value = .str s) :
    Value.str e.text ∉ ps.map Element.value := by
  intro hmem
  obtain ⟨e', -, he'⟩ := List.mem_map.1 hmem
  have hquote : '"' ∈ e.text := by
    rw [Element.text, he, Value.literal]
    simp
  exact absurd (e'.plain _ he' '"' hquote) (by decide)

/-- A possible value is read as correct exactly if it is correct, apart from strings. -/
theorem taken_iff {ps cs : List Element} :
    (∀ v ∈ ps.map Element.value, v ∈ (if cs = [] then [.str []] else cs.map Element.taken) ↔
      v ∈ cs.map Element.value) ↔
      (∀ s, .str s ∈ ps.map Element.value → .str s ∉ cs.map Element.value) ∧
        (cs = [] → .str [] ∉ ps.map Element.value) := by
  have hint : ∀ n, .int n ∈ (if cs = [] then [.str []] else cs.map Element.taken) ↔
      .int n ∈ cs.map Element.value := by
    intro n
    by_cases hcs : cs = []
    · rw [if_pos hcs, hcs]
      simp
    · rw [if_neg hcs, List.mem_map, List.mem_map]
      refine exists_congr fun e => and_congr_right fun _ => ?_
      rw [Element.taken]
      cases he : e.value with
      | int m => rfl
      | str s => exact iff_of_false (fun h => by cases h) (fun h => by cases h)
  have hstr : ∀ s, .str s ∈ ps.map Element.value → .str s ∉ cs.map Element.taken := by
    intro s hs hmem
    obtain ⟨e, -, he⟩ := List.mem_map.1 hmem
    rw [Element.taken] at he
    cases hv : e.value with
    | int m =>
      rw [hv] at he
      cases he
    | str s' =>
      rw [hv] at he
      cases he
      exact str_text_not_mem hv hs
  constructor
  · intro h
    constructor
    · intro s hs hcorrect
      have hcs : cs ≠ [] := by
        rintro rfl
        exact absurd hcorrect List.not_mem_nil
      have htaken := (h _ hs).2 hcorrect
      rw [if_neg hcs] at htaken
      exact hstr s hs htaken
    · intro hcs hempty
      have hcorrect := (h _ hempty).1 (by rw [if_pos hcs]; exact List.mem_singleton_self _)
      rw [hcs] at hcorrect
      exact absurd hcorrect List.not_mem_nil
  · rintro ⟨hdisjoint, hempty⟩ (n | s) hv
    · exact hint n
    · refine iff_of_false ?_ (hdisjoint s hv)
      by_cases hcs : cs = []
      · rw [if_pos hcs, List.mem_singleton]
        rintro heq
        exact hempty hcs (heq ▸ hv)
      · rw [if_neg hcs]
        exact hstr s hv

/-- A file with one testcase, one message and one attribute. -/
def attributeFile (line : Text) : List Text :=
  attributeHead ++ line :: ["  \x7d".toList, "]".toList, "\x7d]".toList, "\x7d]".toList, "\x7d".toList]
where
  attributeHead : List Text :=
    ["\x7b".toList, "\"testcases\": [\x7b".toList, "\"testcase\": [\x7b".toList,
      "\"name\": \"ike_auth_1_response\",".toList, "\"sub\": [".toList, "  \x7b".toList,
      "  \"name\": \"notify\",".toList, "  \"op\": [\"update\"],".toList]

/-- A string of one letter. -/
def letterElement (c : Char) (h : isElementChar c = true) : Element :=
  ⟨noBlank, .str [c], noBlank, fun s hs => by
    cases hs
    exact List.forall_mem_singleton.2 h⟩

def attributeLine (ps cs : List Element) : Text :=
  (Line.value noBlank oneBlank (.listed ps (some (oneBlank, cs))) none).text

def notify : Text := "notify".toList

theorem hasValueLine_attributeFile {ps cs : List Element}
    (hstrip : Text.pyStrip (attributeLine ps cs) = attributeLine ps cs)
    (hname : Text.contains (attributeLine ps cs) "name".toList = false) :
    HasValueLine firstPicker (attributeFile (attributeLine ps cs)) notify ps cs := by
  have hhead : (attributeFile.attributeHead.foldlM (PropertyReader.line firstPicker)
      PropertyReader.start).toOption.bind (·.target) = some notify := by decide +kernel
  cases hr : attributeFile.attributeHead.foldlM (PropertyReader.line firstPicker) PropertyReader.start with
  | error e =>
    rw [hr] at hhead
    cases hhead
  | ok r =>
    rw [hr] at hhead
    exact ⟨_, _, _, r, rfl, hr, hhead, by rw [hstrip]; exact hname, noBlank, oneBlank, oneBlank, none, hstrip⟩

end Scripts

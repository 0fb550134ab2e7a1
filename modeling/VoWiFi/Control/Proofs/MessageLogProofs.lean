import VoWiFi.Control.ReportTree

/-!
# Reports are read back

A subtree of a report appends its `MessageLog` to the node the reader is at and leaves everything else
as it was (`readThrough_lines`), by induction over the tree. The line that closes the whole report
empties the stack, and the loop ends there.
-/

namespace Control

/-! ## Lines that do not end the loop -/

/-- The variables after lines none of which ends the loop. -/
def LogReader.readThrough (r : LogReader) : List Text → Option LogReader
  | [] => some r
  | result :: lines =>
    if isReport result then
      match r.readLine result with
      | .error _ => none
      | .ok r' => if r'.stack = 0 then none else r'.readThrough lines
    else r.readThrough lines

theorem readThrough_cons_eq_some {r r' : LogReader} {l : Text} {ls : List Text}
    (h : r.readThrough (l :: ls) = some r') :
    (¬ isReport l ∧ r.readThrough ls = some r') ∨
      ∃ r₁, isReport l ∧ r.readLine l = .ok r₁ ∧ r₁.stack ≠ 0 ∧ r₁.readThrough ls = some r' := by
  rw [LogReader.readThrough] at h
  by_cases hl : isReport l
  · rw [if_pos hl] at h
    cases hr : r.readLine l with
    | error print =>
      simp only [hr] at h
      cases h
    | ok r₁ =>
      simp only [hr] at h
      by_cases hstack : r₁.stack = 0
      · rw [if_pos hstack] at h
        cases h
      · rw [if_neg hstack] at h
        exact .inr ⟨r₁, hl, rfl, hstack, h⟩
  · rw [if_neg hl] at h
    exact .inl ⟨hl, h⟩

theorem readThrough_cons {r r₁ : LogReader} {l : Text} (hl : isReport l) (hr : r.readLine l = .ok r₁)
    (hstack : r₁.stack ≠ 0) (ls : List Text) : r.readThrough (l :: ls) = r₁.readThrough ls := by
  simp only [LogReader.readThrough, hl, hr, hstack, if_true, if_false]

theorem readThrough_append {r r' : LogReader} {ls : List Text} (h : r.readThrough ls = some r')
    (ms : List Text) : r.readThrough (ls ++ ms) = r'.readThrough ms := by
  induction ls generalizing r with
  | nil =>
    obtain rfl := Option.some.inj h
    rfl
  | cons l ls ih =>
    rw [List.cons_append]
    rcases readThrough_cons_eq_some h with ⟨hl, hrest⟩ | ⟨r₁, hl, hr, hstack, hrest⟩
    · rw [LogReader.readThrough, if_neg hl, ih hrest]
    · rw [readThrough_cons hl hr hstack, ih hrest]

/-- Short lines make no difference. -/
theorem readThrough_filter (r : LogReader) (ls : List Text) :
    r.readThrough (ls.filter isReport) = r.readThrough ls := by
  induction ls generalizing r with
  | nil => rfl
  | cons l ls ih =>
    by_cases hl : isReport l
    · rw [List.filter_cons_of_pos hl]
      simp only [LogReader.readThrough, hl, if_true, ih]
    · rw [List.filter_cons_of_neg hl, ih, LogReader.readThrough, if_neg hl]

theorem loop_append {r r' : LogReader} {ls : List Text} (h : r.readThrough ls = some r')
    (ms : List Text) : r.loop (ls ++ ms) = r'.loop ms := by
  induction ls generalizing r with
  | nil =>
    obtain rfl := Option.some.inj h
    rfl
  | cons l ls ih =>
    rw [List.cons_append, LogReader.loop]
    rcases readThrough_cons_eq_some h with ⟨hl, hrest⟩ | ⟨r₁, hl, hr, hstack, hrest⟩
    · rw [if_neg hl, ih hrest]
    · simp only [hl, hr, hstack, if_true, if_false, ih hrest]

/-! ## The lines of a report -/

section Lines

variable (type : Char) (spis : LineSpis) (text : Text)

theorem length_reportLine : (reportLine type spis text).length = textOffset + text.length := by
  simp only [reportLine, List.length_append, List.length_cons, spis.length_ispi, spis.length_rspi,
    textOffset]

theorem isReport_reportLine : isReport (reportLine type spis text) = true := by
  rw [isReport, length_reportLine, textOffset]
  exact decide_eq_true (by omega)

theorem drop_reportLine : (reportLine type spis text).drop textOffset = text := by
  have hlen : (type :: spis.ispi ++ spis.rspi).length = textOffset := by
    simp [spis.length_ispi, spis.length_rspi, textOffset]
  rw [reportLine, ← hlen, List.drop_left]

theorem oneLine_reportLine (htype : type ≠ '\r' ∧ type ≠ '\n') (htext : Text.OneLine text) :
    Text.OneLine (reportLine type spis text) := by
  rw [reportLine, Text.oneLine_append, List.cons_append, Text.oneLine_cons, Text.oneLine_append]
  exact ⟨⟨htype, spis.line_ispi, spis.line_rspi⟩, htext⟩

theorem lineCode_reportLine : lineCode (reportLine type spis text) = type.toNat := rfl

theorem take_ispi : ((reportLine type spis text).drop 1).take 16 = spis.ispi := by
  rw [reportLine, List.append_assoc, List.cons_append, List.drop_one, List.tail_cons]
  exact List.take_left' spis.length_ispi

theorem take_rspi : ((reportLine type spis text).drop 17).take 16 = spis.rspi := by
  have hlen : (type :: spis.ispi).length = 17 := by
    rw [List.length_cons, spis.length_ispi]
  rw [reportLine, List.append_assoc, List.drop_left' hlen]
  exact List.take_left' spis.length_rspi

end Lines

/-! ## Single lines -/

/-- The fields of the node for an attribute. -/
def attributeItem (name : Word) : Option (ValueType × Word) → LogItem
  | none => ⟨.attribute, some name.1, .none, none⟩
  | some (vtype, value) => ⟨.attribute, some name.1, vtype, some value.1⟩

theorem attributeText_ne_nil (name : Word) (value : Option (ValueType × Word)) :
    attributeText name value ≠ [] := by
  cases value with
  | none => exact name.2.1
  | some v =>
    intro h
    simp only [attributeText, List.append_assoc] at h
    exact name.2.1 (List.append_eq_nil_iff.1 h).1

theorem plain_typeDigits (vtype : ValueType) :
    ':' ∉ Nat.toDigits 10 vtype.getValueTypeAsInteger ∧
      Nat.toDigits 10 vtype.getValueTypeAsInteger ≠ [] ∧
        Text.OneLine (Nat.toDigits 10 vtype.getValueTypeAsInteger) := by
  cases vtype <;> exact ⟨by decide, nofun, by decide⟩

theorem parseInt_typeDigits (vtype : ValueType) :
    (Text.parseInt (Nat.toDigits 10 vtype.getValueTypeAsInteger)).map ValueType.ofNumber =
      some vtype := by
  cases vtype <;> rfl

/-- A name, a value type and a value are stored, unless the value is empty, which leaves only two
parts. -/
theorem setFields_parts (it : LogItem) {name value : Text} (vtype : ValueType) (hname : ':' ∉ name)
    (hvalue : ':' ∉ value) :
    it.setFields
        (name ++ ':' :: Nat.toDigits 10 vtype.getValueTypeAsInteger ++ ':' :: value) =
      some (if value = [] then { it with name := some name }
        else ⟨it.type, some name, vtype, some value⟩) := by
  obtain ⟨hcolon, hne, -⟩ := plain_typeDigits vtype
  have hsplit : Text.split ':'
      (name ++ ':' :: Nat.toDigits 10 vtype.getValueTypeAsInteger ++ ':' :: value) =
        name :: Nat.toDigits 10 vtype.getValueTypeAsInteger :: Text.split ':' value := by
    have htail := Text.split_cons hcolon (t := value) (.inl hne)
    rw [List.append_assoc, List.cons_append, Text.split_cons hname, htail]
    rw [htail]
    exact .inr nofun
  rw [LogItem.setFields, hsplit]
  by_cases hnil : value = []
  · rw [if_pos hnil, hnil, Text.split_nil]
  · obtain ⟨n, hn, hvtype⟩ := Option.map_eq_some_iff.1 (parseInt_typeDigits vtype)
    rw [if_neg hnil, Text.split_single hvalue hnil]
    simp only [hn, Option.map_some, hvtype]

theorem store_attributeText (name : Word) (value : Option (ValueType × Word)) :
    (LogItem.new .attribute).store (attributeText name value) = some (attributeItem name value) := by
  rw [LogItem.store, if_neg (attributeText_ne_nil name value)]
  obtain ⟨name, hne, hcolon, -⟩ := name
  cases value with
  | none =>
    simp only [attributeText, LogItem.setFields, Text.split_single hcolon hne]
    rfl
  | some v =>
    obtain ⟨vtype, value, hvne, hvcolon, -⟩ := v
    refine (setFields_parts _ vtype hcolon hvcolon).trans ?_
    rw [if_neg hvne]
    rfl

theorem store_name (type : MessageLogType) (name : Word) :
    (LogItem.new type).store name.1 = some ⟨type, some name.1, .none, none⟩ := by
  obtain ⟨name, hne, hcolon, -⟩ := name
  simp only [LogItem.store, hne, if_false, LogItem.setFields, Text.split_single hcolon hne]
  rfl

theorem setFields_type {it it' : LogItem} {rstr : Text} (h : it.setFields rstr = some it') :
    it'.type = it.type := by
  rw [LogItem.setFields] at h
  split at h
  · cases h
  · obtain ⟨n, -, rfl⟩ := Option.map_eq_some_iff.1 h
    rfl
  · obtain rfl := Option.some.inj h
    rfl

theorem store_type {it it' : LogItem} {rstr : Text} (h : it.store rstr = some it') :
    it'.type = it.type := by
  rw [LogItem.store] at h
  split at h
  · obtain rfl := Option.some.inj h
    rfl
  · exact setFields_type h

/-- What a line does, given what its type and its text do. -/
theorem readLine_reportLine {r : LogReader} {type : Char} {m : Cursor LogItem} {ispi rspi : Option Text}
    {depth : ℤ} {stack : ℕ} {text : Text} {it : LogItem} (spis : LineSpis)
    (hmove : r.move type.toNat = some ⟨some m, ispi, rspi, depth, stack⟩)
    (hstore : m.label.store text = some it) :
    r.readLine (reportLine type spis text) =
      .ok ⟨if it.type = .attribute then (m.setLabel it).parentLast? else some (m.setLabel it),
        ispi.or (some spis.ispi), rspi.or (some spis.rspi), depth, stack⟩ := by
  have hlen : ¬ (reportLine type spis text).length < textOffset := by
    rw [length_reportLine]
    omega
  simp only [LogReader.readLine, lineCode_reportLine, hmove, hlen, if_false, drop_reportLine, hstore,
    take_ispi, take_rspi]

section Step

variable {c : Cursor LogItem} {i s : Text} {d : ℤ} {n : ℕ} (spis : LineSpis)

theorem readLine_attribute {text : Text} {it : LogItem}
    (hstore : (LogItem.new .attribute).store text = some it) :
    LogReader.readLine ⟨some c, some i, some s, d, n⟩ (reportLine '\x01' spis text) =
      .ok ⟨some (c.append [.node it []]), some i, some s, d, n⟩ := by
  have htype : it.type = .attribute := store_type hstore
  have hparent : ((c.addSub (.new .attribute)).setLabel it).parentLast? =
      some (c.append [.node it []]) :=
    Cursor.parentLast?_addSub_append c _ []
  rw [readLine_reportLine spis (m := c.addSub (.new .attribute)) rfl hstore, if_pos htype, hparent]
  rfl

theorem readLine_block (name : Word) :
    LogReader.readLine ⟨some c, some i, some s, d, n⟩ (reportLine '\x02' spis name.1) =
      .ok ⟨some (c.addSub ⟨.payload, some name.1, .none, none⟩), some i, some s, d + 1, n + 1⟩ := by
  rw [readLine_reportLine spis (m := c.addSub (.new .payload)) rfl (store_name .payload name)]
  rfl

theorem readLine_root {text : Text} {it : LogItem}
    (hstore : (LogItem.new .message).store text = some it) :
    LogReader.init.readLine (reportLine '\x02' spis text) =
      .ok ⟨some (.single it), some spis.ispi, some spis.rspi, 1, 1⟩ := by
  have htype : it.type ≠ .attribute := by
    rw [store_type hstore]
    nofun
  rw [readLine_reportLine spis (m := .single (.new .message)) rfl hstore, if_neg htype]
  rfl

/-- The last line of a block moves to the parent, if there is one. -/
theorem readLine_last {p : Cursor LogItem} (hp : c.parentLast?.getD c = p)
    (htype : p.label.type ≠ .attribute) :
    LogReader.readLine ⟨some c, some i, some s, d, n + 1⟩ (reportLine '\x03' spis []) =
      .ok ⟨some p, some i, some s, d - 1, n⟩ := by
  have hmove : LogReader.move ⟨some c, some i, some s, d, n + 1⟩ ('\x03').toNat =
      some ⟨some p, some i, some s, d - 1, n⟩ := by
    rw [← hp]
    rfl
  rw [readLine_reportLine spis hmove rfl, if_neg htype]
  rfl

end Step

/-! ## Whole reports -/

mutual

/-- The lines of a subtree append it to the node the reader is at. -/
theorem readThrough_lines {c : Cursor LogItem} (hc : c.label.type ≠ .attribute) (i s : Text) (d : ℤ)
    (n : ℕ) : ∀ t : ReportTree,
    LogReader.readThrough ⟨some c, some i, some s, d, n + 1⟩ t.lines =
      some ⟨some (c.append [t.log .payload]), some i, some s, d, n + 1⟩
  | .attribute spis name value => by
    have hlog : ReportTree.log .payload (.attribute spis name value) =
        .node (attributeItem name value) [] := by
      cases value <;> rfl
    rw [ReportTree.lines, hlog,
      readThrough_cons (isReport_reportLine _ _ _) (readLine_attribute spis (store_attributeText name value))
        n.succ_ne_zero]
    rfl
  | .block spis name sub last => by
    rw [ReportTree.lines, ReportTree.log, List.cons_append,
      readThrough_cons (isReport_reportLine _ _ _) (readLine_block spis name) (n + 1).succ_ne_zero]
    have hsub := readThrough_linesAll (c := c.addSub ⟨.payload, some name.1, .none, none⟩) nofun i s
      (d + 1) (n + 1) sub
    have hparent := Cursor.parentLast?_addSub_append c ⟨.payload, some name.1, .none, none⟩
      (ReportTree.logAll sub)
    have hlast := readLine_last (i := i) (s := s) (d := d + 1) (n := n + 1) last
      (congrArg (Option.getD · _) hparent) hc
    rw [readThrough_append hsub,
      readThrough_cons (isReport_reportLine _ _ _) hlast n.succ_ne_zero, add_sub_cancel_right]
    rfl

/-- The lines of several subtrees append them in order. -/
theorem readThrough_linesAll {c : Cursor LogItem} (hc : c.label.type ≠ .attribute) (i s : Text) (d : ℤ)
    (n : ℕ) : ∀ ts : List ReportTree,
    LogReader.readThrough ⟨some c, some i, some s, d, n + 1⟩ (ReportTree.linesAll ts) =
      some ⟨some (c.append (ReportTree.logAll ts)), some i, some s, d, n + 1⟩
  | [] => by
    rw [ReportTree.linesAll, ReportTree.logAll, Cursor.append_nil]
    rfl
  | t :: ts => by
    have ht := readThrough_lines hc i s d n t
    have hts := readThrough_linesAll (c := c.append [t.log .payload]) hc i s d n ts
    rw [ReportTree.linesAll, ReportTree.logAll, readThrough_append ht, hts, Cursor.append_append]
    rfl

end

theorem not_infix_indent {w : Text} (hw : 2 < w.length) : ¬ w <:+: [' ', ' '] := by
  intro hin
  have hle : w.length ≤ 2 := hin.length_le
  omega

theorem reviseReply_indent (reply : Option Reply) (rest : List Text) :
    reviseReply reply [' ', ' '] rest = reply := by
  have hretest : ¬ "retest_required:auth_failed".toList <:+: [' ', ' '] :=
    not_infix_indent (by decide)
  have hretransmission : ¬ ("retransmission:no_proposal_chosen".toList <:+: [' ', ' '] ∨
      "retransmission:invalid_ke_payload".toList <:+: [' ', ' ']) := by
    rintro (hin | hin)
    · exact not_infix_indent (by decide) hin
    · exact not_infix_indent (by decide) hin
  unfold reviseReply
  rw [if_neg hretest, if_neg hretransmission]

/-- The last line of a report ends it, and nothing behind that line is read. -/
theorem processResult_close {reporter : Text}
    (hreporter : "epdg".toList <:+: reporter ∨ "ims".toList <:+: reporter)
    {pre : List Text} {it : LogItem} {sub : List MessageLog} {i s : Text}
    (hread : LogReader.init.readThrough pre = some ⟨some ⟨it, sub, []⟩, some i, some s, 1, 1⟩)
    (htype : it.type ≠ .attribute) (last : LineSpis) (rest : List Text) :
    processResult reporter (pre ++ reportLine '\x03' last [] :: rest) =
      some ⟨.node it sub, some i, some s, [], rest⟩ := by
  have hclose := readLine_last (i := i) (s := s) (d := 1) (n := 0) last (c := ⟨it, sub, []⟩) rfl htype
  have hloop : LogReader.init.loop (pre ++ reportLine '\x03' last [] :: rest) =
      (.done ⟨some ⟨it, sub, []⟩, some i, some s, 1 - 1, 0⟩, [' ', ' '], rest) := by
    rw [loop_append hread, LogReader.loop, if_pos (isReport_reportLine _ _ _), hclose]
    simp only [if_true, drop_reportLine]
    rfl
  rw [processResult, if_pos hreporter, hloop]
  simp only [reviseReply_indent, replyOf]
  rfl

/-- The last of the lines that carry a report is the one that closes it, and the others carry the rest
of it. -/
theorem Carries.split {start last : LineSpis} {name : Word} {sub : List ReportTree} {ls : List Text}
    (h : Carries ls (.block start name sub last)) :
    ∃ pre, ls = pre ++ [reportLine '\x03' last []] ∧
      pre.filter isReport = reportLine '\x02' start name.1 :: ReportTree.linesAll sub := by
  have hlines := h.reports
  rw [ReportTree.lines] at hlines
  have hne : ls ≠ [] := by
    rintro rfl
    cases hlines
  obtain ⟨pre, l, rfl⟩ := (List.eq_nil_or_concat' ls).resolve_left hne
  have hl : isReport l := h.last l (by simp)
  rw [List.filter_append, List.filter_cons_of_pos hl, List.filter_nil] at hlines
  obtain ⟨hpre, hlast⟩ := List.append_inj' hlines rfl
  exact ⟨pre, by rw [List.head_eq_of_cons_eq hlast], hpre⟩

/-- A report is read as the tree it stands for, with the same names, value types, values and order of
children, and nothing behind its last line is read. -/
theorem processResult_report {reporter : Text} {start last : LineSpis} {name : Word}
    {sub : List ReportTree} {ls : List Text}
    (hreporter : "epdg".toList <:+: reporter ∨ "ims".toList <:+: reporter)
    (h : Carries ls (.block start name sub last)) (tail : Text) :
    processResult reporter (Text.readLines (Text.unlines ls ++ tail)) =
      some ⟨(ReportTree.block start name sub last).log .message, some start.ispi, some start.rspi, [],
        Text.readLines tail⟩ := by
  rw [Text.readLines_unlines h.oneLine]
  obtain ⟨pre, rfl, hpre⟩ := h.split
  have hread : LogReader.init.readThrough pre =
      some ⟨some ⟨⟨.message, some name.1, .none, none⟩, ReportTree.logAll sub, []⟩, some start.ispi,
        some start.rspi, 1, 1⟩ := by
    rw [← readThrough_filter, hpre,
      readThrough_cons (isReport_reportLine _ _ _) (readLine_root start (store_name .message name))
        one_ne_zero]
    exact readThrough_linesAll (c := .single ⟨.message, some name.1, .none, none⟩) nofun _ _ 1 0 sub
  rw [List.append_assoc]
  exact processResult_close hreporter hread nofun last (Text.readLines tail)

theorem oneLine_last (last : LineSpis) : Text.OneLine (reportLine '\x03' last []) :=
  oneLine_reportLine _ _ _ (by decide) (by decide)

/-- A line of any text as the first one of a block that ends after it. -/
theorem processResult_first {reporter : Text}
    (hreporter : "epdg".toList <:+: reporter ∨ "ims".toList <:+: reporter) (spis last : LineSpis)
    {text : Text} {it : LogItem} (htext : Text.OneLine text)
    (hstore : (LogItem.new .message).store text = some it) (tail : Text) :
    processResult reporter (Text.readLines (reportLine '\x02' spis text ++ '\n' ::
        (reportLine '\x03' last [] ++ '\n' :: tail))) =
      some ⟨.node it [], some spis.ispi, some spis.rspi, [], Text.readLines tail⟩ := by
  have hread : LogReader.init.readThrough [reportLine '\x02' spis text] =
      some ⟨some ⟨it, [], []⟩, some spis.ispi, some spis.rspi, 1, 1⟩ := by
    rw [readThrough_cons (isReport_reportLine _ _ _) (readLine_root spis hstore) one_ne_zero]
    rfl
  have htype : it.type ≠ .attribute := by
    rw [store_type hstore]
    nofun
  rw [Text.readLines_append (oneLine_reportLine _ _ _ (by decide) htext),
    Text.readLines_append (oneLine_last last)]
  exact processResult_close hreporter hread htype last _

/-- A line of any text as the only attribute of a block. -/
theorem processResult_inBlock {reporter : Text}
    (hreporter : "epdg".toList <:+: reporter ∨ "ims".toList <:+: reporter) (start spis last : LineSpis)
    (block : Word) {text : Text} {it : LogItem} (htext : Text.OneLine text)
    (hstore : (LogItem.new .attribute).store text = some it) (tail : Text) :
    processResult reporter (Text.readLines (reportLine '\x02' start block.1 ++ '\n' ::
        (reportLine '\x01' spis text ++ '\n' :: (reportLine '\x03' last [] ++ '\n' :: tail)))) =
      some ⟨.node ⟨.message, some block.1, .none, none⟩ [.node it []], some start.ispi,
        some start.rspi, [], Text.readLines tail⟩ := by
  have hread : LogReader.init.readThrough
      [reportLine '\x02' start block.1, reportLine '\x01' spis text] =
        some ⟨some ⟨⟨.message, some block.1, .none, none⟩, [.node it []], []⟩, some start.ispi,
          some start.rspi, 1, 1⟩ := by
    rw [readThrough_cons (isReport_reportLine _ _ _) (readLine_root start (store_name .message block))
        one_ne_zero,
      readThrough_cons (isReport_reportLine _ _ _) (readLine_attribute spis hstore) one_ne_zero]
    rfl
  rw [Text.readLines_append (oneLine_reportLine _ _ _ (by decide) block.2.2.2),
    Text.readLines_append (oneLine_reportLine _ _ _ (by decide) htext),
    Text.readLines_append (oneLine_last last)]
  exact processResult_close hreporter hread nofun last _

/-- The SPIs of a session that is not set up yet. -/
def sampleSpis : LineSpis where
  ispi := List.replicate 16 '0'
  rspi := List.replicate 16 '0'
  length_ispi := rfl
  length_rspi := rfl
  line_ispi := by decide
  line_rspi := by decide

/-- A report with an attribute, a block inside it and another attribute. -/
def sampleReport : List ReportTree :=
  [.attribute sampleSpis ⟨"id".toList, nofun, by decide, by decide⟩
      (some (.uint16, ⟨"7".toList, nofun, by decide, by decide⟩)),
    .block sampleSpis ⟨"sa".toList, nofun, by decide, by decide⟩
      [.attribute sampleSpis ⟨"spi".toList, nofun, by decide, by decide⟩ none] sampleSpis,
    .attribute sampleSpis ⟨"nonce".toList, nofun, by decide, by decide⟩
      (some (.string, ⟨"abc".toList, nofun, by decide, by decide⟩))]

/-- The name of the report. -/
def sampleName : Word := ⟨"ike_auth_1_request".toList, nofun, by decide, by decide⟩

theorem carries_sample :
    Carries ("ACK".toList :: (ReportTree.block sampleSpis sampleName sampleReport sampleSpis).lines)
      (.block sampleSpis sampleName sampleReport sampleSpis) where
  reports := by decide +kernel
  last := by decide +kernel
  oneLine := by decide +kernel

/-- The report behind an acknowledgement, with another line after it. -/
theorem processResult_sample :
    processResult "epdg".toList (Text.readLines (Text.unlines ("ACK".toList ::
        (ReportTree.block sampleSpis sampleName sampleReport sampleSpis).lines) ++ "ACK\n".toList)) =
      some ⟨(ReportTree.block sampleSpis sampleName sampleReport sampleSpis).log .message,
        some sampleSpis.ispi, some sampleSpis.rspi, [], ["ACK".toList]⟩ :=
  processResult_report (.inl (by decide)) carries_sample "ACK\n".toList

/-! ## What a `MessageLog` can hold -/

/-- The name and the value have no colon and no line end in them. -/
structure LogItem.Plain (it : LogItem) : Prop where
  name : ∀ n ∈ it.name, ':' ∉ n ∧ Text.OneLine n
  value : ∀ v ∈ it.value, ':' ∉ v ∧ Text.OneLine v

/-- All nodes the reader has made are plain. -/
def LogReader.Plain (r : LogReader) : Prop := ∀ m ∈ r.mlog, m.All LogItem.Plain

theorem LogItem.plain_new (type : MessageLogType) : (LogItem.new type).Plain := ⟨nofun, nofun⟩

theorem plain_of_mem_split {rstr s : Text} (hrstr : Text.OneLine rstr) (hs : s ∈ Text.split ':' rstr) :
    ':' ∉ s ∧ Text.OneLine s := by
  have hmem := Text.mem_split hs
  refine ⟨fun hc => (hmem _ hc).1 rfl, fun hr => ?_, fun hn => ?_⟩
  · exact hrstr.1 (hmem _ hr).2
  · exact hrstr.2 (hmem _ hn).2

theorem LogItem.Plain.setFields {it it' : LogItem} {rstr : Text} (h : it.Plain)
    (hrstr : Text.OneLine rstr) (hset : it.setFields rstr = some it') : it'.Plain := by
  have hparts := fun s => plain_of_mem_split (s := s) hrstr
  rw [LogItem.setFields] at hset
  split at hset
  · cases hset
  · rename_i name vtype value hsplit
    rw [hsplit] at hparts
    obtain ⟨n, -, rfl⟩ := Option.map_eq_some_iff.1 hset
    refine ⟨?_, ?_⟩
    · rintro _ ⟨⟩
      exact hparts name (by simp)
    · rintro _ ⟨⟩
      exact hparts value (by simp)
  · rename_i name parts _ hsplit
    rw [hsplit] at hparts
    obtain rfl := Option.some.inj hset
    refine ⟨?_, h.value⟩
    rintro _ ⟨⟩
    exact hparts name (by simp)

theorem LogItem.Plain.store {it it' : LogItem} {rstr : Text} (h : it.Plain)
    (hrstr : Text.OneLine rstr) (hstore : it.store rstr = some it') : it'.Plain := by
  rw [LogItem.store] at hstore
  split at hstore
  · exact Option.some.inj hstore ▸ h
  · exact h.setFields hrstr hstore

theorem LogReader.Plain.move {r r' : LogReader} {type : ℕ} (h : r.Plain) (hmove : r.move type = some r') :
    r'.Plain := by
  unfold LogReader.move at hmove
  split at hmove
  · obtain rfl := Option.some.inj hmove
    intro m' hm'
    obtain ⟨m, hm, rfl⟩ := Option.map_eq_some_iff.1 hm'
    exact (h m hm).addSub (LogItem.plain_new _)
  · obtain rfl := Option.some.inj hmove
    cases hm : r.mlog with
    | none =>
      rintro _ ⟨⟩
      exact .single (LogItem.plain_new _)
    | some m =>
      rintro _ ⟨⟩
      exact (h m hm).addSub (LogItem.plain_new _)
  · split at hmove
    · rename_i m stack hm hstack
      obtain rfl := Option.some.inj hmove
      rintro _ ⟨⟩
      cases hp : m.parentLast? with
      | none => exact h m hm
      | some p => exact (h m hm).parentLast? hp
    · cases hmove
  · exact Option.some.inj hmove ▸ h

theorem LogReader.Plain.readLine {r r' : LogReader} {result : Text} (h : r.Plain)
    (hresult : Text.OneLine result) (hread : r.readLine result = .ok r') : r'.Plain := by
  have hdrop : Text.OneLine (result.drop textOffset) :=
    ⟨fun hc => hresult.1 (List.mem_of_mem_drop hc), fun hc => hresult.2 (List.mem_of_mem_drop hc)⟩
  rw [LogReader.readLine] at hread
  split at hread
  · rename_i m ispi rspi depth stack hmove
    have hm : m.All LogItem.Plain := h.move hmove m rfl
    split at hread
    · cases hread
    · cases hstore : m.label.store (result.drop textOffset) with
      | none =>
        simp only [hstore] at hread
        cases hread
      | some it =>
        simp only [hstore] at hread
        obtain rfl := Except.ok.inj hread
        have hset := hm.setLabel (hm.label.store hdrop hstore)
        intro m' hm'
        simp only at hm'
        split at hm'
        · exact hset.parentLast? hm'
        · exact Option.some.inj hm' ▸ hset
  · cases hread

theorem LogReader.Plain.loop {r r' : LogReader} {lines rest : List Text} {print : Text} (h : r.Plain)
    (hlines : ∀ l ∈ lines, Text.OneLine l) (hloop : r.loop lines = (.done r', print, rest)) :
    r'.Plain := by
  induction lines generalizing r with
  | nil => cases hloop
  | cons l lines ih =>
    obtain ⟨hl, hlines⟩ := List.forall_mem_cons.1 hlines
    rw [LogReader.loop] at hloop
    split at hloop
    · cases hread : r.readLine l with
      | error print' =>
        simp only [hread] at hloop
        cases hloop
      | ok r₁ =>
        simp only [hread] at hloop
        have hr₁ := h.readLine hl hread
        split at hloop
        · cases hloop
          exact hr₁
        · exact ih hr₁ hlines hloop
    · exact ih h hlines hloop

theorem plain_named {name : String} (hname : ':' ∉ name.toList ∧ Text.OneLine name.toList)
    (calls : List Call) (rest : List Text) : (Reply.named name calls rest).mlog.All LogItem.Plain := by
  refine (RoseTree.all_node _ _ _).2 ⟨⟨?_, nofun⟩, nofun⟩
  rintro _ ⟨⟩
  exact hname

/-- No name and no value that the controller reads has a colon or a line end in it. -/
theorem processResult_plain {reporter : Text} {lines : List Text} {reply : Reply}
    (hlines : ∀ l ∈ lines, Text.OneLine l) (h : processResult reporter lines = some reply) :
    reply.mlog.All LogItem.Plain := by
  have hreply : ∀ {rest end_ print reply}, LogReader.init.loop lines = (end_, print, rest) →
      replyOf rest end_ = some reply → reply.mlog.All LogItem.Plain := by
    intro rest end_ print reply hloop hreply
    cases end_ with
    | done r =>
      have hr : r.Plain := LogReader.Plain.loop (r := .init) nofun hlines hloop
      obtain ⟨m, hm, rfl⟩ := Option.map_eq_some_iff.1 hreply
      exact (hr m hm).tree
    | timeout => exact Option.some.inj hreply ▸ plain_named (by decide) _ _
    | exception => exact Option.some.inj hreply ▸ plain_named (by decide) _ _
  rw [processResult] at h
  split at h
  · rcases hloop : LogReader.init.loop lines with ⟨end_, print, rest⟩
    simp only [hloop] at h
    unfold reviseReply at h
    split at h
    · exact Option.some.inj h ▸ plain_named (by decide) _ _
    · split at h
      · exact Option.some.inj h ▸ plain_named (by decide) _ _
      · exact hreply hloop h
  · split at h
    · exact Option.some.inj h ▸ plain_named (by decide) _ _
    · cases h

end Control

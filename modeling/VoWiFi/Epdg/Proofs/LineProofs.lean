import VoWiFi.Epdg.QuerySpec
import Mathlib.Tactic.Common

/-!
# What the decoder reads from one line of the controller

A line is cut at its colons by `strtok`, which stops at the first NUL byte, and an operator is
recognised by how it begins. The fields of a node therefore arrive unchanged under a condition on
its texts, and no others do.
-/

namespace Epdg

open Control

/-- The fields the decoder reads from what follows the SPIs in a line. -/
def parseFields (s : Text) : QNode := initQuery.setTokens (Text.strtok (· = ':') s)

/-! ## Tokens of a line -/

theorem strtok_colon {s : Text} (hs : PlainText s) (hnul : '\x00' ∉ s) (t : Text) :
    Text.strtok (· = ':') (s ++ ':' :: t) = s :: Text.strtok (· = ':') t := by
  refine Text.strtok_cons t hnul (fun x hx => ?_) (by decide) (by decide) hs.1
  simpa using fun e : x = ':' => hs.2.1 (e ▸ hx)

theorem strtok_no_colon {s : Text} (hs : ':' ∉ s) :
    Text.strtok (· = ':') s = if s.cstr = [] then [] else [s.cstr] := by
  refine Text.strtok_single fun x hx => ?_
  simpa using fun e : x = ':' => hs (e ▸ Text.mem_of_mem_cstr hx)

theorem colon_not_mem_line_end {s : Text} (hs : PlainText s) : ':' ∉ s ++ ['\n'] := by
  simpa using hs.2.1

theorem stripNewline_append (s : Text) : stripNewline (s ++ ['\n']) = s := by
  simp [stripNewline]

theorem stripNewline_of_not_mem {s : Text} (h : '\n' ∉ s) : stripNewline s = s := by
  rw [stripNewline, if_neg]
  exact fun hlast => h (List.mem_of_getLast? hlast)

/-- The last token of a line, if its text is free of NUL bytes. -/
theorem cstr_line_end {s : Text} (hnul : '\x00' ∉ s) :
    Text.cstr (s ++ ['\n']) = s ++ ['\n'] :=
  Text.cstr_of_nul_free (by simpa using hnul)

/-- The number of a value type survives being printed and read. -/
theorem charToInt_valueType (vt : ValueType) :
    charToInt 10 (Nat.toDigits 10 vt.getValueTypeAsInteger) = vt.getValueTypeAsInteger := by
  cases vt <;> decide

theorem plainText_valueType (vt : ValueType) :
    PlainText (Nat.toDigits 10 vt.getValueTypeAsInteger) ∧
      '\x00' ∉ Nat.toDigits 10 vt.getValueTypeAsInteger := by
  cases vt <;> decide

/-! ## Operators -/

/-- A word without NUL bytes and newlines begins the last token of a line exactly if it begins the
text the token was made from. -/
theorem prefix_line_end {w s : Text} (hnul : '\x00' ∉ w) (hnl : '\n' ∉ w) :
    w <+: Text.cstr (s ++ ['\n']) ↔ w <+: s := by
  induction w generalizing s with
  | nil => simp
  | cons c w ih =>
    rw [List.mem_cons, not_or] at hnul hnl
    cases s with
    | nil => simp [Text.cstr, Ne.symm hnl.1]
    | cons d s =>
      by_cases hd : d = '\x00'
      · subst hd
        simp [Text.cstr, Ne.symm hnul.1]
      · have hcons : Text.cstr (d :: s ++ ['\n']) = d :: Text.cstr (s ++ ['\n']) := by
          simp [Text.cstr, hd]
        rw [hcons, List.cons_prefix_cons, List.cons_prefix_cons, ih hnul.2 hnl.2]

theorem opOfToken_line_end (s : Text) : opOfToken (Text.cstr (s ++ ['\n'])) = opOfToken s := by
  have hupdate := @prefix_line_end updateWord s (by decide) (by decide)
  have hdrop := @prefix_line_end dropWord s (by decide) (by decide)
  simp only [opOfToken, hupdate, hdrop]

/-! ## The fields of a node -/

/-- The token a text at the end of a line becomes. -/
def lastToken (s : Text) : Option Text :=
  if Text.cstr (s ++ ['\n']) = [] then none else some (stripNewline (Text.cstr (s ++ ['\n'])))

theorem lastToken_of_nul_free {s : Text} (h : '\x00' ∉ s) : lastToken s = some s := by
  rw [lastToken, cstr_line_end h, stripNewline_append, if_neg (by simp)]

/-- How much of a text arrived. -/
def textWeight (s : Option Text) : ℕ := (s.map fun s => s.length + 1).getD 0

theorem textWeight_lastToken_lt {s : Text} (hnul : '\x00' ∈ s) (hnl : '\n' ∉ s) :
    textWeight (lastToken s) < s.length + 1 := by
  have hlt := Text.length_cstr_lt hnul
  rw [lastToken, Text.cstr_append_of_nul hnul,
    stripNewline_of_not_mem fun h => hnl (Text.mem_of_mem_cstr h)]
  split <;> simp only [textWeight, Option.map_none, Option.map_some, Option.getD_none,
    Option.getD_some] <;> omega

/-- A name with a NUL byte arrives shortened, and hides the rest of the line. -/
theorem parseFields_of_nul {n : Text} (hn : PlainText n) (hnul : '\x00' ∈ n) (t : Text) :
    textWeight (parseFields (n ++ t)).name < n.length + 1 := by
  have hlt := Text.length_cstr_lt hnul
  have htok : Text.strtok (· = ':') (n ++ t) = if n.cstr = [] then [] else [n.cstr] := by
    rw [← strtok_no_colon hn.2.1, Text.strtok, Text.cstr_append_of_nul hnul, Text.strtok]
  rw [parseFields, htok]
  split
  · exact Nat.succ_pos _
  · have hname : stripNewline n.cstr = n.cstr :=
      stripNewline_of_not_mem fun h => hn.2.2 (Text.mem_of_mem_cstr h)
    simpa [QNode.setTokens, QNode.setToken, textWeight, hname] using hlt

theorem parseFields_name {n : Text} (hn : PlainText n) (hnul : '\x00' ∉ n) :
    parseFields (n ++ ['\n']) = ⟨some n, .notSet, 0, none⟩ := by
  rw [parseFields, strtok_no_colon (colon_not_mem_line_end hn), cstr_line_end hnul,
    if_neg (by simp)]
  simp [QNode.setTokens, QNode.setToken, initQuery, stripNewline_append]

theorem parseFields_op {n o : Text} (hn : PlainText n) (hnul : '\x00' ∉ n) (ho : PlainText o) :
    parseFields (n ++ ':' :: (o ++ ['\n'])) = ⟨some n, (opOfToken o).getD .notSet, 0, none⟩ := by
  rw [parseFields, strtok_colon hn hnul, strtok_no_colon (colon_not_mem_line_end ho),
    ← opOfToken_line_end o]
  split <;> rename_i hempty
  · have hnone : opOfToken [] = none := by decide
    rw [hempty, hnone]
    simp [QNode.setTokens, QNode.setToken, initQuery, stripNewline_of_not_mem hn.2.2]
  · simp [QNode.setTokens, QNode.setToken, initQuery, stripNewline_of_not_mem hn.2.2]

/-- An operator with a NUL byte hides the value. -/
theorem parseFields_op_of_nul {n o : Text} (hn : PlainText n) (hnul : '\x00' ∉ n)
    (ho : PlainText o) (honul : '\x00' ∈ o) (t : Text) :
    parseFields (n ++ ':' :: (o ++ t)) = ⟨some n, (opOfToken o).getD .notSet, 0, none⟩ := by
  have htok : Text.strtok (· = ':') (o ++ t) = Text.strtok (· = ':') (o ++ ['\n']) := by
    rw [Text.strtok, Text.strtok, Text.cstr_append_of_nul honul, Text.cstr_append_of_nul honul]
  rw [← parseFields_op hn hnul ho, parseFields, parseFields, strtok_colon hn hnul,
    strtok_colon hn hnul, htok]

theorem parseFields_value {n o v : Text} (hn : PlainText n) (hnul : '\x00' ∉ n)
    (ho : PlainText o) (honul : '\x00' ∉ o) (vt : ValueType) (hv : PlainText v) :
    parseFields (n ++ ':' :: (o ++ ':' :: (Nat.toDigits 10 vt.getValueTypeAsInteger ++
      ':' :: (v ++ ['\n'])))) =
      ⟨some n, (opOfToken o).getD .notSet, vt.getValueTypeAsInteger, lastToken v⟩ := by
  obtain ⟨hvt, hvtnul⟩ := plainText_valueType vt
  rw [parseFields, strtok_colon hn hnul, strtok_colon ho honul, strtok_colon hvt hvtnul,
    strtok_no_colon (colon_not_mem_line_end hv), lastToken]
  split <;>
  simp [QNode.setTokens, QNode.setToken, initQuery, stripNewline_of_not_mem hn.2.2,
    charToInt_valueType]

/-! ## Read fields against requested fields -/

/-- The fields the decoder reads from the line of a node. -/
def readFields (it : Item) : QNode := parseFields (javaText it.name ++ it.suffix ++ ['\n'])

/-- Whether the operator field was left alone, as a weight. -/
def opWeight (op : OpType) : ℕ := if op = .notSet then 1 else 0

/-- An operator is one of the two known words, or nothing is asked for. -/
theorem requestedOp_cases (o : Text) :
    (o = updateWord ∧ requestedOp (some o) = .update) ∨
      (o = dropWord ∧ requestedOp (some o) = .drop) ∨
      (o ≠ updateWord ∧ o ≠ dropWord ∧ requestedOp (some o) = .notSet) := by
  by_cases hu : o = updateWord
  · exact .inl ⟨hu, by simp [requestedOp, hu]⟩
  · by_cases hd : o = dropWord
    · subst hd
      exact .inr (.inl ⟨rfl, by decide⟩)
    · exact .inr (.inr ⟨hu, hd, by simp [requestedOp, hu, hd]⟩)

/-- The decoder recognises an operator for what it is exactly if the operator is plain. -/
theorem plainOp_iff (o : Text) :
    PlainOp o ↔ (opOfToken o).getD .notSet = requestedOp (some o) := by
  rcases requestedOp_cases o with ⟨rfl, hreq⟩ | ⟨rfl, hreq⟩ | ⟨hu, hd, hreq⟩
  · exact iff_of_true ⟨fun _ => rfl, by decide⟩ (by decide)
  · exact iff_of_true ⟨by decide, fun _ => rfl⟩ (by decide)
  · rw [hreq, opOfToken, PlainOp]
    simp only [hu, hd, imp_false]
    by_cases hup : updateWord <+: o
    · simp [hup]
    · by_cases hdp : dropWord <+: o <;> simp [hup, hdp]

/-- An operator field that should be set is set. -/
theorem opWeight_le (o : Text) :
    opWeight ((opOfToken o).getD .notSet) ≤ opWeight (requestedOp (some o)) := by
  rcases requestedOp_cases o with ⟨rfl, hreq⟩ | ⟨rfl, hreq⟩ | ⟨hu, hd, hreq⟩
  · decide
  · decide
  · rw [hreq, opWeight, opWeight]
    split <;> simp

theorem plainOp_of_opWeight {o : Text}
    (h : opWeight ((opOfToken o).getD .notSet) = opWeight (requestedOp (some o))) : PlainOp o := by
  rw [plainOp_iff]
  rcases requestedOp_cases o with ⟨rfl, hreq⟩ | ⟨rfl, hreq⟩ | ⟨hu, hd, hreq⟩
  · decide
  · decide
  · rw [hreq] at h ⊢
    by_contra hne
    simp [opWeight, hne] at h

/-- The value type and value that arrive behind a name without NUL bytes. -/
def readValue (op : Option Text) (value : Option (ValueType × Text)) : ℤ × Option Text :=
  match op, value with
  | some o, some (vt, v) =>
    if '\x00' ∈ o then (0, none) else (vt.getValueTypeAsInteger, lastToken v)
  | _, _ => (0, none)

/-- What arrives of a node whose name is free of NUL bytes. -/
theorem readFields_eq {it : Item} (hw : WellFormed it) {n : Text} (hname : it.name = some n)
    (hnul : '\x00' ∉ n) :
    readFields it = ⟨some n, (it.op.bind opOfToken).getD .notSet,
      (readValue it.op it.value).1, (readValue it.op it.value).2⟩ := by
  have hn : PlainText n := by
    obtain ⟨n', hname', hn'⟩ := hw.name
    rw [hname, Option.some.injEq] at hname'
    exact hname' ▸ hn'
  obtain ⟨type, name, op, value, iter⟩ := it
  obtain rfl : name = some n := hname
  cases op with
  | none =>
    simpa [readFields, javaText, Item.suffix, readValue] using parseFields_name hn hnul
  | some o =>
    have ho : PlainText o := hw.op o rfl
    cases value with
    | none =>
      simpa [readFields, javaText, Item.suffix, readValue] using parseFields_op hn hnul ho
    | some v =>
      obtain ⟨vt, v⟩ := v
      have hv : PlainText v := (hw.value vt v rfl).1
      by_cases honul : '\x00' ∈ o
      · simpa [readFields, javaText, Item.suffix, readValue, honul] using
          parseFields_op_of_nul hn hnul ho honul _
      · simpa [readFields, javaText, Item.suffix, readValue, honul] using
          parseFields_value hn hnul ho honul vt hv

/-- Names never get longer, and only those without NUL bytes keep their length. -/
theorem readFields_name {it : Item} (hw : WellFormed it) :
    textWeight (readFields it).name ≤ textWeight (queryOf it).name ∧
      (textWeight (readFields it).name = textWeight (queryOf it).name →
        ∀ n, it.name = some n → '\x00' ∉ n) := by
  obtain ⟨n, hname, hn⟩ := hw.name
  have hq : textWeight (queryOf it).name = n.length + 1 := by simp [queryOf, hname, textWeight]
  by_cases hnul : '\x00' ∈ n
  · have hlt := parseFields_of_nul hn hnul (it.suffix ++ ['\n'])
    rw [hq, readFields, hname, javaText, Option.getD_some, List.append_assoc]
    exact ⟨hlt.le, fun heq => absurd heq hlt.ne⟩
  · rw [readFields_eq hw hname hnul, hq]
    simp [textWeight, hname, hnul]

/-- How much of a node's operator and value arrived. -/
def fieldWeight (q : QNode) : ℕ := opWeight q.op + textWeight q.value

/-- Behind a name without NUL bytes, operators and values never gain anything. -/
theorem readFields_fieldWeight {it : Item} (hw : WellFormed it)
    (hnul : ∀ n, it.name = some n → '\x00' ∉ n) :
    fieldWeight (readFields it) ≤ fieldWeight (queryOf it) ∧
      (fieldWeight (readFields it) = fieldWeight (queryOf it) → Readable it) := by
  obtain ⟨n, hname, hn⟩ := hw.name
  rw [readFields_eq hw hname (hnul n hname)]
  cases hop : it.op with
  | none =>
    have hval : it.value = none := by
      cases hval : it.value with
      | none => rfl
      | some v => exact absurd hop (hw.value v.1 v.2 hval).2
    refine ⟨by simp [fieldWeight, queryOf, hop, hval, requestedOp, readValue], fun _ => ?_⟩
    exact ⟨hnul, by simp [hop], by simp [hop]⟩
  | some o =>
    have hle := opWeight_le o
    cases hval : it.value with
    | none =>
      simp only [fieldWeight, queryOf, hop, hval, readValue, Option.bind_some, Option.map_none,
        Nat.add_le_add_iff_right, Nat.add_right_cancel_iff]
      exact ⟨hle, fun h => ⟨hnul, by simpa [hop] using plainOp_of_opWeight h, by simp [hval]⟩⟩
    | some v =>
      obtain ⟨vt, v⟩ := v
      have hv := (hw.value vt v hval).1
      simp only [fieldWeight, queryOf, hop, hval, readValue, Option.bind_some, Option.map_some]
      have hq : textWeight (some v) = v.length + 1 := rfl
      by_cases honul : '\x00' ∈ o
      · simp only [honul, if_true, hq]
        have hzero : textWeight none = 0 := rfl
        exact ⟨by omega, fun h => by omega⟩
      · simp only [honul, if_false, hq]
        by_cases hvnul : '\x00' ∈ v
        · have hlt := textWeight_lastToken_lt hvnul hv.2.2
          exact ⟨by omega, fun h => by omega⟩
        · rw [lastToken_of_nul_free hvnul, hq]
          refine ⟨by omega, fun h => ⟨hnul, ?_, ?_⟩⟩
          · simpa [hop] using plainOp_of_opWeight (o := o) (by omega)
          · simp [hop, hval, honul, hvnul]

/-- The fields of a readable node arrive unchanged. -/
theorem readFields_of_readable {it : Item} (hw : WellFormed it) (hr : Readable it) :
    readFields it = queryOf it := by
  obtain ⟨n, hname, hn⟩ := hw.name
  rw [readFields_eq hw hname (hr.name n hname), queryOf, hname]
  cases hop : it.op with
  | none =>
    cases hval : it.value with
    | none => simp [requestedOp, readValue]
    | some v => exact absurd hop (hw.value v.1 v.2 hval).2
  | some o =>
    have ho := (plainOp_iff o).1 (hr.op o hop)
    cases hval : it.value with
    | none => simp [ho, readValue]
    | some v =>
      obtain ⟨honul, hvnul⟩ := hr.value o v.1 v.2 hop hval
      simp [ho, readValue, honul, lastToken_of_nul_free hvnul]

end Epdg

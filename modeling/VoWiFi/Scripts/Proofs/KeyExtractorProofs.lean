import VoWiFi.Lib.Blocks
import VoWiFi.Scripts.KeyLog

/-!
# Polling a log that grows

Between two entries the scan is idle: it remembers nothing but the variable `key`. From an idle state an
entry is read from its first line to its last, whatever stands before it. A poll that comes inside an entry
loses what was read of it, and the lines that are left are then taken for other lines, so that less is
printed than by one call over the whole file.
-/

namespace Scripts

variable {s s' : Scan} {k k' : Option Text} {out : Text} {line : Text} {lines rest : List Text} {e : Entry}
  {es : List Entry}

/-! ## The scan -/

theorem scan_append (s : Scan) (lines rest : List Text) :
    scan s (lines ++ rest) =
      match (scan s lines).2 with
      | .error err => ((scan s lines).1, .error err)
      | .ok s' => ((scan s lines).1 ++ (scan s' rest).1, (scan s' rest).2) := by
  induction lines generalizing s with
  | nil => rfl
  | cons line lines ih =>
    rw [List.cons_append, scan, scan]
    cases s.line line with
    | error err => rfl
    | ok p =>
      obtain ⟨s', out⟩ := p
      dsimp only
      rw [ih]
      cases (scan s' lines).2 with
      | error err => rfl
      | ok s'' => simp only [List.append_assoc]

theorem scan_append_ok (h : scan s lines = (out, .ok s')) :
    scan s (lines ++ rest) = (out ++ (scan s' rest).1, (scan s' rest).2) := by
  rw [scan_append, h]

theorem scan_append_error {err : PyError} (h : scan s lines = (out, .error err)) :
    scan s (lines ++ rest) = (out, .error err) := by
  rw [scan_append, h]

theorem scan_cons_ok (h : s.line line = .ok (s', out)) :
    scan s (line :: lines) = (out ++ (scan s' lines).1, (scan s' lines).2) := by
  rw [scan, h]

theorem scan_cons_error {err : PyError} (h : s.line line = .error err) :
    scan s (line :: lines) = ([], .error err) := by
  rw [scan, h]

/-- Nothing has been begun, and the variable `key` is as given. -/
structure Scan.Idle (s : Scan) (k : Option Text) : Prop where
  isakmp : s.extractIsakmpKeys = false
  esp : s.extractEspKeys = false
  display : s.displayEspKeys = false
  key : s.key = k

theorem idle_start : Scan.start.Idle none := ⟨rfl, rfl, rfl, rfl⟩

/-- Other lines pass an idle scan. -/
theorem scan_other (hs : s.Idle k) (h : ∀ line ∈ lines, lineKind line = .other) :
    scan s lines = ([], .ok s) := by
  induction lines with
  | nil => rfl
  | cons line lines ih =>
    rw [List.forall_mem_cons] at h
    have hline : s.line line = .ok (s, []) := by
      simp [Scan.line, hs.isakmp, hs.esp, hs.display, h.1]
    rw [scan_cons_ok hline, ih h.2]
    rfl

/-! ## Dumps -/

/-- The scan is in a dump, of the one kind or of the other. -/
structure Scan.InDump (s : Scan) (esp : Bool) (key : Text) (nbytes : ℤ) : Prop where
  isakmp : s.extractIsakmpKeys = !esp
  esp : s.extractEspKeys = esp
  display : s.displayEspKeys = false
  key : s.key = some key
  nbytes : s.nbytes = some nbytes

theorem dump_inDump {esp : Bool} {key : Text} {n : ℤ} (hs : s.InDump esp key n)
    (hdigits : ∃ digits, dumpDigits line = .ok digits) :
    s.dump line = .ok (key ++ digitsOf line, n - 16) := by
  obtain ⟨digits, hdigits⟩ := hdigits
  have hof : digitsOf line = digits := by rw [digitsOf, hdigits]
  rw [Scan.dump, hdigits, hs.key, hs.nbytes, hof]
  rfl

/-- A line of a dump that is not the last one. -/
theorem line_inDump {esp : Bool} {key : Text} {n : ℤ} (hs : s.InDump esp key n)
    (hdigits : ∃ digits, dumpDigits line = .ok digits) (hkind : lineKind line = .other) (hn : 0 < n - 16) :
    ∃ s', s.line line = .ok (s', []) ∧ s'.InDump esp (key ++ digitsOf line) (n - 16) := by
  have hdump := dump_inDump hs hdigits
  refine ⟨{ s with key := some (key ++ digitsOf line), nbytes := some (n - 16) }, ?_,
    ⟨hs.isakmp, hs.esp, hs.display, rfl, rfl⟩⟩
  cases esp with
  | false =>
    simp only [Scan.line, hs.isakmp, Bool.not_false, if_true, hdump]
    exact if_neg (show ¬ n - 16 ≤ 0 by omega)
  | true =>
    simp only [Scan.line, hs.isakmp, hs.esp, hkind, Bool.not_true, hdump]
    exact if_neg (show ¬ n - 16 ≤ 0 by omega)

/-- The last line of a dump. -/
theorem line_endDump {esp : Bool} {key : Text} {n : ℤ} (hs : s.InDump esp key n)
    (hdigits : ∃ digits, dumpDigits line = .ok digits) (hkind : lineKind line = .other) (hn : n - 16 ≤ 0) :
    ∃ s', s.line line = .ok (s', printed (key ++ digitsOf line)) ∧ s'.Idle (some (key ++ digitsOf line)) := by
  have hdump := dump_inDump hs hdigits
  cases esp with
  | false =>
    refine ⟨{ s with
      key := some (key ++ digitsOf line), nbytes := some (n - 16), extractIsakmpKeys := false }, ?_,
      ⟨rfl, hs.esp, hs.display, rfl⟩⟩
    simp only [Scan.line, hs.isakmp, Bool.not_false, if_true, hdump]
    exact if_pos hn
  | true =>
    refine ⟨{ s with
      key := some (key ++ digitsOf line), nbytes := some (n - 16), extractEspKeys := false }, ?_,
      ⟨hs.isakmp, rfl, hs.display, rfl⟩⟩
    simp only [Scan.line, hs.isakmp, hs.esp, hkind, Bool.not_true, hdump]
    exact if_pos hn

/-- Up to its last line a dump prints nothing. -/
theorem scan_inDump {esp : Bool} {key : Text} {n : ℤ} (hs : s.InDump esp key n)
    (hdigits : ∀ line ∈ lines, ∃ digits, dumpDigits line = .ok digits)
    (hkind : ∀ line ∈ lines, lineKind line = .other) (hn : 16 * (lines.length : ℤ) < n) :
    ∃ s', scan s lines = ([], .ok s') ∧
      s'.InDump esp (key ++ lines.flatMap digitsOf) (n - 16 * lines.length) := by
  induction lines generalizing s key n with
  | nil => exact ⟨s, rfl, by simpa using hs⟩
  | cons line lines ih =>
    rw [List.forall_mem_cons] at hdigits hkind
    rw [List.length_cons, Nat.cast_succ] at hn
    obtain ⟨t, hline, ht⟩ := line_inDump hs hdigits.1 hkind.1 (by omega)
    obtain ⟨s', hscan, hs'⟩ := ih ht hdigits.2 hkind.2 (by omega)
    refine ⟨s', by rw [scan_cons_ok hline, hscan]; rfl, ?_⟩
    have hcount : n - 16 * ((line :: lines).length : ℤ) = n - 16 - 16 * lines.length := by
      rw [List.length_cons, Nat.cast_succ]
      omega
    rw [hcount, List.flatMap_cons, ← List.append_assoc]
    exact hs'

/-- A whole dump prints its key. -/
theorem scan_body (d : Dump) {esp : Bool} {key : Text} (hs : s.InDump esp key d.nbytes) :
    ∃ s', scan s d.body = (printed (key ++ d.body.flatMap digitsOf), .ok s') ∧
      s'.Idle (some (key ++ d.body.flatMap digitsOf)) := by
  obtain ⟨front, last, hbody⟩ := (List.eq_nil_or_concat d.body).resolve_left d.body_ne
  rw [List.concat_eq_append] at hbody
  have hlong := d.body_long
  have hshort := d.body_short
  have hdigits := d.body_digits
  have hkind := d.body_other
  rw [hbody, List.length_append, List.length_singleton, Nat.cast_succ] at hlong hshort
  rw [hbody, List.forall_mem_append, List.forall_mem_singleton] at hdigits hkind
  obtain ⟨t, hfront, ht⟩ := scan_inDump hs hdigits.1 hkind.1 (by omega)
  obtain ⟨s', hlast, hs'⟩ := line_endDump ht hdigits.2 hkind.2 (by omega)
  have htext : key ++ d.body.flatMap digitsOf = key ++ front.flatMap digitsOf ++ digitsOf last := by
    simp [hbody, List.flatMap_append]
  refine ⟨s', ?_, htext ▸ hs'⟩
  rw [htext, hbody, scan_append_ok hfront, scan_cons_ok hlast]
  simp [scan]

/-! ## Entries -/

/-- What an entry prints and what `key` is after it, given `key`; nothing if `key` is read and has not been
assigned. -/
def Entry.run (k : Option Text) : Entry → Option (Text × Option Text)
  | .other _ _ => some ([], k)
  | .spi _ name digits _ _ => some (printed (name ++ colon ++ swapBytes digits), some name)
  | .secret d _ => some (printed d.text, some d.text)
  | .initiatorKey d _ => some (printed d.text, some d.text)
  | .responderKey d _ => k.map fun key => (printed (key ++ '\n' :: d.text), some (key ++ '\n' :: d.text))
  | .espSa _ _ name spiText _ _ _ _ =>
    some (printed (Text.pyStrip name) ++ printed (Text.pyStrip spiText), k)

/-- The header of a dump, which leaves an idle scan in the dump. -/
theorem line_header (hs : s.Idle k) (d : Dump) :
    (lineKind d.header = .secret → ∃ s', s.line d.header = .ok (s', []) ∧
      s'.InDump false (d.name ++ colon) d.nbytes) ∧
    (lineKind d.header = .initiatorKey → ∃ s', s.line d.header = .ok (s', []) ∧
      s'.InDump true (d.name ++ colon) d.nbytes) ∧
    (lineKind d.header = .responderKey → ∀ key, k = some key → ∃ s', s.line d.header = .ok (s', []) ∧
      s'.InDump true (key ++ '\n' :: d.name ++ colon) d.nbytes) := by
  refine ⟨fun hkind => ⟨{ s with
      extractIsakmpKeys := true, key := some (d.name ++ colon), nbytes := some d.nbytes }, ?_,
      ⟨rfl, hs.esp, hs.display, rfl, rfl⟩⟩,
    fun hkind => ⟨{ s with
      extractEspKeys := true, key := some (d.name ++ colon), nbytes := some d.nbytes }, ?_,
      ⟨hs.isakmp, rfl, hs.display, rfl, rfl⟩⟩,
    fun hkind key hk => ⟨{ s with
      extractEspKeys := true, key := some (key ++ '\n' :: d.name ++ colon), nbytes := some d.nbytes }, ?_,
      ⟨hs.isakmp, rfl, hs.display, rfl, rfl⟩⟩⟩
  · simp [Scan.line, hs.isakmp, hkind, d.header_name, d.header_bytes, bind, Except.bind, pure, Except.pure]
  · simp [Scan.line, hs.isakmp, hs.esp, hkind, d.header_name, d.header_bytes, bind, Except.bind, pure,
      Except.pure]
  · simp [Scan.line, hs.isakmp, hs.esp, hkind, d.header_name, d.header_bytes, hs.key, hk, bound, bind,
      Except.bind, pure, Except.pure]

theorem line_unassigned (hs : s.Idle none) (d : Dump) (kind : lineKind d.header = .responderKey) :
    s.line d.header = .error .unboundLocalError := by
  simp [Scan.line, hs.isakmp, hs.esp, kind, d.header_name, d.header_bytes, hs.key, bound, bind, Except.bind]

theorem line_espSa {name : Text} (hs : s.Idle k) (kind : lineKind line = .espSa)
    (parts : afterTag line = .ok name) :
    s.line line = .ok ({ s with displayEspKeys := true }, printed (Text.pyStrip name)) := by
  simp [Scan.line, hs.isakmp, hs.esp, hs.display, kind, parts, bind, Except.bind, pure, Except.pure]

/-- From an idle scan an entry is read to its end. -/
theorem scan_entry (hs : s.Idle k) (h : e.run k = some (out, k')) :
    ∃ s', scan s e.lines = (out, .ok s') ∧ s'.Idle k' := by
  -- a dump behind its header, with the text that `key` has there
  have hdump : ∀ (d : Dump) (esp : Bool) (key : Text) (t : Scan), s.line d.header = .ok (t, []) →
      t.InDump esp (key ++ (d.name ++ colon)) d.nbytes →
      ∃ s', scan s (d.header :: d.body) = (printed (key ++ d.text), .ok s') ∧ s'.Idle (some (key ++ d.text)) := by
    intro d esp key t hline ht
    obtain ⟨s', hbody, hs'⟩ := scan_body d ht
    refine ⟨s', ?_, ?_⟩
    · rw [scan_cons_ok hline, hbody]
      simp [Dump.text]
    · simpa [Dump.text] using hs'
  cases e with
  | other line kind =>
    cases h
    exact ⟨s, scan_other hs (List.forall_mem_singleton.2 kind), hs⟩
  | spi line name digits kind parts =>
    cases h
    have hline : s.line line =
        .ok ({ s with key := some name }, printed (name ++ colon ++ swapBytes digits)) := by
      simp [Scan.line, hs.isakmp, kind, parts, bind, Except.bind, pure, Except.pure]
    refine ⟨{ s with key := some name }, ?_, ⟨hs.isakmp, hs.esp, hs.display, rfl⟩⟩
    rw [Entry.lines, scan_cons_ok hline]
    simp [scan]
  | secret d kind =>
    cases h
    obtain ⟨t, hline, ht⟩ := (line_header hs d).1 kind
    exact hdump d false [] t hline ht
  | initiatorKey d kind =>
    cases h
    obtain ⟨t, hline, ht⟩ := (line_header hs d).2.1 kind
    exact hdump d true [] t hline ht
  | responderKey d kind =>
    obtain ⟨key, rfl, heq⟩ := Option.map_eq_some_iff.1 h
    cases heq
    obtain ⟨t, hline, ht⟩ := (line_header hs d).2.2 kind key rfl
    have ht' : t.InDump true ((key ++ ['\n']) ++ (d.name ++ colon)) d.nbytes := by simpa using ht
    simpa [Entry.lines] using hdump d true (key ++ ['\n']) t hline ht'
  | espSa line next name spi kind next_kind parts next_parts =>
    cases h
    have hnext : Scan.line { s with displayEspKeys := true } next =
        .ok ({ s with displayEspKeys := false }, printed (Text.pyStrip spi)) := by
      simp [Scan.line, hs.isakmp, hs.esp, next_kind, next_parts, bind, Except.bind, pure, Except.pure]
    refine ⟨{ s with displayEspKeys := false }, ?_, ⟨hs.isakmp, hs.esp, rfl, hs.key⟩⟩
    rw [Entry.lines, scan_cons_ok (line_espSa hs kind parts), scan_cons_ok hnext]
    simp [scan]

/-- An entry that reads `key` where it has not been assigned ends the scan. -/
theorem scan_entry_error (hs : s.Idle k) (h : e.run k = none) (rest : List Text) :
    scan s (e.lines ++ rest) = ([], .error .unboundLocalError) := by
  cases e with
  | responderKey d kind =>
    have hk : k = none := Option.map_eq_none_iff.1 h
    subst hk
    exact scan_cons_error (line_unassigned hs d kind)
  | _ => cases h

/-- A poll that comes inside an entry loses something that it prints. -/
theorem scan_cut {u v : List Text} (hs : s.Idle k) (hcut : e.lines = u ++ v) (hu : u ≠ []) (hv : v ≠ [])
    (hscan : scan s u = (out, .ok s')) {k₀ k₁ : Option Text} {out₀ : Text}
    (hrun : e.run k₀ = some (out₀, k₁)) : out.length < out₀.length := by
  obtain ⟨line, u, rfl⟩ := List.exists_cons_of_ne_nil hu
  have hpos : 0 < v.length := List.length_pos_iff.2 hv
  -- a header and a part of its dump print nothing
  have hdump : ∀ (d : Dump) (esp : Bool) (key : Text) (t : Scan), d.header :: d.body = line :: (u ++ v) →
      s.line d.header = .ok (t, []) → t.InDump esp key d.nbytes → out = [] := by
    intro d esp key t hlines hline ht
    obtain ⟨rfl, hbody⟩ := List.cons.inj hlines
    have hshort := d.body_short
    have hdigits := d.body_digits
    have hkind := d.body_other
    rw [hbody, List.length_append, Nat.cast_add] at hshort
    rw [hbody, List.forall_mem_append] at hdigits hkind
    obtain ⟨t', hpart, -⟩ := scan_inDump ht hdigits.1 hkind.1 (by omega)
    rw [scan_cons_ok hline, hpart] at hscan
    exact (Prod.mk.inj hscan).1.symm
  cases e with
  | other l kind =>
    have hlen := congrArg List.length hcut
    rw [Entry.lines, List.length_singleton, List.length_append, List.length_cons] at hlen
    omega
  | spi l name digits kind parts =>
    have hlen := congrArg List.length hcut
    rw [Entry.lines, List.length_singleton, List.length_append, List.length_cons] at hlen
    omega
  | secret d kind =>
    obtain ⟨t, hline, ht⟩ := (line_header hs d).1 kind
    rw [hdump d false _ t hcut hline ht]
    cases hrun
    simp [printed]
  | initiatorKey d kind =>
    obtain ⟨t, hline, ht⟩ := (line_header hs d).2.1 kind
    rw [hdump d true _ t hcut hline ht]
    cases hrun
    simp [printed]
  | responderKey d kind =>
    obtain ⟨key₀, -, heq⟩ := Option.map_eq_some_iff.1 hrun
    cases heq
    cases k with
    | none =>
      obtain ⟨rfl, -⟩ := List.cons.inj hcut
      rw [scan_cons_error (line_unassigned hs d kind)] at hscan
      cases hscan
    | some key =>
      obtain ⟨t, hline, ht⟩ := (line_header hs d).2.2 kind key rfl
      rw [hdump d true _ t hcut hline ht]
      simp only [printed, List.length_append, List.length_nil, List.length_cons]
      omega
  | espSa l next name spi kind next_kind parts next_parts =>
    have hlen := congrArg List.length hcut
    simp only [Entry.lines, List.length_append, List.length_cons, List.length_nil] at hlen
    have hu : u = [] := List.length_eq_zero_iff.1 (by omega)
    subst hu
    obtain ⟨rfl, -⟩ := List.cons.inj hcut
    rw [scan_cons_ok (line_espSa hs kind parts)] at hscan
    cases hscan
    cases hrun
    simp [scan, printed]

/-- Behind its first line an entry has other lines only. -/
theorem tail_other {u v : List Text} (hcut : e.lines = u ++ v) (hu : u ≠ []) :
    ∀ line ∈ v, lineKind line = .other := by
  obtain ⟨l, u, rfl⟩ := List.exists_cons_of_ne_nil hu
  have htail : ∀ line ∈ e.lines.tail, lineKind line = .other := by
    cases e with
    | other l kind => exact List.forall_mem_nil _
    | spi l name digits kind parts => exact List.forall_mem_nil _
    | secret d kind => exact d.body_other
    | initiatorKey d kind => exact d.body_other
    | responderKey d kind => exact d.body_other
    | espSa l next name spi kind next_kind parts next_parts => exact List.forall_mem_singleton.2 next_kind
  intro line hline
  refine htail line ?_
  rw [hcut]
  exact List.mem_append_right u hline

/-! ## Lists of entries -/

/-- What entries print one after another, and what `key` is after them. -/
def runAll (k : Option Text) : List Entry → Option (Text × Option Text)
  | [] => some ([], k)
  | e :: es => (e.run k).bind fun p => (runAll p.2 es).map fun q => (p.1 ++ q.1, q.2)

theorem runAll_cons (h : runAll k (e :: es) = some (out, k')) :
    ∃ out₁ k₁ out₂, e.run k = some (out₁, k₁) ∧ runAll k₁ es = some (out₂, k') ∧ out = out₁ ++ out₂ := by
  obtain ⟨⟨out₁, k₁⟩, he, h⟩ := Option.bind_eq_some_iff.1 h
  obtain ⟨⟨out₂, k₂⟩, hes, heq⟩ := Option.map_eq_some_iff.1 h
  cases heq
  exact ⟨out₁, k₁, out₂, he, hes, rfl⟩

theorem runAll_append {es' : List Entry} (h : runAll k (es ++ es') = some (out, k')) :
    ∃ out₁ k₁ out₂, runAll k es = some (out₁, k₁) ∧ runAll k₁ es' = some (out₂, k') ∧ out = out₁ ++ out₂ := by
  induction es generalizing k out with
  | nil => exact ⟨[], k, out, rfl, h, rfl⟩
  | cons e es ih =>
    obtain ⟨out₁, k₁, out₂, he, hes, rfl⟩ := runAll_cons h
    obtain ⟨out₃, k₃, out₄, hes₁, hes₂, rfl⟩ := ih hes
    refine ⟨out₁ ++ out₃, k₃, out₄, ?_, hes₂, (List.append_assoc _ _ _).symm⟩
    rw [runAll, he, Option.bind_some, hes₁]
    rfl

theorem scan_entries (hs : s.Idle k) (h : runAll k es = some (out, k')) :
    ∃ s', scan s (es.flatMap Entry.lines) = (out, .ok s') ∧ s'.Idle k' := by
  induction es generalizing s k out with
  | nil =>
    cases h
    exact ⟨s, rfl, hs⟩
  | cons e es ih =>
    obtain ⟨out₁, k₁, out₂, he, hes, rfl⟩ := runAll_cons h
    obtain ⟨t, hscan, ht⟩ := scan_entry hs he
    obtain ⟨s', hscan', hs'⟩ := ih ht hes
    refine ⟨s', ?_, hs'⟩
    rw [List.flatMap_cons, scan_append_ok hscan, hscan']

theorem scan_entries_error (hs : s.Idle k) (h : runAll k es = none) :
    ∃ out err, scan s (es.flatMap Entry.lines) = (out, .error err) := by
  induction es generalizing s k with
  | nil => cases h
  | cons e es ih =>
    rw [List.flatMap_cons]
    cases he : e.run k with
    | none => exact ⟨[], _, scan_entry_error hs he _⟩
    | some p =>
      obtain ⟨out₁, k₁⟩ := p
      rw [runAll, he, Option.bind_some, Option.map_eq_none_iff] at h
      obtain ⟨t, hscan, ht⟩ := scan_entry hs he
      obtain ⟨out, err, hscan'⟩ := ih ht h
      exact ⟨out₁ ++ out, err, by rw [scan_append_ok hscan, hscan']⟩

theorem run_isSome (k : Option Text) (e : Entry) :
    (e.readsKey = true → k.isSome = true) ↔ ∃ out k', e.run k = some (out, k') := by
  cases e with
  | responderKey d kind =>
    cases k with
    | none => exact iff_of_false (fun h => Bool.false_ne_true (h rfl)) (by rintro ⟨_, _, h⟩; cases h)
    | some key => exact iff_of_true (fun _ => rfl) ⟨_, _, rfl⟩
  | _ => exact iff_of_true (fun h => absurd h Bool.false_ne_true) ⟨_, _, rfl⟩

theorem isSome_of_run (h : e.run k = some (out, k')) : k'.isSome = (k.isSome || e.assignsKey) := by
  cases e with
  | responderKey d kind =>
    obtain ⟨key, rfl, heq⟩ := Option.map_eq_some_iff.1 h
    cases heq
    rfl
  | _ =>
    cases h
    simp [Entry.assignsKey]

/-- The entries are read without an exception exactly if `key` has been assigned whenever it is read. -/
theorem runAll_isSome (k : Option Text) (es : List Entry) :
    Keyed k.isSome es ↔ ∃ out k', runAll k es = some (out, k') := by
  induction es generalizing k with
  | nil => exact iff_of_true trivial ⟨[], k, rfl⟩
  | cons e es ih =>
    rw [Keyed, run_isSome]
    constructor
    · rintro ⟨⟨out₁, k₁, he⟩, hes⟩
      rw [← isSome_of_run he, ih] at hes
      obtain ⟨out₂, k₂, hes⟩ := hes
      exact ⟨out₁ ++ out₂, k₂, by rw [runAll, he, Option.bind_some, hes]; rfl⟩
    · rintro ⟨out, k', h⟩
      obtain ⟨out₁, k₁, out₂, he, hes, -⟩ := runAll_cons h
      refine ⟨⟨out₁, k₁, he⟩, ?_⟩
      rw [← isSome_of_run he, ih]
      exact ⟨out₂, k', hes⟩

/-- The first value is the second one, or has not been assigned. -/
def Below (k k' : Option Text) : Prop := k = none ∨ k = k'

theorem run_of_below {k₀ : Option Text} (hb : Below k k₀) (h : e.run k = some (out, k')) :
    ∃ k₁, e.run k₀ = some (out, k₁) ∧ Below k' k₁ := by
  rcases hb with rfl | rfl
  · cases e with
    | other l kind =>
      cases h
      exact ⟨k₀, rfl, .inl rfl⟩
    | espSa l next name spi kind next_kind parts next_parts =>
      cases h
      exact ⟨k₀, rfl, .inl rfl⟩
    | responderKey d kind => cases h
    | _ =>
      cases h
      exact ⟨_, rfl, .inr rfl⟩
  · exact ⟨k', h, .inr rfl⟩

theorem runAll_of_below {k₀ : Option Text} (hb : Below k k₀) (h : runAll k es = some (out, k')) :
    ∃ k₁, runAll k₀ es = some (out, k₁) := by
  induction es generalizing k k₀ out with
  | nil =>
    cases h
    exact ⟨k₀, rfl⟩
  | cons e es ih =>
    obtain ⟨out₁, k₁, out₂, he, hes, rfl⟩ := runAll_cons h
    obtain ⟨k₂, he', hb'⟩ := run_of_below hb he
    obtain ⟨k₃, hes'⟩ := ih hb' hes
    exact ⟨k₃, by rw [runAll, he', Option.bind_some, hes']; rfl⟩

/-- What entries print does not depend on what stands before them, if they can be read on their own. -/
theorem runAll_of_none (k : Option Text) (h : runAll none es = some (out, k')) :
    ∃ k₁, runAll k es = some (out, k₁) := runAll_of_below (.inl rfl) h

/-! ## Polls -/

/-- A poll goes through the lines that have been added. -/
theorem follow_cons (file added : List Text) (more : List (List Text)) :
    follow file file.length (added :: more) =
      (Outcome.of (file ++ added) (scan .start added)).andThen fun _ =>
        follow (file ++ added) (file ++ added).length more := by
  have hcall : extractKeys (file ++ added) file.length = .of (file ++ added) (scan .start added) := by
    rw [extractKeys, List.drop_left, if_neg]
    rw [List.length_append]
    omega
  rw [follow, hcall]
  unfold Outcome.andThen Outcome.of
  cases (scan .start added).2 <;> rfl

theorem follow_cons_ok {file added : List Text} {more : List (List Text)}
    (h : scan .start added = (out, .ok s')) :
    follow file file.length (added :: more) =
      ⟨out ++ (follow (file ++ added) (file ++ added).length more).output,
        (follow (file ++ added) (file ++ added).length more).result⟩ := by
  rw [follow_cons, h]
  rfl

/-- If all polls return, so does the first of them, and the others go on from there. -/
theorem of_follow_cons {file added : List Text} {more : List (List Text)} {n : ℕ}
    (h : follow file file.length (added :: more) = ⟨out, .ok n⟩) :
    ∃ out₁ s' out₂, scan .start added = (out₁, .ok s') ∧
      follow (file ++ added) (file ++ added).length more = ⟨out₂, .ok n⟩ ∧ out = out₁ ++ out₂ := by
  rcases hscan : scan .start added with ⟨out₁, err | s'⟩
  · rw [follow_cons, hscan] at h
    cases h
  · rw [follow_cons_ok hscan] at h
    obtain ⟨hout, hresult⟩ := Outcome.mk.inj h
    refine ⟨out₁, s', (follow (file ++ added) (file ++ added).length more).output, rfl, ?_, hout.symm⟩
    rw [← hresult]

theorem follow_groups (groups : List (List Entry)) (hkeyed : ∀ g ∈ groups, Keyed false g) (file : List Text)
    (h : runAll k groups.flatten = some (out, k')) :
    follow file file.length (groups.map (·.flatMap Entry.lines)) =
      ⟨out, .ok (file ++ groups.flatten.flatMap Entry.lines).length⟩ := by
  induction groups generalizing k out file with
  | nil =>
    cases h
    simp [follow]
  | cons g groups ih =>
    rw [List.forall_mem_cons] at hkeyed
    obtain ⟨out₁, k₁, out₂, hg, hrest, rfl⟩ := runAll_append h
    -- the group prints on its own what it prints behind the others
    obtain ⟨out₀, k₀, hg₀⟩ := (runAll_isSome none g).1 hkeyed.1
    obtain ⟨k₂, hg₁⟩ := runAll_of_none k hg₀
    rw [hg] at hg₁
    cases hg₁
    obtain ⟨s', hscan, -⟩ := scan_entries idle_start hg₀
    rw [List.map_cons, follow_cons_ok hscan, ih hkeyed.2 _ hrest, List.flatten_cons, List.flatMap_append,
      List.append_assoc]

/-- Polls never print more than one call over the whole file, and as much only if they come between
entries. The first lines may be what is left of an entry that a poll has cut. -/
theorem length_follow_le (added : List (List Text)) (file : List Text) {tail : List Text} {n : ℕ}
    {out₀ : Text}
    (htail : ∀ line ∈ tail, lineKind line = .other) (hrun : runAll k es = some (out₀, k'))
    (hadded : added.flatten = tail ++ es.flatMap Entry.lines)
    (hfollow : follow file file.length added = ⟨out, .ok n⟩) :
    out.length ≤ out₀.length ∧ (tail = [] → out.length = out₀.length →
      ∃ groups : List (List Entry), groups.flatten = es ∧ added = groups.map (·.flatMap Entry.lines) ∧
        ∀ g ∈ groups, Keyed false g) := by
  induction added generalizing file tail es k out out₀ with
  | nil =>
    have hnil := (List.append_eq_nil_iff.1 hadded.symm).2
    cases hfollow
    refine ⟨Nat.zero_le _, fun _ _ => ?_⟩
    cases es with
    | nil => exact ⟨[], rfl, rfl, List.forall_mem_nil _⟩
    | cons e es =>
      rw [List.flatMap_cons] at hnil
      have hlines := (List.append_eq_nil_iff.1 hnil).1
      cases e <;> cases hlines
  | cons lines more ih =>
    obtain ⟨out₁, s', out₂, hscan, hmore, rfl⟩ := of_follow_cons hfollow
    rw [List.flatten_cons, List.append_eq_append_iff] at hadded
    rcases hadded with ⟨left, rfl, hrest⟩ | ⟨front, rfl, hrest⟩
    · -- the poll does not get beyond the rest of the cut entry
      rw [List.forall_mem_append] at htail
      rw [scan_other idle_start htail.1] at hscan
      cases hscan
      obtain ⟨hle, hclean⟩ := ih _ htail.2 hrun hrest hmore
      refine ⟨hle, fun hnil heq => ?_⟩
      obtain ⟨rfl, rfl⟩ := List.append_eq_nil_iff.1 hnil
      obtain ⟨groups, hflat, hmap, hkeyed⟩ := hclean rfl heq
      refine ⟨[] :: groups, hflat, by rw [hmap]; rfl, List.forall_mem_cons.2 ⟨trivial, hkeyed⟩⟩
    · replace hscan : scan .start front = (out₁, .ok s') := by
        rw [scan_append_ok (scan_other idle_start htail)] at hscan
        exact hscan
      rcases List.flatMap_eq_append_cases hrest with ⟨es₁, es₂, rfl, rfl, hleft⟩ |
        ⟨es₁, e, es₂, u, v, rfl, hcut, hu, hv, rfl, hleft⟩
      · -- the poll ends between two entries
        obtain ⟨out₃, k₁, out₄, hrun₁, hrun₂, rfl⟩ := runAll_append hrun
        cases hown : runAll none es₁ with
        | none =>
          obtain ⟨o, err, herr⟩ := scan_entries_error idle_start hown
          rw [herr] at hscan
          cases hscan
        | some p =>
          obtain ⟨out₅, k₂⟩ := p
          obtain ⟨k₃, hsame⟩ := runAll_of_none k hown
          rw [hrun₁] at hsame
          cases hsame
          obtain ⟨t, hscan₁, -⟩ := scan_entries idle_start hown
          rw [hscan₁] at hscan
          cases hscan
          obtain ⟨hle, hclean⟩ := ih _ (List.forall_mem_nil _) hrun₂ hleft hmore
          rw [List.length_append, List.length_append]
          refine ⟨by omega, fun htail heq => ?_⟩
          obtain ⟨groups, hflat, hmap, hkeyed⟩ := hclean rfl (by omega)
          have hfirst : Keyed false es₁ := (runAll_isSome none es₁).2 ⟨_, _, hown⟩
          refine ⟨es₁ :: groups, by rw [List.flatten_cons, hflat], ?_,
            List.forall_mem_cons.2 ⟨hfirst, hkeyed⟩⟩
          rw [htail, hmap]
          rfl
      · -- the poll ends inside an entry, whose last print is lost
        obtain ⟨out₃, k₁, out₄, hrun₁, hrun₂, rfl⟩ := runAll_append hrun
        obtain ⟨out₅, k₂, out₆, he, hrun₃, rfl⟩ := runAll_cons hrun₂
        cases hown : runAll none es₁ with
        | none =>
          obtain ⟨o, err, herr⟩ := scan_entries_error idle_start hown
          rw [scan_append_error herr] at hscan
          cases hscan
        | some p =>
          obtain ⟨out₇, k₃⟩ := p
          obtain ⟨k₄, hsame⟩ := runAll_of_none k hown
          rw [hrun₁] at hsame
          cases hsame
          obtain ⟨t, hscan₁, ht⟩ := scan_entries idle_start hown
          rw [scan_append_ok hscan₁] at hscan
          rcases hpart : scan t u with ⟨o, err | t'⟩
          · rw [hpart] at hscan
            cases hscan
          · rw [hpart] at hscan
            cases hscan
            have hlost := scan_cut ht hcut hu hv hpart he
            obtain ⟨hle, -⟩ := ih _ (tail_other hcut hu) hrun₃ hleft hmore
            simp only [List.length_append]
            exact ⟨by omega, fun _ heq => absurd heq (by omega)⟩

theorem extractKeys_log (log : KeyLog) :
    ∃ out k', runAll none log.entries = some (out, k') ∧
      extractKeys log.lines 0 = ⟨out, .ok log.lines.length⟩ := by
  obtain ⟨out, k', hrun⟩ := (runAll_isSome none log.entries).1 log.keyed
  obtain ⟨s', hscan, -⟩ := scan_entries idle_start hrun
  refine ⟨out, k', hrun, ?_⟩
  have hlines : scan .start (log.lines.drop 0) = (out, .ok s') := hscan
  rw [extractKeys, hlines, if_neg (Nat.not_lt_zero _)]
  rfl

/-- For every log and every way in which it grows by whole lines, the polls print together what one call
prints for the final file, and return, exactly if no poll comes inside an entry and every key of a
responder finds in the same poll the key that it is added to. -/
theorem follow_eq_extractKeys_iff (log : KeyLog) (added : List (List Text))
    (h : added.flatten = log.lines) :
    follow [] 0 added = extractKeys log.lines 0 ↔ CutBetween log added := by
  obtain ⟨out, k', hrun, hcall⟩ := extractKeys_log log
  rw [hcall]
  constructor
  · intro hfollow
    exact (length_follow_le added [] (List.forall_mem_nil _) hrun h hfollow).2 rfl rfl
  · rintro ⟨groups, hflat, rfl, hkeyed⟩
    rw [← hflat] at hrun
    have hfollow := follow_groups groups hkeyed [] hrun
    rw [hflat] at hfollow
    exact hfollow

/-! ## A sample log -/

/-- The lines of a key of four bytes. -/
def sampleKey (name : String) : List Text :=
  [("05[KNL] " ++ name ++ " => 4 bytes @ 0x7f10\n").toList, "05[KNL]    0: 01 02 03 04  ....\n".toList]

/-- A key of an IKE SA as the ePDG logs it. -/
def sampleSecret : Entry :=
  .secret
    { header := "05[KNL] Sk_ai secret => 4 bytes @ 0x7f10\n".toList
      body := ["05[KNL]    0: 01 02 03 04  ....\n".toList]
      name := "Sk_ai secret".toList
      nbytes := 4
      header_name := by rfl
      header_bytes := by rfl
      body_digits := List.forall_mem_singleton.2 ⟨"01020304".toList, by rfl⟩
      body_other := List.forall_mem_singleton.2 (by decide +kernel)
      body_long := by decide
      body_short := by decide
      body_ne := List.cons_ne_nil _ _ }
    (by decide +kernel)

def sampleLog : KeyLog := ⟨[sampleSecret], fun h => absurd h Bool.false_ne_true, trivial⟩

theorem follow_sampleLog :
    [sampleKey "Sk_ai secret", []].flatten = sampleLog.lines ∧
      follow [] 0 [sampleKey "Sk_ai secret", []] = extractKeys sampleLog.lines 0 := by
  have hlines : [sampleKey "Sk_ai secret", []].flatten = sampleLog.lines := by decide +kernel
  refine ⟨hlines, (follow_eq_extractKeys_iff sampleLog _ hlines).2 ⟨[[sampleSecret], []], rfl, ?_, ?_⟩⟩
  · decide +kernel
  · simp only [List.forall_mem_cons]
    exact ⟨sampleLog.keyed, trivial, List.forall_mem_nil _⟩

/-- A poll between the header and the dump loses the key; a poll between the keys of the initiator and the
responder ends in an exception. -/
theorem follow_loses_keys :
    (extractKeys (sampleKey "Sk_ai secret") 0).output = "Sk_ai secret: 01020304\n".toList ∧
      (follow [] 0 ((sampleKey "Sk_ai secret").map ([·]))).output = [] ∧
      (extractKeys (sampleKey "encryption initiator key" ++ sampleKey "encryption responder key") 0).result =
        .ok 4 ∧
      (follow [] 0 [sampleKey "encryption initiator key", sampleKey "encryption responder key"]).result =
        .error .unboundLocalError := by
  refine ⟨by decide +kernel, by decide +kernel, by rfl, by rfl⟩

end Scripts

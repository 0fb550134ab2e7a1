import Mathlib.Data.Nat.Digits.Lemmas
import VoWiFi.Control.Proofs.MessageLogProofs
import VoWiFi.Report.Codec

/-!
# Which values reach the controller

`int_to_char` writes as many digits as a number has digits other than zero, so that it writes a number
in full exactly if no digit of it is zero. The rest is a matter of the separators: what stands between
the colons of a line is what `split` returns, and no name or value the controller reads has a colon or a
line end in it.
-/

namespace Report

open Control

/-! ## Numbers -/

theorem digitByte_eq_digitChar {d : ℕ} (hd : d < 16) : digitByte d = Nat.digitChar d := by
  interval_cases d <;> rfl

theorem toDigits_eq_digits {base n : ℕ} (hb : 1 < base) (hb' : base ≤ 16) (hn : n ≠ 0) :
    Nat.toDigits base n = ((Nat.digits base n).map digitByte).reverse := by
  induction n using Nat.strong_induction_on with
  | _ n ih =>
    have hmod : n % base < base := Nat.mod_lt _ (by omega)
    rw [Nat.toDigits_eq_if hb, Nat.digits_def' hb (by omega), List.map_cons,
      List.reverse_cons, digitByte_eq_digitChar (by omega)]
    by_cases hlt : n < base
    · rw [if_pos hlt, Nat.div_eq_of_lt hlt, Nat.mod_eq_of_lt hlt, Nat.digits_zero]
      rfl
    · have hpos : n / base ≠ 0 := by
        rw [Nat.div_ne_zero_iff]
        omega
      rw [if_neg hlt, ih (n / base) (Nat.div_lt_self (by omega) hb) hpos]

/-- A number is written in full exactly if it has no digit zero. -/
theorem intToChar_eq_numeral_iff {base n : ℕ} (hb : 1 < base) (hb' : base ≤ 16) :
    intToChar n base = Nat.toDigits base n ↔ n ≠ 0 ∧ 0 ∉ Nat.digits base n := by
  by_cases hn : n = 0
  · subst hn
    refine iff_of_false (fun h => ?_) (fun h => h.1 rfl)
    rw [intToChar, Int.toNat_natCast, Nat.digits_zero, Nat.toDigits_zero] at h
    cases h
  · have hlen : ∀ k, ((((Nat.digits base n).take k).map digitByte).reverse).length =
        min k (Nat.digits base n).length := by
      intro k
      simp
    rw [toDigits_eq_digits hb hb' hn, intToChar, Int.toNat_natCast]
    constructor
    · intro h
      refine ⟨hn, fun hzero => ?_⟩
      have hcount := congrArg List.length h
      rw [hlen, List.length_reverse, List.length_map] at hcount
      have hall : (Nat.digits base n).countP (0 < ·) = (Nat.digits base n).length := by
        have hle := List.countP_le_length (p := fun d : ℕ => decide (0 < d)) (l := Nat.digits base n)
        omega
      have hpos := List.countP_eq_length.1 hall 0 hzero
      exact absurd hpos (by decide)
    · rintro ⟨-, hzero⟩
      have hall : (Nat.digits base n).countP (0 < ·) = (Nat.digits base n).length := by
        rw [List.countP_eq_length]
        intro d hd
        have hne : d ≠ 0 := fun h => hzero (h ▸ hd)
        exact decide_eq_true (Nat.pos_of_ne_zero hne)
      simp only [hall, List.take_length]

theorem intToChar_eq_toDigits_iff {n : ℕ} : intToChar n 10 = Nat.toDigits 10 n ↔ ZeroFree n := by
  rw [intToChar_eq_numeral_iff (by omega) (by omega)]
  exact ⟨fun h => ⟨h.1, h.2⟩, fun h => ⟨h.1, h.2⟩⟩

theorem mem_intToChar {n : ℤ} {c : Char} (h : c ∈ intToChar n 10) : c.isDigit := by
  rw [intToChar, List.mem_reverse, List.mem_map] at h
  obtain ⟨d, hd, rfl⟩ := h
  have hlt : d < 10 := Nat.digits_lt_base (by omega) (List.mem_of_mem_take hd)
  interval_cases d <;> rfl

/-! ## The line of a report -/

theorem oneLine_of_isDigit {s : Text} (h : ∀ c ∈ s, c.isDigit) : ':' ∉ s ∧ Text.OneLine s :=
  ⟨fun hc => absurd (h _ hc) (by decide), fun hc => absurd (h _ hc) (by decide),
    fun hc => absurd (h _ hc) (by decide)⟩

theorem digitByte_line {d : ℕ} (hd : d < 16) : digitByte d ≠ '\r' ∧ digitByte d ≠ '\n' := by
  interval_cases d <;> decide

theorem oneLine_hex16 (n : UInt64) : Text.OneLine (hex16 n) := by
  have hmem : ∀ c ∈ hex16 n, c ≠ '\r' ∧ c ≠ '\n' := by
    intro c hc
    obtain ⟨i, -, rfl⟩ := List.mem_map.1 hc
    exact digitByte_line (Nat.mod_lt _ (by omega))
  exact ⟨fun h => (hmem _ h).1 rfl, fun h => (hmem _ h).2 rfl⟩

/-- The SPIs of the line of a report. -/
def Server.lineSpis (server : Server) (m : Msg) : LineSpis :=
  match server with
  | epdg =>
    { ispi := hex16 m.ispi
      rspi := hex16 m.rspi
      length_ispi := by simp [hex16]
      length_rspi := by simp [hex16]
      line_ispi := oneLine_hex16 _
      line_rspi := oneLine_hex16 _ }
  | ims => sampleSpis

/-- What follows the SPIs in the line of a report with a value. -/
def entryText (key type value : Text) : Text := key ++ ':' :: type ++ ':' :: value

theorem line_eq (server : Server) {m : Msg} (h : m.value.present) :
    server.line m = reportLine m.mtype.byte (server.lineSpis m)
      (entryText m.key (intToChar m.value.vtype 10) (server.valueText m.value)) ++ ['\n'] := by
  cases server with
  | epdg => simp [Server.line, h, reportLine, entryText, Server.spis, Server.lineSpis]
  | ims => simp [Server.line, h, reportLine, entryText, Server.spis, Server.lineSpis, sampleSpis]

/-- What is written for a value. -/
def Server.sent (server : Server) (v : Value) : Text := server.valueText (server.stored v)

theorem vtype_stored (server : Server) (v : Value) : (server.stored v).vtype = v.vtype := by
  cases server <;> cases v <;> rfl

theorem intToChar_vtype (v : Value) : intToChar v.vtype 10 = Nat.toDigits 10 v.vtype := by
  have hmem : v.vtype ∈ [1, 2, 3, 5, 11] := by
    cases v <;> simp [Value.vtype]
  have hzero : ∀ n ∈ [1, 2, 3, 5, 11], ZeroFree n := by decide
  exact intToChar_eq_toDigits_iff.2 (hzero _ hmem)

theorem present_stored (server : Server) {v : Value} (h : v.Reportable) :
    (server.stored v).present = true := by
  cases v with
  | none => exact absurd h id
  | string s =>
    cases server with
    | epdg => exact decide_eq_true h.1
    | ims =>
      apply decide_eq_true
      intro hnil
      exact h.1 (List.length_eq_zero_iff.1 (by simpa using congrArg List.length hnil))
  | _ => cases server <;> rfl

/-- The text in the line for an entry. -/
def Entry.text (e : Entry) (server : Server) : Text :=
  entryText (Text.cstr e.key) (Nat.toDigits 10 e.value.vtype) (server.sent e.value)

/-- The report for an entry. -/
def Entry.msg (e : Entry) (server : Server) (mtype : MsgType) (ispi rspi : UInt64) : Msg :=
  ⟨mtype, ispi, rspi, Text.cstr e.key, server.stored e.value⟩

theorem line_entry (e : Entry) (server : Server) (mtype : MsgType) (ispi rspi : UInt64) :
    server.line (e.msg server mtype ispi rspi) =
      reportLine mtype.byte (server.lineSpis (e.msg server mtype ispi rspi)) (e.text server) ++
        ['\n'] := by
  rw [line_eq server (present_stored server e.reportable)]
  simp only [Entry.msg, Entry.text, Server.sent, vtype_stored, intToChar_vtype]

theorem line_attribute (e : Entry) (server : Server) (ispi rspi : UInt64) (rest : Text) :
    server.line (e.msg server .attribute ispi rspi) ++ rest =
      reportLine '\x01' (server.lineSpis (e.msg server .attribute ispi rspi)) (e.text server) ++
        '\n' :: rest := by
  rw [line_entry, List.append_assoc]
  rfl

theorem line_blockStart (e : Entry) (server : Server) (ispi rspi : UInt64) (rest : Text) :
    server.line (e.msg server .blockStart ispi rspi) ++ rest =
      reportLine '\x02' (server.lineSpis (e.msg server .blockStart ispi rspi)) (e.text server) ++
        '\n' :: rest := by
  rw [line_entry, List.append_assoc]
  rfl

theorem length_line_entry (e : Entry) (server : Server) (mtype : MsgType) (ispi rspi : UInt64) :
    (server.line (e.msg server mtype ispi rspi)).length =
      36 + (Text.cstr e.key).length + (Nat.toDigits 10 e.value.vtype).length +
        (server.sent e.value).length := by
  rw [line_entry, List.length_append, length_reportLine, Entry.text, entryText, textOffset]
  simp only [List.length_append, List.length_cons, List.length_nil]
  omega

/-- When a report is written, and as what. -/
theorem report_eq_ok {e : Entry} {server : Server} {mtype : MsgType} {ispi rspi : UInt64} {line : Text} :
    server.report mtype ispi rspi e.key e.value = .ok line ↔
      ¬ (server = .ims ∧ maxValueLen < (server.stored e.value).copied) ∧
      36 + (Text.cstr e.key).length + (Nat.toDigits 10 e.value.vtype).length +
        (server.sent e.value).length ≤ maxMessageLen ∧
      line = server.line (e.msg server mtype ispi rspi) := by
  have hlen := length_line_entry e server mtype ispi rspi
  rw [Server.report, Server.initMessage]
  by_cases hkey : (Text.cstr e.key).length ≤ maxMessageLen
  · rw [if_pos hkey]
    change server.send (e.msg server mtype ispi rspi) = _ ↔ _
    rw [Server.send, hlen]
    change (if server = .ims ∧ maxValueLen < (server.stored e.value).copied then _ else _) = _ ↔ _
    by_cases hread : server = .ims ∧ maxValueLen < (server.stored e.value).copied
    · rw [if_pos hread]
      exact ⟨nofun, fun h => absurd hread h.1⟩
    · rw [if_neg hread]
      by_cases hfits : 36 + (Text.cstr e.key).length + (Nat.toDigits 10 e.value.vtype).length +
          (server.sent e.value).length ≤ maxMessageLen
      · rw [if_pos hfits, Except.ok.injEq]
        exact ⟨fun h => ⟨hread, hfits, h.symm⟩, fun h => h.2.2.symm⟩
      · rw [if_neg hfits]
        exact ⟨nofun, fun h => absurd h.2.1 hfits⟩
  · rw [if_neg hkey]
    refine ⟨nofun, fun h => ?_⟩
    have hle := h.2.1
    omega

/-! ## What is read -/

theorem vtype_eq (v : Value) : v.vtype = v.logType.getValueTypeAsInteger := by
  cases v <;> rfl

theorem store_text {e : Entry} {server : Server} (type : MessageLogType)
    (hsent : ':' ∉ server.sent e.value) :
    (LogItem.new type).store (e.text server) =
      some (if server.sent e.value = [] then ⟨type, some (Text.cstr e.key), .none, none⟩
        else ⟨type, some (Text.cstr e.key), e.value.logType, some (server.sent e.value)⟩) := by
  have hkey : ':' ∉ Text.cstr e.key := fun h => e.key_colon (Text.mem_of_mem_cstr h)
  have hne : e.text server ≠ [] := by
    simp [Entry.text, entryText]
  rw [LogItem.store, if_neg hne, Entry.text, entryText, vtype_eq, setFields_parts _ _ hkey hsent]
  rfl

theorem logText_ne_nil {v : Value} (h : v.Reportable) : v.logText ≠ [] := by
  have hdigits : ∀ n, Nat.toDigits 10 n ≠ [] := by
    intro n
    rw [Nat.toDigits_eq_if (by omega)]
    split <;> simp
  cases v with
  | none => exact absurd h id
  | string s => exact h.1
  | _ => exact hdigits _

/-- What is stored for an entry is the entry if it is written in full. -/
theorem stored_eq_item_iff {e : Entry} {server : Server} {type : MessageLogType} :
    (if server.sent e.value = [] then ⟨type, some (Text.cstr e.key), .none, none⟩
      else ⟨type, some (Text.cstr e.key), e.value.logType, some (server.sent e.value)⟩ : LogItem) =
        e.item type ↔
      Text.cstr e.key = e.key ∧ server.sent e.value = e.value.logText := by
  have hne := logText_ne_nil e.reportable
  by_cases hnil : server.sent e.value = []
  · rw [if_pos hnil, hnil]
    constructor
    · intro h
      exact absurd (congrArg LogItem.value h) nofun
    · intro h
      exact absurd h.2.symm hne
  · rw [if_neg hnil, Entry.item]
    simp only [LogItem.mk.injEq, Option.some.injEq, true_and]

/-- The value is written in full, apart from separators in it. -/
def Value.Kept : Server → Value → Prop
  | .epdg, .integer n => ZeroFree n.toNat
  | .epdg, .uint8 n => ZeroFree n.toNat
  | .epdg, .uint16 n => ZeroFree n.toNat
  | .epdg, _ => True
  | .ims, .string s => s = List.replicate s.length '\x00'
  | .ims, .none => True
  | .ims, _ => False

theorem sent_eq_logText_iff {server : Server} {v : Value} : server.sent v = v.logText ↔ v.Kept server := by
  have hint : ∀ n : ℤ, intToChar n 10 = Nat.toDigits 10 n.toNat ↔ ZeroFree n.toNat :=
    fun n => intToChar_eq_toDigits_iff
  have hnil : ∀ n, [] ≠ Nat.toDigits 10 n := by
    intro n
    rw [Nat.toDigits_eq_if (by omega)]
    split <;> simp
  cases server with
  | epdg =>
    cases v with
    | none => exact iff_of_true rfl trivial
    | integer n => exact hint n
    | uint8 n => exact intToChar_eq_toDigits_iff
    | uint16 n => exact intToChar_eq_toDigits_iff
    | string s => exact iff_of_true rfl trivial
  | ims =>
    cases v with
    | none => exact iff_of_true rfl trivial
    | string s => exact eq_comm
    | _ => exact iff_of_false (hnil _) id

theorem sent_plain (server : Server) {v : Value} (h : ':' ∉ v.logText ∧ Text.OneLine v.logText) :
    ':' ∉ server.sent v ∧ Text.OneLine (server.sent v) := by
  have hdigits : ∀ n : ℤ, ':' ∉ intToChar n 10 ∧ Text.OneLine (intToChar n 10) :=
    fun n => oneLine_of_isDigit fun c hc => mem_intToChar hc
  have hnuls : ∀ n, ':' ∉ List.replicate n '\x00' ∧ Text.OneLine (List.replicate n '\x00') := by
    intro n
    refine ⟨fun hc => ?_, fun hc => ?_, fun hc => ?_⟩ <;>
      exact absurd (List.eq_of_mem_replicate hc) (by decide)
  cases server with
  | epdg =>
    cases v with
    | none => exact h
    | string s => exact h
    | _ => exact hdigits _
  | ims =>
    cases v with
    | string s => exact hnuls _
    | none => exact h
    | uint8 n => exact ⟨nofun, nofun, nofun⟩
    | _ => exact hdigits _

theorem oneLine_text {e : Entry} {server : Server} (hkey : '\r' ∉ e.key)
    (hsent : Text.OneLine (server.sent e.value)) : Text.OneLine (e.text server) := by
  have hcstr : Text.OneLine (Text.cstr e.key) :=
    ⟨fun h => hkey (Text.mem_of_mem_cstr h), fun h => e.key_line (Text.mem_of_mem_cstr h)⟩
  have htype : Text.OneLine (Nat.toDigits 10 e.value.vtype) := by
    rw [vtype_eq]
    exact (plain_typeDigits _).2.2
  rw [Entry.text, entryText, Text.oneLine_append, Text.oneLine_append, Text.oneLine_cons,
    Text.oneLine_cons]
  exact ⟨⟨hcstr, by decide, htype⟩, by decide, hsent⟩

theorem plain_toDigits (n : ℕ) : ':' ∉ Nat.toDigits 10 n ∧ Text.OneLine (Nat.toDigits 10 n) :=
  oneLine_of_isDigit fun _ hc => Nat.isDigit_of_mem_toDigits (by omega) (by omega) hc

/-- A value arrives as it is if it is written in full, without separators in it, from memory it
has. -/
theorem survives_iff {server : Server} {v : Value} (h : v.Reportable) :
    v.Survives server ↔ v.Kept server ∧ (':' ∉ v.logText ∧ Text.OneLine v.logText) ∧
      ¬ (server = .ims ∧ maxValueLen < (server.stored v).copied) := by
  have hepdg : ¬ (Server.epdg = .ims ∧ maxValueLen < (Server.epdg.stored v).copied) := fun h => nomatch h.1
  cases v with
  | none => exact absurd h id
  | string s =>
    cases server with
    | epdg =>
      constructor
      · intro hs
        exact ⟨trivial, ⟨hs.1, hs.2, h.2⟩, hepdg⟩
      · intro hs
        exact ⟨hs.2.1.1, hs.2.1.2.1⟩
    | ims =>
      have hlen : (Server.ims.stored (.string s)).copied = s.length := List.length_replicate
      constructor
      · rintro ⟨hnul, hle⟩
        have hmem : ∀ c ∈ s, c = '\x00' := by
          intro c hc
          rw [hnul] at hc
          exact List.eq_of_mem_replicate hc
        refine ⟨hnul, ⟨fun hc => ?_, fun hc => ?_, h.2⟩, fun hover => ?_⟩
        · exact absurd (hmem _ hc) (by decide)
        · exact absurd (hmem _ hc) (by decide)
        · have hlt := hover.2
          omega
      · rintro ⟨hnul, -, hover⟩
        refine ⟨hnul, ?_⟩
        rw [hlen] at hover
        exact not_lt.1 fun hlt => hover ⟨rfl, hlt⟩
  | _ =>
    cases server with
    | epdg => exact ⟨fun hs => ⟨hs, plain_toDigits _, hepdg⟩, fun hs => hs.1⟩
    | ims => exact ⟨fun hs => absurd hs id, fun hs => absurd hs.1 id⟩

/-! ## Entries -/

theorem survives_of_decoded {e : Entry} {server : Server} (h : e.Decoded server) : e.Survives server := by
  have hreporter : "epdg".toList <:+: "epdg".toList ∨ "ims".toList <:+: "epdg".toList :=
    .inl (List.infix_refl _)
  obtain ⟨line, hreport, hread⟩ :=
    h.inBlock 0 0 sampleSpis sampleSpis sampleName "epdg".toList [] hreporter
  obtain ⟨hover, hfits, rfl⟩ := report_eq_ok.1 hreport
  -- what is read has no separators in it
  have hplain : (e.item .attribute).Plain := by
    obtain ⟨reply, hreply, hmlog⟩ := Option.map_eq_some_iff.1 hread
    have hall := processResult_plain (fun l hl => Text.oneLine_of_mem_readLines hl) hreply
    rw [hmlog] at hall
    have hsub := ((RoseTree.all_node _ _ _).1 hall).2 _ List.mem_cons_self
    exact ((RoseTree.all_node _ _ _).1 hsub).1
  have hkey := hplain.name _ rfl
  have hvalue := hplain.value _ rfl
  have hsent := sent_plain server hvalue
  -- so that what is stored for the line can be computed
  have hexact := processResult_inBlock hreporter sampleSpis
    (server.lineSpis (e.msg server .attribute 0 0)) sampleSpis sampleName
    (oneLine_text hkey.2.1 hsent.2) (store_text .attribute hsent.1) []
  rw [line_attribute, hexact, Option.map_some, Option.some.injEq] at hread
  have hitem := congrArg RoseTree.label (List.head_eq_of_cons_eq (congrArg RoseTree.sub hread))
  obtain ⟨hcstr, hlog⟩ := stored_eq_item_iff.1 hitem
  refine ⟨⟨hkey.2.1, Text.nul_free_of_length_cstr (congrArg List.length hcstr)⟩, ?_, ?_⟩
  · exact (survives_iff e.reportable).2 ⟨sent_eq_logText_iff.1 hlog, hvalue, hover⟩
  · rw [hcstr, hlog] at hfits
    exact hfits

theorem decoded_of_survives {e : Entry} {server : Server} (h : e.Survives server) : e.Decoded server := by
  obtain ⟨hkept, hvalue, hover⟩ := (survives_iff e.reportable).1 h.value
  have hcstr : Text.cstr e.key = e.key := Text.cstr_of_nul_free h.key.2
  have hlog : server.sent e.value = e.value.logText := sent_eq_logText_iff.2 hkept
  have hsent := sent_plain server hvalue
  have htext := oneLine_text h.key.1 hsent.2
  have hstore : ∀ type, (LogItem.new type).store (e.text server) = some (e.item type) := by
    intro type
    rw [store_text type hsent.1, stored_eq_item_iff.2 ⟨hcstr, hlog⟩]
  have hreport : ∀ mtype ispi rspi, server.report mtype ispi rspi e.key e.value =
      .ok (server.line (e.msg server mtype ispi rspi)) := by
    intro mtype ispi rspi
    refine report_eq_ok.2 ⟨hover, ?_, rfl⟩
    rw [hcstr, hlog]
    exact h.fits
  constructor
  · intro ispi rspi start last block reporter tail hreporter
    refine ⟨_, hreport .attribute ispi rspi, ?_⟩
    rw [line_attribute,
      processResult_inBlock hreporter start _ last block htext (hstore .attribute) tail]
    rfl
  · intro ispi rspi last reporter tail hreporter
    refine ⟨_, hreport .blockStart ispi rspi, ?_⟩
    rw [line_blockStart, processResult_first hreporter _ last htext (hstore .message) tail]
    rfl

/-- An entry reaches the controller as it is exactly if its key is a C string without carriage returns,
its value is written in full and without separators, and the line fits into its buffer. -/
theorem decoded_iff (e : Entry) (server : Server) : e.Decoded server ↔ e.Survives server :=
  ⟨survives_of_decoded, decoded_of_survives⟩

/-- A Diffie-Hellman group of the ePDG. -/
def sampleGroup : Entry where
  key := "diffie-hellman group".toList
  value := .uint16 20
  key_ne := nofun
  key_colon := by decide
  key_line := by decide
  reportable := trivial

/-- A string. -/
def sampleString : Entry where
  key := "alg".toList
  value := .string "MD5".toList
  key_ne := nofun
  key_colon := by decide
  key_line := by decide
  reportable := ⟨nofun, by decide⟩

/-- Group 20 is reported as group 0 by the ePDG, and a string as NUL bytes by the IMS server. -/
theorem decoded_samples :
    (Server.epdg.line ⟨.attribute, 0, 0, sampleGroup.key, sampleGroup.value⟩).drop 33 =
        "diffie-hellman group:5:0\n".toList ∧
      ¬ sampleGroup.Decoded .epdg ∧ ¬ sampleString.Decoded .ims := by
  refine ⟨by decide +kernel, fun h => ?_, fun h => ?_⟩
  · exact absurd (survives_of_decoded h).value.2 (by decide)
  · exact absurd (survives_of_decoded h).value.1 (by decide)

end Report

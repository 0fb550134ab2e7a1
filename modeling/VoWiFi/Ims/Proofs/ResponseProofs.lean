import VoWiFi.Ims.FirstLine
import VoWiFi.Ims.Proofs.HeaderValueProofs
import VoWiFi.Ims.Response

/-!
# Which responses pass unchanged

The lines of a response are found again by `strtok`, the status line by `parse_sip_first_line` and the
headers by `parse_key_value_line`; what is written is made of lines again. Since the lines determine the
text up to the first empty line, comparing the text that is sent with the text of a response comes down
to comparing their lines.
-/

namespace Ims

/-! ## Lower case -/

theorem toLower_cases (c : Char) :
    c.toLower = c ∨ (97 ≤ c.toLower.toNat ∧ c.toLower.toNat ≤ 122) := by
  unfold Char.toLower
  split
  · rename_i hupper
    right
    obtain ⟨hlow, hhigh⟩ := hupper
    rw [ge_iff_le, UInt32.le_iff_toNat_le] at hlow
    rw [UInt32.le_iff_toNat_le] at hhigh
    have hA : 'A'.val.toNat = 65 := rfl
    have hZ : 'Z'.val.toNat = 90 := rfl
    have hdiff : ('a'.val - 'A'.val).toNat = 32 := rfl
    rw [Char.toNat, UInt32.toNat_add, hdiff]
    omega
  · exact .inl rfl

theorem toLower_of_lower {c : Char} (hc : 97 ≤ c.toNat) : c.toLower = c := by
  unfold Char.toLower
  rw [dif_neg]
  rintro ⟨-, hhigh⟩
  rw [UInt32.le_iff_toNat_le] at hhigh
  have hZ : 'Z'.val.toNat = 90 := rfl
  rw [Char.toNat] at hc
  omega

theorem toLower_toLower (s : Text) : toLower (toLower s) = toLower s := by
  rw [toLower, toLower, List.map_map]
  refine List.map_congr_left fun c _ => ?_
  rcases toLower_cases c with hsame | ⟨hlow, -⟩
  · exact congrArg Char.toLower hsame
  · exact toLower_of_lower hlow

/-- A byte that is no letter comes from itself only. -/
theorem eq_of_toLower_eq {c d : Char} (hd : d.toNat < 97) (heq : c.toLower = d) : c = d := by
  rcases toLower_cases c with hsame | ⟨hlow, -⟩
  · rw [← hsame, heq]
  · rw [heq] at hlow
    omega

theorem mem_of_mem_toLower {d : Char} {s : Text} (hd : d.toNat < 97) (hmem : d ∈ toLower s) :
    d ∈ s := by
  obtain ⟨c, hc, heq⟩ := List.mem_map.1 hmem
  rwa [eq_of_toLower_eq hd heq] at hc

/-! ## Reading the lines -/

theorem lineEnd_eq_false_iff {s : Text} :
    (∀ c ∈ s, lineEnd c = false) ↔ '\r' ∉ s ∧ '\n' ∉ s := by
  constructor
  · intro hs
    exact ⟨fun hmem => absurd (hs _ hmem) (by decide), fun hmem => absurd (hs _ hmem) (by decide)⟩
  · rintro ⟨hr, hn⟩ c hc
    have hcr : c ≠ '\r' := fun heq => hr (heq ▸ hc)
    have hcn : c ≠ '\n' := fun heq => hn (heq ▸ hc)
    simp [lineEnd, hcr, hcn]

/-- The message that the first line of a response is read into. -/
def Response.message (r : Response) : SipMessage where
  mtype := some .response
  mname := toLower (r.reason.dropWhile (· = ' '))
  additional := r.code
  kvps := []

/-- A word ends at the first space. -/
theorem takeWhile_word {s : Text} (t : Text) (hs : ∀ c ∈ s, (c ≠ ' ' && c ≠ '\n') = true) :
    (s ++ ' ' :: t).takeWhile (fun c => c ≠ ' ' && c ≠ '\n') = s := by
  rw [List.takeWhile_append_of_pos hs]
  exact List.append_nil s

theorem dropWhile_word {s : Text} (t : Text) (hs : ∀ c ∈ s, (c ≠ ' ' && c ≠ '\n') = true) :
    (s ++ ' ' :: t).dropWhile (fun c => c ≠ ' ' && c ≠ '\n') = ' ' :: t := by
  rw [List.dropWhile_append_of_pos hs]
  rfl

theorem Word.chars {s : Text} (h : Word s) : ∀ c ∈ s, (c ≠ ' ' && c ≠ '\n') = true := by
  intro c hc
  have hspace : c ≠ ' ' := fun heq => h.space (heq ▸ hc)
  have hline : c ≠ '\n' := fun heq => h.line (heq ▸ hc)
  simp [hspace, hline]

theorem word_version : Word sipVersionToken := ⟨by decide, by decide, by decide⟩

theorem dropWhile_replicate (n : ℕ) (t : Text) :
    (List.replicate n ' ' ++ t).dropWhile (· = ' ') = t.dropWhile (· = ' ') := by
  refine List.dropWhile_append_of_pos fun c hc => ?_
  exact decide_eq_true (List.eq_of_mem_replicate hc)

theorem Word.dropWhile_space {s : Text} (h : Word s) (t : Text) : (s ++ t).dropWhile (· = ' ') = s ++ t := by
  obtain ⟨c, cs, rfl⟩ := List.exists_cons_of_ne_nil h.ne
  have hspace : c ≠ ' ' := fun heq => h.space (heq ▸ List.mem_cons_self)
  exact List.dropWhile_cons_of_neg (by simpa using hspace)

/-- The spaces up to a word are skipped. -/
theorem Word.dropWhile_spaces {s : Text} (h : Word s) (n : ℕ) (t : Text) :
    (spaces n ++ (s ++ t)).dropWhile (· = ' ') = s ++ t := by
  rw [spaces, dropWhile_replicate, h.dropWhile_space]

/-- What is read from a line of two words and a rest. -/
theorem parseSipFirstLine_lineText {first second : Text} (hfirst : Word first) (hsecond : Word second)
    (indent before after : ℕ) (rest : Text) :
    parseSipFirstLine (lineText indent first before second after rest) =
      if first = sipVersionToken then
        ⟨some .response, toLower ((rest.dropWhile (· = ' ')).takeWhile fun c => c ≠ '\r' && c ≠ '\n'),
          second, []⟩
      else ⟨some .request, toLower first, second, []⟩ := by
  have hrest : ∀ r : Text, spaces after ++ r = ' ' :: (List.replicate after ' ' ++ r) := fun _ => rfl
  have hgap : ∀ r : Text, spaces before ++ r = ' ' :: (List.replicate before ' ' ++ r) := fun _ => rfl
  have hskip : (' ' :: (List.replicate before ' ' ++
      (second ++ ' ' :: (List.replicate after ' ' ++ rest)))).dropWhile (· = ' ') =
        second ++ ' ' :: (List.replicate after ' ' ++ rest) :=
    hsecond.dropWhile_spaces before _
  have hlast : (' ' :: (List.replicate after ' ' ++ rest)).dropWhile (· = ' ') =
      rest.dropWhile (· = ' ') := dropWhile_replicate (after + 1) rest
  unfold parseSipFirstLine lineText
  rw [dropWhile_replicate, hfirst.dropWhile_space, hgap, hrest]
  dsimp only
  rw [takeWhile_word _ hfirst.chars, dropWhile_word _ hfirst.chars, hskip,
    takeWhile_word _ hsecond.chars, dropWhile_word _ hsecond.chars, hlast]
  by_cases hversion : first = sipVersionToken
  · simp [hversion]
  · simp [hversion]

theorem parseSipFirstLine_statusLine (r : Response) :
    parseSipFirstLine r.statusLine = r.message := by
  have hcode : Word r.code := by
    refine ⟨r.code_ne, fun hmem => (r.code_word _ hmem).1 rfl, fun hmem => ?_⟩
    exact absurd (r.code_word _ hmem).2 (by decide)
  have hreason : (r.reason.dropWhile (· = ' ')).takeWhile (fun c => c ≠ '\r' && c ≠ '\n') =
      r.reason.dropWhile (· = ' ') := by
    refine List.takeWhile_eq_self_iff.2 fun c hc => ?_
    have hline := r.reason_line c ((List.dropWhile_sublist _).subset hc)
    simpa [lineEnd] using hline
  have hline : r.statusLine = lineText 0 sipVersionToken 0 r.code 0 r.reason := rfl
  rw [hline, parseSipFirstLine_lineText word_version hcode, if_pos rfl, hreason]
  rfl

/-- A header line is read back, unless the value is empty. -/
theorem parseKeyValueLine_line (h : HeaderField) :
    parseKeyValueLine h.line = if h.value = [] then none else some ⟨h.name, initVlst h.value⟩ := by
  have hvalue : (List.replicate h.spaces ' ' ++ h.value).dropWhile (· = ' ') = h.value := by
    rw [List.dropWhile_append_of_pos]
    · cases hv : h.value with
      | nil => rfl
      | cons c cs =>
        have hspace : c ≠ ' ' := by
          intro heq
          apply h.value_space
          rw [hv, heq]
          rfl
        simp [hspace]
    · intro c hc
      simp [List.eq_of_mem_replicate hc]
  rw [HeaderField.line, parseKeyValueLine_append h.name_ne h.name_colon, hvalue]

/-! ## Sending a response -/

theorem statusLine_ok (r : Response) :
    r.statusLine ≠ [] ∧ ∀ c ∈ r.statusLine, lineEnd c = false := by
  have hversion : ∀ c ∈ sipVersionToken, lineEnd c = false := lineEnd_eq_false_iff.2 (by decide)
  refine ⟨nofun, fun c hc => ?_⟩
  rcases List.mem_append.1 hc with hc | hc
  · exact hversion c hc
  · rcases List.mem_cons.1 hc with rfl | hc
    · rfl
    · rcases List.mem_append.1 hc with hc | hc
      · exact (r.code_word c hc).2
      · rcases List.mem_cons.1 hc with rfl | hc
        · rfl
        · exact r.reason_line c hc

theorem line_ok (h : HeaderField) : h.line ≠ [] ∧ ∀ c ∈ h.line, lineEnd c = false := by
  refine ⟨by simp [HeaderField.line], fun c hc => ?_⟩
  rcases List.mem_append.1 hc with hc | hc
  · exact h.name_line c hc
  · rcases List.mem_cons.1 hc with rfl | hc
    · rfl
    · rcases List.mem_append.1 hc with hc | hc
      · rw [List.eq_of_mem_replicate hc]
        rfl
      · exact h.value_line c hc

theorem lines_ok (r : Response) : ∀ l ∈ r.lines, l ≠ [] ∧ ∀ c ∈ l, lineEnd c = false := by
  intro l hl
  rcases List.mem_cons.1 hl with rfl | hl
  · exact statusLine_ok r
  · obtain ⟨h, -, rfl⟩ := List.mem_map.1 hl
    exact line_ok h

/-- The message that `init_sip_message` makes of a response without NUL bytes; the lines of the body
are taken for headers. -/
def Response.parsed (r : Response) : SipMessage :=
  if r.message.readsHeaders then
    { r.message with
      kvps := (r.headers.map HeaderField.line ++ Text.strtok lineEnd r.body).filterMap
        parseKeyValueLine }
  else r.message

theorem initSipMessage_text {r : Response} (hnul : '\x00' ∉ r.text) :
    initSipMessage r.text = .ok r.parsed := by
  have hlines : ∀ l ∈ r.lines, l ≠ [] ∧ '\x00' ∉ l ∧ ∀ c ∈ l, lineEnd c = false := by
    intro l hl
    obtain ⟨hne, hend⟩ := lines_ok r l hl
    refine ⟨hne, fun hmem => hnul ?_, hend⟩
    exact List.mem_append_left _ (List.mem_flatMap.2 ⟨l, hl, List.mem_append_left _ hmem⟩)
  have htok : Text.strtok lineEnd r.text =
      r.statusLine :: (r.headers.map HeaderField.line ++ Text.strtok lineEnd r.body) :=
    Text.strtok_endLines rfl rfl (by decide) (by decide) hlines r.body
  unfold initSipMessage
  rw [htok]
  dsimp only
  rw [parseSipFirstLine_statusLine]
  rfl

/-- A query without parts asks for no attribute. -/
theorem attributeQuery_none {query : Option Query} (hq : ∀ q, query = some q → q.sub = [])
    (header attr : Text) : attributeQuery query header attr = none := by
  cases query with
  | none => rfl
  | some q =>
    have hsub : getSubQueryByName q header = none := by
      rw [getSubQueryByName, hq q rfl]
      rfl
    simp [attributeQuery, hsub]

theorem processQuery_nothing {query : Option Query} (hq : ∀ q, query = some q → q.sub = [])
    (rand : ℕ → ℕ) (m : SipMessage) : processQuery query rand m = .ok m := by
  simp [processQuery, changeNonce, changeAlgorithm, changeAlg, changeEalg, changeProt, changeMod,
    changeAttribute, attributeQuery_none hq, bind, Except.bind]

theorem serializeSipMessage_eq_ok {m : SipMessage} {out : Text} :
    serializeSipMessage m = .ok out ↔ m.written.length ≤ scBufLength ∧ m.written = out := by
  unfold serializeSipMessage
  split
  · rename_i hfits
    rw [Except.ok.injEq]
    exact ⟨fun heq => ⟨hfits, heq⟩, fun hboth => hboth.2⟩
  · rename_i hfits
    exact ⟨nofun, fun hboth => absurd hboth.1 hfits⟩

theorem tcpSend_text {r : Response} {query : Option Query} (hnul : '\x00' ∉ r.text)
    (hq : ∀ q, query = some q → q.sub = []) (rand : ℕ → ℕ) :
    tcpSend query rand r.text = serializeSipMessage r.parsed := by
  have htype : r.parsed.mtype = some .response := by
    unfold Response.parsed
    split
    · rfl
    · rfl
  simp [tcpSend, initSipMessage_text hnul, processQuery_nothing hq, htype, bind, Except.bind]

/-! ## What is written -/

theorem written_eq (m : SipMessage) :
    m.written = Text.endLines '\r' '\n' (m.firstLine :: m.kvps.map Kvp.line) ++ ['\r', '\n'] := by
  simp [SipMessage.written, Text.endLines, crlf, List.flatMap_map]

/-- A header is written with bytes of the line it was read from. -/
theorem mem_line_of_parse {l : Text} {kvp : Kvp} {c : Char} (hparse : parseKeyValueLine l = some kvp)
    (hc : c ∈ kvp.line) : c ∈ l ∨ c = ':' ∨ c = ' ' := by
  unfold parseKeyValueLine at hparse
  dsimp only at hparse
  split at hparse
  · cases hparse
  · rename_i colon rest hrest
    split at hparse
    · cases hparse
      have hsub : (rest.dropWhile (· = ' ')).Sublist l := by
        have hcons : (colon :: rest).Sublist l := hrest ▸ List.dropWhile_sublist _
        exact (List.dropWhile_sublist _).trans ((List.sublist_cons_self _ _).trans hcons)
      rcases List.mem_append.1 hc with hc | hc
      · rcases List.mem_append.1 hc with hc | hc
        · exact .inl ((List.takeWhile_sublist _).subset hc)
        · right
          simpa using hc
      · exact .inl (hsub.subset ((serializeValue_sublist _).subset hc))
    · cases hparse

theorem firstLine_parsed (r : Response) : r.parsed.firstLine =
    sipVersionToken ++ ' ' :: (r.code ++ ' ' :: toLower (r.reason.dropWhile (· = ' '))) := by
  unfold Response.parsed
  split
  · simp [SipMessage.firstLine, Response.message]
  · simp [SipMessage.firstLine, Response.message]

/-- Every header that is read comes from a line. -/
theorem exists_line_of_parsed {r : Response} {kvp : Kvp} (hkvp : kvp ∈ r.parsed.kvps) :
    ∃ l, parseKeyValueLine l = some kvp ∧ ∀ c ∈ l, lineEnd c = false := by
  unfold Response.parsed at hkvp
  split at hkvp
  · obtain ⟨l, hl, hparse⟩ := List.mem_filterMap.1 hkvp
    refine ⟨l, hparse, ?_⟩
    rcases List.mem_append.1 hl with hl | hl
    · obtain ⟨h, -, rfl⟩ := List.mem_map.1 hl
      exact (line_ok h).2
    · exact (Text.mem_strtok hl).2
  · cases hkvp

/-- The lines that are written for a response can be told apart. -/
theorem parsed_lines_ok (r : Response) :
    ∀ l ∈ r.parsed.firstLine :: r.parsed.kvps.map Kvp.line, l ≠ [] ∧ '\r' ∉ l := by
  intro l hl
  rcases List.mem_cons.1 hl with rfl | hl
  · rw [firstLine_parsed]
    refine ⟨nofun, fun hmem => ?_⟩
    simp only [List.mem_append, List.mem_cons] at hmem
    rcases hmem with hmem | hmem | hmem | hmem | hmem
    · exact absurd hmem (by decide)
    · exact absurd hmem (by decide)
    · exact absurd (r.code_word _ hmem).2 (by decide)
    · exact absurd hmem (by decide)
    · have hreason := (List.dropWhile_sublist _).subset (mem_of_mem_toLower (by decide) hmem)
      exact absurd (r.reason_line _ hreason) (by decide)
  · obtain ⟨kvp, hkvp, rfl⟩ := List.mem_map.1 hl
    obtain ⟨l, hparse, hline⟩ := exists_line_of_parsed hkvp
    refine ⟨by simp [Kvp.line], fun hmem => ?_⟩
    rcases mem_line_of_parse hparse hmem with hmem | hmem | hmem
    · exact absurd (hline _ hmem) (by decide)
    · exact absurd hmem (by decide)
    · exact absurd hmem (by decide)

/-! ## NUL bytes -/

theorem nul_parseSipFirstLine {line : Text} (hline : '\x00' ∉ line) :
    '\x00' ∉ (parseSipFirstLine line).firstLine := by
  have htake : ∀ {s : Text} (p : Char → Bool), '\x00' ∉ s → '\x00' ∉ s.takeWhile p :=
    fun p hs hmem => hs ((List.takeWhile_sublist _).subset hmem)
  have hdrop : ∀ {s : Text} (p : Char → Bool), '\x00' ∉ s → '\x00' ∉ s.dropWhile p :=
    fun p hs hmem => hs ((List.dropWhile_sublist _).subset hmem)
  have hlower : ∀ {s : Text}, '\x00' ∉ s → '\x00' ∉ toLower s :=
    fun hs hmem => hs (mem_of_mem_toLower (by decide) hmem)
  have hname : '\x00' ∉ (parseSipFirstLine line).mname := by
    unfold parseSipFirstLine
    dsimp only
    split
    · exact hlower (htake _ (hdrop _ hline))
    · exact hlower (htake _ (hdrop _ (hdrop _ (hdrop _ (hdrop _ (hdrop _ hline))))))
    · exact List.not_mem_nil
  have hadd : '\x00' ∉ (parseSipFirstLine line).additional := by
    unfold parseSipFirstLine
    dsimp only
    split
    · exact htake _ (hdrop _ (hdrop _ (hdrop _ hline)))
    · exact List.not_mem_nil
  have hversion : '\x00' ∉ sipVersionToken := by decide
  unfold SipMessage.firstLine
  split
  · simp [hname, hadd, hversion]
  · simp [hname, hadd, hversion]

/-- What is written has no NUL byte. -/
theorem nul_written {buf : Text} {m : SipMessage} (hinit : initSipMessage buf = .ok m) :
    '\x00' ∉ m.written := by
  have hlines : ∀ l ∈ m.firstLine :: m.kvps.map Kvp.line, '\x00' ∉ l := by
    unfold initSipMessage at hinit
    split at hinit
    · cases hinit
    · rename_i line lines htok
      have htokens : ∀ l ∈ line :: lines, '\x00' ∉ l := fun l hl => (Text.mem_strtok (htok ▸ hl)).1
      have hfirst := nul_parseSipFirstLine (htokens line List.mem_cons_self)
      dsimp only at hinit
      split at hinit
      · cases hinit
        refine List.forall_mem_cons.2 ⟨hfirst, fun l hl => ?_⟩
        obtain ⟨kvp, hkvp, rfl⟩ := List.mem_map.1 hl
        obtain ⟨l, hl, hparse⟩ := List.mem_filterMap.1 hkvp
        intro hmem
        rcases mem_line_of_parse hparse hmem with hmem | hmem | hmem
        · exact htokens l (List.mem_cons_of_mem _ hl) hmem
        · exact absurd hmem (by decide)
        · exact absurd hmem (by decide)
      · cases hinit
        exact List.forall_mem_singleton.2 hfirst
  rw [written_eq]
  intro hmem
  rcases List.mem_append.1 hmem with hmem | hmem
  · obtain ⟨l, hl, hmem | hmem | hmem⟩ := Text.mem_endLines.1 hmem
    · exact hlines l hl hmem
    · exact absurd hmem (by decide)
    · exact absurd hmem (by decide)
  · exact absurd hmem (by decide)

/-- Where a NUL byte of a response can be. -/
theorem nul_mem_text_iff (r : Response) :
    '\x00' ∈ r.text ↔ '\x00' ∈ r.code ∨ '\x00' ∈ r.reason ∨
      (∃ p ∈ r.headers.map HeaderField.pair, '\x00' ∈ p.1 ∨ '\x00' ∈ p.2) ∨ '\x00' ∈ r.body := by
  have hversion : '\x00' ∉ sipVersionToken := by decide
  simp [Response.text, Response.lines, Text.mem_endLines, Response.statusLine, HeaderField.line,
    HeaderField.pair, hversion, or_assoc]

theorem Response.Same.nul {r r' : Response} (hsame : r.Same r') (hnul : '\x00' ∈ r.text) :
    '\x00' ∈ r'.text := by
  rw [nul_mem_text_iff] at hnul ⊢
  rw [hsame.code, hsame.headers, hsame.body]
  rcases hnul with hcode | hreason | hrest
  · exact .inl hcode
  · refine .inr (.inl ?_)
    have hlower : '\x00' ∈ toLower r.reason := List.mem_map.2 ⟨_, hreason, by decide⟩
    rw [← hsame.reason] at hlower
    exact mem_of_mem_toLower (by decide) hlower
  · exact .inr (.inr hrest)

/-- A response is recognised as one even if a NUL byte cuts it short. -/
theorem initSipMessage_response (r : Response) :
    ∃ m, initSipMessage r.text = .ok m ∧ m.mtype = some .response := by
  have htext : ∃ t, r.text = (sipVersionToken ++ [' ']) ++ t :=
    ⟨_, by simp [Response.text, Response.lines, Text.endLines, Response.statusLine]; rfl⟩
  obtain ⟨t, ht⟩ := htext
  obtain ⟨x, ls, hx⟩ := @Text.strtok_append lineEnd (sipVersionToken ++ [' ']) t (by decide)
    (lineEnd_eq_false_iff.2 (by decide)) (by decide)
  have htype : (parseSipFirstLine ((sipVersionToken ++ [' ']) ++ x)).mtype = some .response := rfl
  unfold initSipMessage
  rw [ht, hx]
  dsimp only
  split
  · exact ⟨_, rfl, htype⟩
  · exact ⟨_, rfl, htype⟩

/-! ## The response that is sent -/

/-- A header with one space after the colon. -/
def HeaderField.rewritten (h : HeaderField) : HeaderField := { h with spaces := 1 }

/-- The response that is sent if nothing is lost. -/
def Response.rewritten (r : Response) : Response :=
  { r with
    reason := toLower r.reason
    headers := r.headers.map HeaderField.rewritten
    body := []
    reason_line := by
      rw [lineEnd_eq_false_iff]
      obtain ⟨hr, hn⟩ := lineEnd_eq_false_iff.1 r.reason_line
      exact ⟨fun hmem => hr (mem_of_mem_toLower (by decide) hmem),
        fun hmem => hn (mem_of_mem_toLower (by decide) hmem)⟩ }

theorem same_rewritten {r : Response} (hbody : r.body = []) : r.Same r.rewritten where
  code := rfl
  reason := toLower_toLower r.reason
  headers := by simp [Response.rewritten, HeaderField.pair, HeaderField.rewritten]
  body := hbody.symm

theorem length_text_rewritten (r : Response) : r.rewritten.text.length = r.rewrittenLength := by
  have hheaders : ∀ hs : List HeaderField,
      (Text.endLines '\r' '\n' ((hs.map HeaderField.rewritten).map HeaderField.line)).length =
        (hs.map fun h => h.name.length + h.value.length + 4).sum := by
    intro hs
    induction hs with
    | nil => rfl
    | cons h hs ih =>
      simp only [List.map_cons, Text.endLines, List.flatMap_cons, List.length_append,
        List.sum_cons] at ih ⊢
      rw [ih]
      simp [HeaderField.line, HeaderField.rewritten]
      omega
  have hstatus : r.rewritten.statusLine.length = r.statusLine.length := by
    simp [Response.statusLine, Response.rewritten, toLower]
  have hcons : ∀ (l : Text) (ls : List Text), (Text.endLines '\r' '\n' (l :: ls)).length =
      l.length + 2 + (Text.endLines '\r' '\n' ls).length := by
    intro l ls
    rw [Text.endLines, List.flatMap_cons, List.length_append, List.length_append]
    rfl
  rw [Response.text, Response.lines, List.length_append, hcons, hstatus, Response.rewrittenLength]
  exact congrArg (r.statusLine.length + 2 + · + 2) (hheaders r.headers)

theorem dropWhile_reason {s : Text} (hs : s.head? ≠ some ' ') : s.dropWhile (· = ' ') = s := by
  cases s with
  | nil => rfl
  | cons c s =>
    have hspace : c ≠ ' ' := fun heq => hs (by rw [heq]; rfl)
    simp [hspace]

/-- The headers of a response whose values are not empty are read as they are. -/
theorem filterMap_lines {hs : List HeaderField} (hvalues : ∀ h ∈ hs, h.value ≠ []) :
    (hs.map HeaderField.line).filterMap parseKeyValueLine =
      hs.map fun h => ⟨h.name, initVlst h.value⟩ := by
  induction hs with
  | nil => rfl
  | cons h hs ih =>
    rw [List.map_cons, List.map_cons, List.filterMap_cons_some, ih]
    · exact fun h' hh' => hvalues h' (List.mem_cons_of_mem _ hh')
    · rw [parseKeyValueLine_line, if_neg (hvalues h List.mem_cons_self)]

theorem readsHeaders_iff {r : Response} (hreason : r.reason.head? ≠ some ' ') :
    r.message.readsHeaders = true ↔
      r.code = "401".toList ∨ r.code = "200".toList ∨ toLower r.reason = "register".toList := by
  simp only [SipMessage.readsHeaders, SipMessage.isRegisterMessage,
    SipMessage.is401UnauthorizedMessage, SipMessage.is200OkMessage, SipMessage.isStatusCodeMessage,
    Response.message, dropWhile_reason hreason, Bool.or_eq_true, Bool.and_eq_true,
    decide_eq_true_eq, true_and]
  rw [or_assoc, or_comm, or_assoc]

/-- A lossless header is written with one space. -/
theorem line_rewritten {h : HeaderField} (hloss : Lossless h.value) :
    Kvp.line ⟨h.name, initVlst h.value⟩ = h.rewritten.line := by
  simp [Kvp.line, (serializeValue_eq_iff h.value).2 hloss, HeaderField.line, HeaderField.rewritten]

/-- If nothing is lost, the response is sent in its rewritten form. -/
theorem written_parsed {r : Response} (hbody : r.body = []) (hreason : r.reason.head? ≠ some ' ')
    (hheaders : r.headers = [] ∨ r.message.readsHeaders = true)
    (hvalues : ∀ h ∈ r.headers, h.value ≠ [] ∧ Lossless h.value) :
    r.parsed.written = r.rewritten.text := by
  have hkvps : r.parsed.kvps = r.headers.map fun h => ⟨h.name, initVlst h.value⟩ := by
    have hread : (r.headers.map HeaderField.line ++ Text.strtok lineEnd r.body).filterMap
        parseKeyValueLine = r.headers.map fun h => ⟨h.name, initVlst h.value⟩ := by
      rw [hbody]
      have hnil : Text.strtok lineEnd [] = [] := rfl
      rw [hnil, List.append_nil]
      exact filterMap_lines fun h hh => (hvalues h hh).1
    unfold Response.parsed
    split
    · exact hread
    · rename_i hno
      rw [hheaders.resolve_right hno]
      rfl
  have hlines : r.parsed.kvps.map Kvp.line = r.rewritten.headers.map HeaderField.line := by
    rw [hkvps, List.map_map, Response.rewritten, List.map_map]
    exact List.map_congr_left fun h hh => line_rewritten (hvalues h hh).2
  rw [written_eq, firstLine_parsed, hlines, dropWhile_reason hreason]
  rfl

/-! ## What the response that is sent tells about the one that was read -/

/-- A header that is sent as the same header is lossless. -/
theorem lossless_of_line {h h' : HeaderField} (hpair : h'.pair = h.pair)
    (hline : Kvp.line ⟨h.name, initVlst h.value⟩ = h'.line) : Lossless h.value := by
  obtain ⟨hname, hvalue⟩ := Prod.mk.inj hpair
  have hrest : ' ' :: serializeValue (initVlst h.value) = List.replicate h'.spaces ' ' ++ h.value := by
    rw [HeaderField.line, hname, hvalue, Kvp.line, List.append_assoc] at hline
    exact (List.cons.inj (List.append_cancel_left hline)).2
  have hle := (serializeValue_sublist h.value).length_le
  rw [← serializeValue_eq_iff]
  cases hspaces : h'.spaces with
  | zero =>
    -- without a space the value itself would start with one
    rw [hspaces] at hrest
    refine absurd ?_ h.value_space
    rw [← List.nil_append h.value, ← List.replicate_zero, ← hrest]
    rfl
  | succ n =>
    rw [hspaces, List.replicate_succ, List.cons_append] at hrest
    have hser := (List.cons.inj hrest).2
    have hn : n = 0 := by
      rw [hser, List.length_append, List.length_replicate] at hle
      omega
    rw [hser, hn]
    rfl

theorem lossless_of_lines {hs hs' : List HeaderField}
    (hpairs : hs'.map HeaderField.pair = hs.map HeaderField.pair)
    (hlines : hs.map (fun h => Kvp.line ⟨h.name, initVlst h.value⟩) = hs'.map HeaderField.line) :
    ∀ h ∈ hs, Lossless h.value := by
  induction hs generalizing hs' with
  | nil => exact List.forall_mem_nil _
  | cons h hs ih =>
    cases hs' with
    | nil => cases hpairs
    | cons h' hs' =>
      obtain ⟨hpair, hpairs⟩ := List.cons.inj hpairs
      obtain ⟨hline, hlines⟩ := List.cons.inj hlines
      exact List.forall_mem_cons.2 ⟨lossless_of_line hpair hline, ih hpairs hlines⟩

/-- If the headers that are sent are those that were read, all of them were read without loss. -/
theorem values_of_lines {hs hs' : List HeaderField}
    (hpairs : hs'.map HeaderField.pair = hs.map HeaderField.pair)
    (hlines : ((hs.map HeaderField.line).filterMap parseKeyValueLine).map Kvp.line =
      hs'.map HeaderField.line) :
    ∀ h ∈ hs, h.value ≠ [] ∧ Lossless h.value := by
  have hlength : ((hs.map HeaderField.line).filterMap parseKeyValueLine).length =
      (hs.map HeaderField.line).length := by
    have h₁ := congrArg List.length hlines
    have h₂ := congrArg List.length hpairs
    simp only [List.length_map] at h₁ h₂ ⊢
    exact h₁.trans h₂
  have hvalues : ∀ h ∈ hs, h.value ≠ [] := by
    intro h hh hempty
    have hsome := List.filterMap_length_eq_length.1 hlength _ (List.mem_map_of_mem hh)
    rw [parseKeyValueLine_line, if_pos hempty] at hsome
    cases hsome
  rw [filterMap_lines hvalues, List.map_map] at hlines
  exact fun h hh => ⟨hvalues h hh, lossless_of_lines hpairs hlines h hh⟩

/-- A reason phrase that keeps its length does not start with a space. -/
theorem head_of_dropWhile {s : Text} (hlen : (s.dropWhile (· = ' ')).length = s.length) :
    s.head? ≠ some ' ' := by
  intro hhead
  cases s with
  | nil => cases hhead
  | cons c s =>
    obtain rfl : c = ' ' := by simpa using hhead
    have hle : (s.dropWhile (· = ' ')).length ≤ s.length := (List.dropWhile_sublist _).length_le
    rw [List.dropWhile_cons_of_pos (by decide), List.length_cons] at hlen
    omega

theorem survives_of_same {r r' : Response} (hnul : '\x00' ∉ r.text) (hsame : r.Same r')
    (hsent : r.parsed.written = r'.text) (hfits : r.parsed.written.length ≤ scBufLength) :
    r.Survives := by
  have hlines' : ∀ l ∈ r'.lines, l ≠ [] ∧ '\r' ∉ l := by
    intro l hl
    obtain ⟨hne, hend⟩ := lines_ok r' l hl
    exact ⟨hne, (lineEnd_eq_false_iff.1 hend).1⟩
  rw [written_eq] at hsent
  obtain ⟨hall, hbody'⟩ := Text.endLines_inj (parsed_lines_ok r) hlines' hsent
  obtain ⟨hstatus, hheaders⟩ := List.cons.inj hall
  have hbody : r.body = [] := by rw [← hsame.body, hbody']
  -- the status line
  have hreason' : toLower (r.reason.dropWhile (· = ' ')) = r'.reason := by
    rw [firstLine_parsed, Response.statusLine, hsame.code] at hstatus
    have hcode := (List.cons.inj (List.append_cancel_left hstatus)).2
    exact (List.cons.inj (List.append_cancel_left hcode)).2
  have hreason : r.reason.head? ≠ some ' ' := by
    apply head_of_dropWhile
    have hlower := congrArg List.length hsame.reason
    rw [← hreason'] at hlower
    simpa [toLower] using hlower
  -- the headers
  have hread : r.headers = [] ∨ r.message.readsHeaders = true := by
    rw [or_iff_not_imp_right]
    intro hno
    rw [Response.parsed, if_neg hno] at hheaders
    have hnone : r'.headers = [] := List.map_eq_nil_iff.1 hheaders.symm
    have hpairs := hsame.headers
    rw [hnone] at hpairs
    exact List.map_eq_nil_iff.1 hpairs.symm
  have hvalues : ∀ h ∈ r.headers, h.value ≠ [] ∧ Lossless h.value := by
    rcases hread with hnil | hyes
    · rw [hnil]
      exact List.forall_mem_nil _
    · refine values_of_lines hsame.headers ?_
      have hnil : Text.strtok lineEnd [] = [] := rfl
      rw [Response.parsed, if_pos hyes, hbody, hnil, List.append_nil] at hheaders
      exact hheaders
  refine ⟨hbody, ?_, hnul, hreason, hvalues, ?_⟩
  · rw [← readsHeaders_iff hreason]
    exact hread
  · rw [← length_text_rewritten, ← written_parsed hbody hreason hread hvalues]
    exact hfits

/-- A response with a NUL byte is not sent as the same response. -/
theorem nul_free_of_same {r r' : Response} {query : Option Query} {rand : ℕ → ℕ}
    (hq : ∀ q, query = some q → q.sub = []) (hsame : r.Same r')
    (hsend : tcpSend query rand r.text = .ok r'.text) : '\x00' ∉ r.text := by
  obtain ⟨m, hinit, htype⟩ := initSipMessage_response r
  have hout : serializeSipMessage m = .ok r'.text := by
    rw [← hsend]
    simp [tcpSend, hinit, htype, processQuery_nothing hq, bind, Except.bind]
  intro hmem
  apply nul_written hinit
  rw [(serializeSipMessage_eq_ok.1 hout).2]
  exact hsame.nul hmem

/-- A response to a request for an unknown user. -/
def sampleNotFound : Response where
  code := "404".toList
  reason := "Not Found".toList
  headers :=
    [{ name := "To".toList, spaces := 1, value := "<sip:a>".toList, name_ne := nofun,
       name_line := lineEnd_eq_false_iff.2 (by decide), name_colon := by decide,
       value_line := lineEnd_eq_false_iff.2 (by decide), value_space := by decide }]
  body := []
  code_ne := nofun
  code_word := fun c hc =>
    ⟨fun heq => absurd (heq ▸ hc) (by decide), lineEnd_eq_false_iff.2 (by decide) c hc⟩
  reason_line := lineEnd_eq_false_iff.2 (by decide)

end Ims

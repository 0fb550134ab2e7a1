import VoWiFi.Ims.FirstLine
import VoWiFi.Ims.Proofs.ResponseProofs

/-!
# Reading and writing first lines

The three scanning loops of `parse_sip_first_line` come to one lemma about a line of two words and a rest.
What `serialize_sip_message` writes is such a line again, with single spaces and in lower case.
-/

namespace Ims

variable {s t : Text}

/-- A reason phrase is read up to the end of its line. -/
theorem takeWhile_reason {reason : Text} (hline : ∀ c ∈ reason, lineEnd c = false)
    (hspace : reason.head? ≠ some ' ') {rest : Text} (hrest : rest = [] ∨ crlf <+: rest) :
    ((reason ++ rest).dropWhile (· = ' ')).takeWhile (fun c => c ≠ '\r' && c ≠ '\n') = reason := by
  have hchars : ∀ c ∈ reason, (c ≠ '\r' && c ≠ '\n') = true := by
    intro c hc
    simpa [lineEnd] using hline c hc
  have hend : rest.takeWhile (fun c => c ≠ '\r' && c ≠ '\n') = [] := by
    rcases hrest with rfl | ⟨r, rfl⟩ <;> rfl
  have hstart : (reason ++ rest).dropWhile (· = ' ') = reason ++ rest := by
    refine dropWhile_reason ?_
    cases reason with
    | nil =>
      rcases hrest with rfl | ⟨r, rfl⟩
      · decide
      · exact fun h => absurd (Option.some.inj h) (by decide)
    | cons c cs => exact hspace
  rw [hstart, List.takeWhile_append_of_pos hchars, hend, List.append_nil]

theorem FirstLine.parse_text (l : FirstLine) : parseSipFirstLine l.text = l.message := by
  cases l with
  | status l =>
    have hreason := takeWhile_reason l.reason_line l.reason_space (.inl rfl)
    rw [List.append_nil] at hreason
    rw [FirstLine.text, parseSipFirstLine_lineText word_version l.code_word, if_pos rfl, hreason]
    rfl
  | request l =>
    rw [FirstLine.text, parseSipFirstLine_lineText l.method_word l.uri_word, if_neg l.method_ne]
    rfl

/-! ## What is written -/

theorem Word.toLower (h : Word s) : Word (toLower s) where
  ne := by simpa [Ims.toLower] using h.ne
  space := fun hmem => h.space (mem_of_mem_toLower (by decide) hmem)
  line := fun hmem => h.line (mem_of_mem_toLower (by decide) hmem)

/-- The version has capital letters in it. -/
theorem toLower_ne_version (s : Text) : toLower s ≠ sipVersionToken := by
  intro h
  have htwice := toLower_toLower s
  rw [h] at htwice
  exact absurd htwice (by decide)

theorem lineEnd_toLower (h : ∀ c ∈ s, lineEnd c = false) : ∀ c ∈ toLower s, lineEnd c = false := by
  rw [lineEnd_eq_false_iff] at h ⊢
  exact ⟨fun hmem => h.1 (mem_of_mem_toLower (by decide) hmem),
    fun hmem => h.2 (mem_of_mem_toLower (by decide) hmem)⟩

theorem head_toLower (h : s.head? ≠ some ' ') : (toLower s).head? ≠ some ' ' := by
  cases s with
  | nil => exact h
  | cons c s =>
    intro heq
    have hc : c = ' ' := eq_of_toLower_eq (by decide) (Option.some.inj heq)
    exact h (congrArg some hc)

/-- The line that is written is read as the same message, whatever follows the line end. -/
theorem FirstLine.parse_firstLine (l : FirstLine) {rest : Text} (hrest : rest = [] ∨ crlf <+: rest) :
    parseSipFirstLine (l.message.firstLine ++ rest) = l.message := by
  cases l with
  | status l =>
    have hwritten : (FirstLine.status l).message.firstLine ++ rest =
        lineText 0 sipVersionToken 0 l.code 0 (Ims.toLower l.reason ++ rest) := by
      simp [FirstLine.message, SipMessage.firstLine, lineText, spaces]
    rw [hwritten, parseSipFirstLine_lineText word_version l.code_word, if_pos rfl,
      takeWhile_reason (lineEnd_toLower l.reason_line) (head_toLower l.reason_space) hrest,
      toLower_toLower]
    rfl
  | request l =>
    have hwritten : (FirstLine.request l).message.firstLine ++ rest =
        lineText 0 (Ims.toLower l.method) 0 l.uri 0 (sipVersionToken ++ rest) := by
      simp [FirstLine.message, SipMessage.firstLine, lineText, spaces]
    rw [hwritten, parseSipFirstLine_lineText l.method_word.toLower l.uri_word,
      if_neg (toLower_ne_version l.method), toLower_toLower]
    rfl

theorem length_written (l : FirstLine) (kvps : List Kvp) :
    ({ l.message with kvps := kvps } : SipMessage).written.length =
      l.message.mname.length + l.message.additional.length +
        (kvps.map fun kvp => kvp.line.length + 2).sum + 13 := by
  have hversion : sipVersionToken.length = 7 := rfl
  cases l <;> simp [SipMessage.written, SipMessage.firstLine, FirstLine.message, crlf, List.length_flatMap,
    hversion] <;> omega

/-- Every status line and every request line is read into its fields. With any headers, the line that is
written is read into them again exactly if the message fits into the buffer it is written to. -/
theorem firstLine_parses_again (l : FirstLine) (kvps : List Kvp) :
    parseSipFirstLine l.text = l.message ∧
      ((∃ out, serializeSipMessage { l.message with kvps := kvps } = .ok out ∧ l.message.ReadFrom out) ↔
        l.message.mname.length + l.message.additional.length +
          (kvps.map fun kvp => kvp.line.length + 2).sum + 13 ≤ scBufLength) := by
  refine ⟨l.parse_text, ?_⟩
  rw [← length_written]
  constructor
  · rintro ⟨out, hout, -⟩
    exact (serializeSipMessage_eq_ok.1 hout).1
  · intro hfits
    have hfirst : ({ l.message with kvps := kvps } : SipMessage).written =
        l.message.firstLine ++ (crlf ++ (kvps.flatMap (fun kvp => kvp.line ++ crlf) ++ crlf)) := by
      cases l <;> simp [SipMessage.written, SipMessage.firstLine, FirstLine.message]
    refine ⟨_, serializeSipMessage_eq_ok.2 ⟨hfits, rfl⟩, ?_⟩
    rw [hfirst]
    refine ⟨?_, ?_, l.parse_firstLine (.inr (List.prefix_append _ _))⟩
    · rw [← List.append_assoc]
      exact List.prefix_append _ _
    · have hline := l.parse_firstLine (.inl rfl)
      rwa [List.append_nil] at hline

/-- A status line with as many letters in its reason phrase as the buffer has bytes. -/
def longStatus : StatusLine where
  indent := 0
  before := 0
  after := 0
  code := "200".toList
  reason := List.replicate scBufLength 'o'
  code_word := ⟨by decide, by decide, by decide⟩
  reason_line := fun _ hc => List.eq_of_mem_replicate hc ▸ rfl
  reason_space := fun h => absurd (List.eq_of_mem_replicate (List.mem_of_mem_head? h)) (by decide)

/-- The line is read into its fields, and writing them runs over the end of the buffer. -/
theorem longStatus_not_written :
    parseSipFirstLine (FirstLine.status longStatus).text = (FirstLine.status longStatus).message ∧
      serializeSipMessage (FirstLine.status longStatus).message = .error .bufferOverflow := by
  refine ⟨FirstLine.parse_text _, if_neg ?_⟩
  have hlen := length_written (.status longStatus) []
  have hreason : (FirstLine.status longStatus).message.mname.length = scBufLength := by
    rw [FirstLine.message, toLower, List.length_map]
    exact List.length_replicate
  rw [hreason] at hlen
  exact fun hle => absurd (hlen.symm.trans_le hle) (by omega)

end Ims

import VoWiFi.Epdg.Proofs.PublicationProofs
import VoWiFi.Report.Resync

/-!
# When a listener is back in step

Both listeners run the decoder of bracketed streams, on nodes of their own. A command does not touch it,
so that after `init` it is where it was: the next message is published as by a listener that has just
been started exactly if every block of the lines before is closed (`resynchronises_iff`).
-/

namespace Epdg

open Brackets (Line Runs)
open Control

/-! ## The ePDG -/

theorem markOf_eq_leaf_iff {mtype : ℕ} : markOf mtype = .leaf ↔ mtype = msgTypeAttribute := by
  rw [markOf]
  split_ifs with hattribute
  · exact iff_of_true rfl hattribute
  all_goals exact iff_of_false nofun hattribute

theorem addQuerySubMessage_eq (q : Cursor QNode) (ptype ctype : ℕ) :
    addQuerySubMessage q ptype ctype =
      Brackets.addSub initQuery .noParent (markOf ptype) (markOf ctype) q := by
  rw [addQuerySubMessage, Brackets.addSub]
  by_cases h : ctype = msgTypeAttribute ∧ ptype = msgTypeAttribute
  · rw [if_pos h, if_pos ⟨markOf_eq_leaf_iff.2 h.1, markOf_eq_leaf_iff.2 h.2⟩]
    cases q.parent? <;> rfl
  · rw [if_neg h, if_neg fun h' => h ⟨markOf_eq_leaf_iff.1 h'.1, markOf_eq_leaf_iff.1 h'.2⟩]

/-- The decoder as one of bracketed streams. -/
def Decoder.view (d : Decoder) : Brackets.Decoder QNode := ⟨d.query, d.depth, markOf d.ptype⟩

theorem move_eq (d : Decoder) (mtype : ℕ) :
    d.move mtype = d.view.move initQuery .nullPointer .noParent (markOf mtype) := by
  obtain ⟨query, depth, ptype⟩ := d
  rw [Decoder.move]
  by_cases hattribute : mtype = msgTypeAttribute
  · subst hattribute
    cases query with
    | none => rfl
    | some q =>
      rw [if_pos rfl]
      dsimp only
      rw [addQuerySubMessage_eq]
      rfl
  · rw [if_neg hattribute]
    by_cases hstart : mtype = msgTypeBlockStart
    · subst hstart
      cases query with
      | none => rfl
      | some q =>
        rw [if_pos rfl]
        dsimp only
        rw [addQuerySubMessage_eq]
        rfl
    · rw [if_neg hstart]
      by_cases hend : mtype = msgTypeBlockEnd
      · subst hend
        cases query <;> rfl
      · rw [if_neg hend, markOf, if_neg hattribute, if_neg hstart, if_neg hend]
        rfl

/-- What a line is to the decoder. -/
def classify (line : Text) : Line QNode Fault :=
  if commandOf line ≠ .line then .skip
  else if maxMessageLen ≤ line.length then .overflow .bufferOverflow
  else .text (markOf (lineType line)) (fun n => .ok (n.setTokens (lineTokens line)))
    (lineTokens line = [])

theorem storeTokens_eq (tokens : List Text) (query : Option (Cursor QNode)) :
    storeTokens tokens query =
      Brackets.storeAt .nullPointer (fun n => .ok (n.setTokens tokens)) (tokens = []) query := by
  cases query with
  | none =>
    rw [storeTokens, Brackets.storeAt]
    by_cases h : tokens = []
    · rw [if_pos h, if_pos (decide_eq_true h)]
    · rw [if_neg h, if_neg (by simpa using h)]
  | some q => rfl

theorem decodeLine_eq {line : Text} (hlen : ¬ maxMessageLen ≤ line.length) (d : Decoder) :
    (d.decodeLine line).map (Prod.map Decoder.view id) =
      d.view.step initQuery .nullPointer .noParent (markOf (lineType line))
        (fun n => .ok (n.setTokens (lineTokens line))) (lineTokens line = []) := by
  rw [Decoder.decodeLine, if_neg hlen, Brackets.Decoder.step]
  dsimp only
  rw [move_eq]
  cases d.view.move initQuery Fault.nullPointer .noParent (markOf (lineType line)) with
  | error e => rfl
  | ok r =>
    obtain ⟨query, depth⟩ := r
    change Except.map _ (Except.bind (storeTokens _ query) _) = Except.bind (Brackets.storeAt _ _ _ query) _
    rw [storeTokens_eq]
    cases Brackets.storeAt Fault.nullPointer (fun n : QNode => .ok (n.setTokens (lineTokens line)))
        (lineTokens line = []) query with
    | error e => rfl
    | ok query =>
      change Except.map _ (if depth = 0 then _ else _) = if depth = 0 then _ else _
      split
      · cases query <;> rfl
      · rfl

theorem decodeLine_of_long {line : Text} (hlen : maxMessageLen ≤ line.length) (d : Decoder) :
    d.decodeLine line = .error .bufferOverflow := by
  rw [Decoder.decodeLine, if_pos hlen]
  rfl

/-- A line that is no command goes to the decoder. -/
theorem receive_of_line {s : Listener} {line : Text} (h : commandOf line = .line) :
    (s.receive line).map (Prod.map (fun s => s.decoder.view) id) =
      (s.decoder.decodeLine line).map (Prod.map Decoder.view id) := by
  rw [Listener.receive, h]
  change Except.map _ (Except.bind (s.decoder.decodeLine line) _) = _
  cases s.decoder.decodeLine line <;> rfl

/-- A command leaves the decoder alone. -/
theorem receive_of_command {s : Listener} {line : Text} (h : commandOf line ≠ .line) :
    (s.receive line).map (Prod.map (fun s => s.decoder.view) id) = .ok (s.decoder.view, none) := by
  rw [Listener.receive]
  cases hc : commandOf line with
  | line => exact absurd hc h
  | hello => rfl
  | init => rfl
  | fin => rfl

theorem runs : Runs Listener.receive (fun s => s.decoder.view) classify lineKind initQuery
    Fault.nullPointer .noParent where
  receive s line := by
    rw [classify]
    by_cases hcommand : commandOf line ≠ .line
    · rw [if_pos hcommand, receive_of_command hcommand]
      rfl
    · rw [if_neg hcommand, receive_of_line (not_not.1 hcommand)]
      by_cases hlen : maxMessageLen ≤ line.length
      · rw [if_pos hlen, decodeLine_of_long hlen]
        rfl
      · rw [if_neg hlen, decodeLine_eq hlen]
        rfl
  kind line := by
    rw [classify, lineKind]
    by_cases hcommand : commandOf line ≠ .line
    · rw [if_pos hcommand, if_pos hcommand]
      exact .skip
    · rw [if_neg hcommand, if_neg hcommand]
      split
      · exact .overflow _
      · exact .text fun n => ⟨_, rfl⟩

/-! ### Messages of the controller -/

theorem commandOf_cons {c : Char} (hc : c ∉ ['H', 'i', 'f']) (cs : Text) :
    commandOf (c :: cs) = .line := by
  have hne : ∀ (d : Char) (ds : Text), d ∈ ['H', 'i', 'f'] → c :: cs ≠ d :: ds := by
    intro d ds hd heq
    rw [(List.cons.inj heq).1] at hc
    exact hc hd
  have hhello : c :: cs ≠ helloRequest := hne 'H' _ (by decide)
  have hinit : c :: cs ≠ resetRequest := hne 'i' _ (by decide)
  have hfin : c :: cs ≠ finRequest := hne 'f' _ (by decide)
  rw [commandOf, if_neg hhello, if_neg hinit, if_neg hfin]

theorem commandOf_of_mem_lines (m : SentMessage) : ∀ l ∈ m.lines, commandOf l = .line := by
  intro l hl
  rcases mem_lines m.spis m.texts hl with ⟨it, -, rfl⟩ | rfl
  · refine commandOf_cons ?_ _
    rw [Item.mark]
    split <;> decide
  · exact commandOf_cons (by decide) _

theorem runEach_receive {ls : List Text} (h : ∀ l ∈ ls, commandOf l = .line) (s : Listener) :
    (Brackets.runEach Listener.receive s ls).map (fun r => (r.1.decoder, r.2)) =
      s.decoder.decodeEach ls := by
  induction ls generalizing s with
  | nil => rfl
  | cons l ls ih =>
    obtain ⟨hl, hls⟩ := List.forall_mem_cons.1 h
    have hreceive : s.receive l = (s.decoder.decodeLine l).map fun r =>
        (⟨r.1, r.2.elim s.inst s.inst.setQuery⟩, r.2) := by
      rw [Listener.receive, hl]
      change Except.bind (s.decoder.decodeLine l) _ = _
      cases s.decoder.decodeLine l <;> rfl
    cases hd : s.decoder.decodeLine l with
    | error e =>
      rw [hd] at hreceive
      rw [Brackets.runEach_cons_of_error hreceive, Decoder.decodeEach, hd]
      rfl
    | ok r =>
      rw [hd] at hreceive
      rw [Brackets.runEach_cons_of_ok hreceive, decodeEach_cons hd,
        ← ih hls ⟨r.1, r.2.elim s.inst s.inst.setQuery⟩]
      cases Brackets.runEach Listener.receive _ ls <;> rfl

end Epdg

namespace Ims

open Brackets (Line Runs)
open Epdg (commandOf lineTokens lineType markOf maxMessageLen stripNewline)

/-! ## The IMS server -/

theorem exists_setToken_iff {n : QNode} {token : Text} {idx : ℕ} :
    (∃ n', n.setToken token idx = .ok n') ↔
      (idx = 0 → (stripNewline token).length ≤ maxNameLen) ∧
        (idx = 3 → (stripNewline token).length ≤ maxValueLen) := by
  rw [QNode.setToken.eq_def]
  split
  · split
    · rename_i hlong
      exact iff_of_false nofun fun h => absurd (h.1 rfl) (not_le.2 hlong)
    · rename_i hshort
      exact iff_of_true ⟨_, rfl⟩ ⟨fun _ => not_lt.1 hshort, nofun⟩
  · exact iff_of_true ⟨_, rfl⟩ ⟨nofun, nofun⟩
  · exact iff_of_true ⟨_, rfl⟩ ⟨nofun, nofun⟩
  · split
    · rename_i hlong
      exact iff_of_false nofun fun h => absurd (h.2 rfl) (not_le.2 hlong)
    · rename_i hshort
      exact iff_of_true ⟨_, rfl⟩ ⟨nofun, fun _ => not_lt.1 hshort⟩
  · rename_i hne₀ _ _ hne₃
    exact iff_of_true ⟨_, rfl⟩ ⟨fun h => absurd h hne₀, fun h => absurd h hne₃⟩

/-- The tokens fit exactly if each of them can be stored. -/
theorem fits_iff {tokens : List Text} :
    Fits tokens ↔ ∀ t ∈ tokens.zipIdx, ∀ n : QNode, ∃ n', n.setToken t.1 t.2 = .ok n' := by
  simp only [exists_setToken_iff, Fits, Option.mem_def]
  constructor
  · rintro ⟨hname, hvalue⟩ ⟨t, i⟩ ht n
    have hi := List.mem_zipIdx_iff_getElem?.1 ht
    dsimp only at hi ⊢
    refine ⟨?_, ?_⟩
    · rintro rfl
      exact hname t hi
    · rintro rfl
      exact hvalue t hi
  · intro h
    exact ⟨fun t ht => (h (t, 0) (List.mem_zipIdx_iff_getElem?.2 ht) initQuery).1 rfl,
      fun t ht => (h (t, 3) (List.mem_zipIdx_iff_getElem?.2 ht) initQuery).2 rfl⟩

theorem exists_foldlM {l : List (Text × ℕ)}
    (h : ∀ t ∈ l, ∀ n : QNode, ∃ n', n.setToken t.1 t.2 = .ok n') (n : QNode) :
    ∃ n', l.foldlM (fun n t => n.setToken t.1 t.2) n = .ok n' := by
  induction l generalizing n with
  | nil => exact ⟨n, rfl⟩
  | cons t l ih =>
    obtain ⟨ht, hl⟩ := List.forall_mem_cons.1 h
    obtain ⟨n', hn'⟩ := ht n
    rw [List.foldlM_cons, hn']
    exact ih hl n'

theorem exists_foldlM_error {l : List (Text × ℕ)} {t : Text × ℕ} (ht : t ∈ l)
    (h : ∀ n : QNode, ¬ ∃ n', n.setToken t.1 t.2 = .ok n') (n : QNode) :
    ∃ e, l.foldlM (fun n t => n.setToken t.1 t.2) n = .error e := by
  induction l generalizing n with
  | nil => cases ht
  | cons t' l ih =>
    rw [List.foldlM_cons]
    cases hstep : n.setToken t'.1 t'.2 with
    | error e => exact ⟨e, rfl⟩
    | ok n' =>
      rcases List.mem_cons.1 ht with rfl | ht
      · exact absurd ⟨n', hstep⟩ (h n)
      · exact ih ht n'

theorem exists_setTokens_of_fits {tokens : List Text} (h : Fits tokens) (n : QNode) :
    ∃ n', n.setTokens tokens = .ok n' :=
  exists_foldlM (fits_iff.1 h) n

theorem exists_setTokens_error {tokens : List Text} (h : ¬ Fits tokens) (n : QNode) :
    ∃ e, n.setTokens tokens = .error e := by
  rw [fits_iff] at h
  push Not at h
  obtain ⟨t, ht, n₀, hn₀⟩ := h
  refine exists_foldlM_error ht (fun n => ?_) n
  -- whether a token fits does not depend on the node
  rw [exists_setToken_iff]
  rw [← not_exists, exists_setToken_iff] at hn₀
  exact hn₀

/-- What a line is to the decoder. -/
def classify (line : Text) : Line QNode Epdg.Fault :=
  if commandOf line ≠ .line then .skip
  else if maxMessageLen ≤ line.length then .overflow .bufferOverflow
  else .text (markOf (lineType line)) (fun n => n.setTokens (lineTokens line)) (lineTokens line = [])

theorem runs : Runs Listener.receive Listener.decoder classify lineKind initQuery
    Epdg.Fault.nullPointer .noParent where
  receive s line := by
    rw [classify, Listener.receive]
    cases hc : commandOf line with
    | line =>
      rw [if_neg (not_not.2 rfl)]
      change Except.map _ (Except.bind (s.decoder.decodeLine line) _) = _
      rw [Decoder.decodeLine]
      by_cases hlen : maxMessageLen ≤ line.length
      · rw [if_pos hlen, if_pos hlen]
        rfl
      · rw [if_neg hlen, if_neg hlen, Brackets.Decoder.take]
        generalize Brackets.Decoder.step _ _ _ _ _ _ _ = r
        cases r <;> rfl
    | hello => rfl
    | init => rfl
    | fin => rfl
  kind line := by
    rw [classify, lineKind]
    by_cases hcommand : commandOf line ≠ .line
    · rw [if_pos hcommand, if_pos hcommand]
      exact .skip
    · rw [if_neg hcommand, if_neg hcommand]
      by_cases hlen : maxMessageLen ≤ line.length
      · rw [if_pos hlen, if_pos (.inl hlen)]
        exact .overflow _
      · rw [if_neg hlen]
        by_cases hfits : Fits (lineTokens line)
        · rw [if_neg (not_or.2 ⟨hlen, not_not.2 hfits⟩)]
          exact .text fun n => exists_setTokens_of_fits hfits n
        · rw [if_pos (.inr hfits)]
          exact .bad fun n => exists_setTokens_error hfits n

end Ims

namespace Report

open Brackets (openBlocks)

/-! ## Both servers -/

theorem commandOf_resetRequest : Epdg.commandOf Epdg.resetRequest = .init := by
  decide +kernel

theorem epdg_resynchronises_iff {before msg : List Text} (h : Complete .epdg msg) :
    Resynchronises .epdg before msg ↔ openBlocks Epdg.lineKind 0 before = some 0 := by
  have hskip : Epdg.lineKind Epdg.resetRequest = .skip := by
    rw [Epdg.lineKind, commandOf_resetRequest]
    rfl
  rw [Resynchronises, Epdg.runs.resyncs_iff ⟨rfl, rfl⟩ h, Brackets.openBlocks_concat hskip]

theorem ims_resynchronises_iff {before msg : List Text} (h : Complete .ims msg) :
    Resynchronises .ims before msg ↔ openBlocks Ims.lineKind 0 before = some 0 := by
  have hskip : Ims.lineKind Epdg.resetRequest = .skip := by
    rw [Ims.lineKind, commandOf_resetRequest]
    rfl
  rw [Resynchronises, Ims.runs.resyncs_iff ⟨rfl, rfl⟩ h, Brackets.openBlocks_concat hskip]

/-- After some lines and an `init` a listener publishes the next message as one that has just been started
exactly if it has not stopped and every block that was opened has been closed. -/
theorem resynchronises_iff (server : Server) (before msg : List Text) (h : Complete server msg) :
    Resynchronises server before msg ↔ openBlocks server.lineKind 0 before = some 0 := by
  cases server with
  | epdg => exact epdg_resynchronises_iff h
  | ims => exact ims_resynchronises_iff h

/-- The messages of the controller whose lines fit are complete. -/
theorem complete_lines {m : Epdg.SentMessage}
    (hfits : ∀ l ∈ m.lines, l.length < Epdg.maxMessageLen) : Complete .epdg m.lines := by
  obtain ⟨q, hq⟩ := Epdg.exists_decodeEach_message hfits
  have hrun := Epdg.runEach_receive (Epdg.commandOf_of_mem_lines m) Epdg.Listener.start
  rw [show Epdg.Listener.start.decoder = ⟨none, 0, 0⟩ from rfl, hq 0] at hrun
  cases hr : Brackets.runEach Epdg.Listener.receive Epdg.Listener.start m.lines with
  | error e =>
    rw [hr] at hrun
    cases hrun
  | ok r =>
    rw [hr] at hrun
    refine ⟨r.1, q, hr.trans (congrArg Except.ok (Prod.ext rfl ?_))⟩
    exact (Prod.mk.inj (Except.ok.inj hrun)).2

/-- The first line of a message. -/
def sampleStart : Text := '2' :: List.replicate 32 '0' ++ "m\n".toList

/-- The last line of a message. -/
def sampleStop : Text := '3' :: List.replicate 32 '0' ++ "\n".toList

theorem complete_sample (server : Server) : Complete server [sampleStart, sampleStop] := by
  cases server with
  | epdg => exact ⟨_, _, rfl⟩
  | ims => exact ⟨_, _, rfl⟩

theorem resynchronises_iff_whole :
    Complete .epdg [sampleStart, sampleStop] ∧
      Resynchronises .epdg [sampleStart, sampleStop] [sampleStart, sampleStop] :=
  ⟨complete_sample _, (resynchronises_iff .epdg _ _ (complete_sample _)).2 (by decide +kernel)⟩

/-- A message that was cut off after its first line keeps the next one from being published. -/
theorem not_resynchronises_cut :
    (Complete .epdg [sampleStart, sampleStop] ∧
      ¬ Resynchronises .epdg [sampleStart] [sampleStart, sampleStop]) ∧
    Complete .ims [sampleStart, sampleStop] ∧
      ¬ Resynchronises .ims [sampleStart] [sampleStart, sampleStop] := by
  refine ⟨⟨complete_sample _, fun h => ?_⟩, complete_sample _, fun h => ?_⟩
  · exact absurd ((epdg_resynchronises_iff (complete_sample _)).1 h) (by decide +kernel)
  · exact absurd ((ims_resynchronises_iff (complete_sample _)).1 h) (by decide +kernel)

end Report

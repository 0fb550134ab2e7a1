import VoWiFi.Epdg.Flags
import VoWiFi.Epdg.Proofs.IkeHeaderProofs

/-!
# Which texts change one flag

The last comparison that succeeds for a flag decides about it, so that an update is selective exactly if
no comparison succeeds except with the text itself. The empty text agrees with all twelve names and clears
every flag.
-/

namespace Epdg

variable {chunkHash : Chunk → UInt32} {ref : HashRef} {fuel : ℕ} {q : Query} {query : Option Query}
  {r : Round} {tmp : Text} {f g : Flag}

/-! ## One text -/

theorem checkFlag_self (flag : Text) : checkFlag flag flag = true := by
  rw [checkFlag, decide_eq_true (List.prefix_refl flag), Bool.true_or]

theorem not_checkFlag_noName (f : Flag) : checkFlag f.name f.noName = false := by
  cases f <;> decide +kernel

theorem name_ne_noName (f g : Flag) : f.name ≠ g.noName := by
  cases f <;> cases g <;> decide +kernel

theorem name_injective (h : f.name = g.name) : f = g := by
  revert h
  cases f <;> cases g <;> decide +kernel

theorem get_set_flag (f g : Flag) (h : IkeHeader) (b : Bool) :
    f.get (g.set h b) = if f = g then b else f.get h := by
  cases f <;> cases g <;> rfl

/-- The two comparisons for a flag. -/
def Flag.update (tmp : Text) (h : IkeHeader) (f : Flag) : IkeHeader :=
  let h' := if checkFlag f.name tmp then f.set h true else h
  if checkFlag f.noName tmp then f.set h' false else h'

theorem setFlags_eq_foldl (tmp : Text) (h : IkeHeader) :
    setFlags tmp h =
      [Flag.responder, .version, .initiator, .encryption, .commit, .authonly].foldl (Flag.update tmp) h := by
  have hsetters : flagSetters = [Flag.responder, .version, .initiator, .encryption, .commit,
      .authonly].flatMap fun f => [(f.name, (f.set · true)), (f.noName, (f.set · false))] := rfl
  rw [setFlags, hsetters, List.foldl_flatMap]
  rfl

/-- The comparison with the second name of a flag comes after the one with the first. -/
theorem get_update (tmp : Text) (h : IkeHeader) (f g : Flag) :
    f.get (g.update tmp h) =
      if f = g then
        if checkFlag f.noName tmp then false else if checkFlag f.name tmp then true else f.get h
      else f.get h := by
  by_cases hfg : f = g
  · subst hfg
    rw [if_pos rfl, Flag.update]
    cases checkFlag f.noName tmp <;> cases checkFlag f.name tmp <;> simp [get_set_flag]
  · rw [if_neg hfg, Flag.update]
    cases checkFlag g.noName tmp <;> cases checkFlag g.name tmp <;> simp [get_set_flag, hfg]

theorem Flag.get_setFlags (tmp : Text) (h : IkeHeader) (f : Flag) :
    f.get (setFlags tmp h) =
      if checkFlag f.noName tmp then false else if checkFlag f.name tmp then true else f.get h := by
  rw [setFlags_eq_foldl]
  simp only [List.foldl_cons, List.foldl_nil, get_update]
  cases f <;> rfl

/-! ## What the text asks for -/

theorem wanted_name (old : Bool) (f : Flag) : f.wanted f.name old = true := if_pos rfl

theorem wanted_noName (old : Bool) (f : Flag) : f.wanted f.noName old = false := by
  rw [Flag.wanted, if_neg (name_ne_noName f f).symm, if_pos rfl]

theorem wanted_of_ne {old : Bool} (hname : tmp ≠ f.name) (hno : tmp ≠ f.noName) :
    f.wanted tmp old = old := by
  rw [Flag.wanted, if_neg hname, if_neg hno]

/-- A text names at most one flag. -/
theorem selective_of_wanted {h h' : IkeHeader} (hall : ∀ f : Flag, f.get h' = f.wanted tmp (f.get h)) :
    SelectiveUpdate tmp h h' := by
  have hnamed : ∀ f : Flag, f.get h' ≠ f.get h → tmp = f.name ∨ tmp = f.noName := by
    intro f hne
    by_contra hnot
    rw [not_or] at hnot
    exact hne ((hall f).trans (wanted_of_ne hnot.1 hnot.2))
  refine ⟨hall, fun f g hf hg => ?_⟩
  rcases hnamed f hf with hf | hf <;> rcases hnamed g hg with hg | hg
  · exact name_injective (hf.symm.trans hg)
  · exact absurd (hf.symm.trans hg) (name_ne_noName f g)
  · exact absurd (hg.symm.trans hf) (name_ne_noName g f)
  · exact name_injective (List.append_cancel_left (hf.symm.trans hg))

/-- A text that is not distinctive changes a flag it does not name, in some header. -/
theorem wanted_iff_distinctive (tmp : Text) :
    (∀ (h : IkeHeader) (f : Flag), f.get (setFlags tmp h) = f.wanted tmp (f.get h)) ↔
      Distinctive tmp := by
  simp only [Flag.get_setFlags]
  constructor
  · intro hall f
    -- a header with the flag set shows that it is cleared, and the other way round
    have hset := hall (f.set responseHeader true) f
    have hclear := hall (f.set responseHeader false) f
    rw [get_set_flag, if_pos rfl] at hset hclear
    constructor
    · intro hcheck
      by_contra hne
      have hno : tmp ≠ f.noName := by
        rintro rfl
        rw [not_checkFlag_noName] at hcheck
        cases hcheck
      rw [wanted_of_ne hne hno, hcheck] at hset hclear
      cases hcheck' : checkFlag f.noName tmp <;> simp [hcheck'] at hset hclear
    · intro hcheck
      by_contra hno
      have hne : tmp ≠ f.name := by
        rintro rfl
        rw [hcheck, wanted_name] at hset
        cases hset
      rw [wanted_of_ne hne hno, hcheck] at hset
      cases hset
  · intro hd h f
    by_cases hno : tmp = f.noName
    · subst hno
      rw [checkFlag_self, wanted_noName]
      rfl
    · have hno' : checkFlag f.noName tmp = false := Bool.eq_false_iff.2 fun hc => hno ((hd f).2 hc)
      by_cases hname : tmp = f.name
      · subst hname
        rw [hno', checkFlag_self, wanted_name]
        rfl
      · have hname' : checkFlag f.name tmp = false := Bool.eq_false_iff.2 fun hc => hname ((hd f).1 hc)
        rw [hno', hname', wanted_of_ne hname hno]
        rfl

theorem unchanged_iff_unnamed (tmp : Text) :
    (∀ (h : IkeHeader) (f : Flag), f.get h = f.wanted tmp (f.get h)) ↔
      ∀ f : Flag, tmp ≠ f.name ∧ tmp ≠ f.noName := by
  constructor
  · intro hall f
    have hset := hall (f.set responseHeader true) f
    have hclear := hall (f.set responseHeader false) f
    rw [get_set_flag, if_pos rfl] at hset hclear
    constructor
    · rintro rfl
      rw [wanted_name] at hclear
      cases hclear
    · rintro rfl
      rw [wanted_noName] at hset
      cases hset
  · intro hne h f
    exact (wanted_of_ne (hne f).1 (hne f).2).symm

/-! ## The pass -/

theorem flag_set_field (v : ℤ) (g : HeaderField) (s : HeaderState) :
    f.get (g.set chunkHash ref fuel v s).1.header = f.get s.header := by
  cases g with
  | responderSpi =>
    rw [HeaderField.set, header_setOurSpi]
    cases f <;> rfl
  | _ => cases f <;> rfl

theorem processField_keeps_flag (g : HeaderField) :
    Steps.Keeps (fun s => f.get s.header) (processField chunkHash ref fuel query r g) :=
  processField_induction (fun v s => flag_set_field v g s) fun _ => rfl

theorem processFlags_of_update (h : FlagsUpdate q r tmp) (s : HeaderState) :
    processFlags (some q) r s = ({ s with header := setFlags tmp s.header }, none) := by
  obtain ⟨t, ht, hlabel⟩ := Option.map_eq_some_iff.1 h.node
  have hat : Query.at? q ["flags".toList] = some t := by
    rw [Query.at?, List.foldlM_cons, ht]
    rfl
  have hstring : t.label.string? = some tmp := by
    rw [hlabel]
    rfl
  rw [processFlags, askedQuery_of_name h.name, hat, Option.bind_some, hstring]

/-- The statements between the responder's SPI and the flags. -/
def versionSteps (chunkHash : Chunk → UInt32) (ref : HashRef) (fuel : ℕ) (query : Option Query)
    (r : Round) : List HeaderStep :=
  [processField chunkHash ref fuel query r .majVersion,
    processField chunkHash ref fuel query r .minVersion,
    processField chunkHash ref fuel query r .exchangeType]

/-- What a pass leaves in a flag: what the comparisons give if they are reached. -/
theorem flag_processIkeHeader (h : FlagsUpdate q r tmp) (s : HeaderState) (f : Flag) :
    (FlagsReached chunkHash ref (some q) r s.table →
      f.get (processIkeHeader chunkHash ref (fuel + 1) (some q) s).1.header =
        f.get (setFlags tmp s.header)) ∧
    (¬ FlagsReached chunkHash ref (some q) r s.table →
      f.get (processIkeHeader chunkHash ref (fuel + 1) (some q) s).1.header = f.get s.header) := by
  have hkeep : ∀ g, Steps.Keeps (fun s => f.get s.header)
      (processField chunkHash ref (fuel + 1) (some q) r g) := fun g => processField_keeps_flag g
  have hbefore : ∀ step ∈ processField chunkHash ref (fuel + 1) (some q) r .initiatorSpi ::
      processField chunkHash ref (fuel + 1) (some q) r .responderSpi ::
        versionSteps chunkHash ref (fuel + 1) (some q) r,
      Steps.Keeps (fun s => f.get s.header) step := by
    simp only [versionSteps, List.forall_mem_cons]
    exact ⟨hkeep _, hkeep _, hkeep _, hkeep _, hkeep _, List.forall_mem_nil _⟩
  have hafter : ∀ step ∈ [processField chunkHash ref (fuel + 1) (some q) r .messageId],
      Steps.Keeps (fun s => f.get s.header) step := by
    rw [List.forall_mem_singleton]
    exact hkeep _
  have hsub : versionSteps chunkHash ref (fuel + 1) (some q) r ⊆
      laterSteps chunkHash ref (fuel + 1) (some q) r :=
    (List.prefix_append (versionSteps chunkHash ref (fuel + 1) (some q) r) _).subset
  have hpass := Steps.view_run_append (f := processFlags (some q) r) hbefore hafter s
  rw [stop_run_later hsub] at hpass
  rw [processIkeHeader_eq h.round h.name]
  constructor
  · intro hreached
    have hgoes : (processField chunkHash ref (fuel + 1) (some q) r .responderSpi
        (atResponderSpi chunkHash ref (fuel + 1) (some q) r s)).2 = none := by
      refine processField_responderSpi_goes ?_
      rw [table_atResponderSpi]
      exact hreached
    refine (hpass.trans (if_pos hgoes)).trans ?_
    rw [processFlags_of_update h]
    simp only [Flag.get_setFlags]
    -- the statements before have left the flag alone
    rw [show f.get _ = f.get s.header from Steps.Keeps.run hbefore s]
  · intro hnot
    refine hpass.trans (if_neg ?_)
    cases hresp : HeaderField.responderSpi.asked (some q) r with
    | none => exact absurd (.inl hresp) hnot
    | some v =>
      refine processField_responderSpi_stops hresp ?_ _
      rw [table_atResponderSpi]
      exact fun hfirst => hnot (.inr hfirst)

/-- A string update of the flags is selective, whatever the header is before, exactly if the text agrees
with no other name up to the end of the shorter one. If the search for the responder's SPI comes before
the flags and does not end, they all stay as they are, which is right for a text that is no name. -/
theorem processIkeHeader_flags_selective_iff (chunkHash : Chunk → UInt32) (ref : HashRef) (fuel : ℕ)
    (q : Query) (r : Round) (tmp : Text) (h : FlagsUpdate q r tmp) (t : InitHashTable) :
    (∀ s : HeaderState, s.table = t → SelectiveUpdate tmp s.header
      (processIkeHeader chunkHash ref (fuel + 1) (some q) s).1.header) ↔
    (FlagsReached chunkHash ref (some q) r t ∧ Distinctive tmp) ∨
      (¬ FlagsReached chunkHash ref (some q) r t ∧ ∀ f : Flag, tmp ≠ f.name ∧ tmp ≠ f.noName) := by
  by_cases hreached : FlagsReached chunkHash ref (some q) r t
  · rw [← wanted_iff_distinctive]
    simp only [hreached, true_and, not_true_eq_false, false_and, or_false]
    constructor
    · intro hall header f
      have hs := (hall ⟨header, 0, 0, t⟩ rfl).wanted f
      rwa [(flag_processIkeHeader h ⟨header, 0, 0, t⟩ f).1 hreached] at hs
    · rintro hall s rfl
      refine selective_of_wanted fun f => ?_
      rw [(flag_processIkeHeader h s f).1 hreached]
      exact hall s.header f
  · rw [← unchanged_iff_unnamed]
    simp only [hreached, false_and, not_false_eq_true, true_and, false_or]
    constructor
    · intro hall header f
      have hs := (hall ⟨header, 0, 0, t⟩ rfl).wanted f
      rwa [(flag_processIkeHeader h ⟨header, 0, 0, t⟩ f).2 hreached] at hs
    · rintro hall s rfl
      refine selective_of_wanted fun f => ?_
      rw [(flag_processIkeHeader h s f).2 hreached]
      exact hall s.header f

/-- The query for the IKE_SA_INIT response with an update of the flags. -/
def flagsUpdate (tmp : Text) : Query :=
  .node ⟨some Round.init.responseText, .notSet, 0, none⟩
    [.node ⟨some "flags".toList, .update, valTypeString, some tmp⟩ []]

theorem update_flagsUpdate (tmp : Text) : FlagsUpdate (flagsUpdate tmp) .init tmp where
  round := List.mem_cons_self
  name := rfl
  node := rfl

theorem distinctive_name (g : Flag) : Distinctive g.name := by
  intro f
  cases f <;> cases g <;> decide +kernel

theorem processIkeHeader_flags_commit :
    FlagsUpdate (flagsUpdate Flag.commit.name) .init Flag.commit.name ∧
      SelectiveUpdate Flag.commit.name responseHeader
        (processIkeHeader (fun _ => 0) ⟨[], 0⟩ 1 (some (flagsUpdate Flag.commit.name))
          ⟨responseHeader, 0, 0, InitHashTable.create 0⟩).1.header :=
  ⟨update_flagsUpdate _,
    (processIkeHeader_flags_selective_iff (fun _ => 0) ⟨[], 0⟩ 0 _ .init _ (update_flagsUpdate _) _).2
      (.inl ⟨.inl (by decide +kernel), distinctive_name .commit⟩)
      ⟨responseHeader, 0, 0, InitHashTable.create 0⟩ rfl⟩

/-- The text `no_` and the empty text clear the flag that says that the message is a response, and
`initiators` sets the one of the initiator. -/
theorem processIkeHeader_flags_unnamed :
    (∀ f : Flag, "no_".toList ≠ f.name ∧ "no_".toList ≠ f.noName ∧ [] ≠ f.name ∧ [] ≠ f.noName ∧
      "initiators".toList ≠ f.name ∧ "initiators".toList ≠ f.noName) ∧
    responseHeader.responseFlag = true ∧ responseHeader.initiatorFlag = false ∧
    (processIkeHeader (fun _ => 0) ⟨[], 0⟩ 1 (some (flagsUpdate "no_".toList))
      ⟨responseHeader, 0, 0, InitHashTable.create 0⟩).1.header.responseFlag = false ∧
    (processIkeHeader (fun _ => 0) ⟨[], 0⟩ 1 (some (flagsUpdate []))
      ⟨responseHeader, 0, 0, InitHashTable.create 0⟩).1.header.responseFlag = false ∧
    (processIkeHeader (fun _ => 0) ⟨[], 0⟩ 1 (some (flagsUpdate "initiators".toList))
      ⟨responseHeader, 0, 0, InitHashTable.create 0⟩).1.header.initiatorFlag = true := by
  refine ⟨fun f => ?_, rfl, rfl, by decide +kernel, by decide +kernel, by decide +kernel⟩
  cases f <;> decide +kernel

end Epdg

import VoWiFi.Epdg.IkeHeader
import VoWiFi.Epdg.Proofs.InitHashTableProofs
import VoWiFi.Epdg.Proofs.UpdateProofs

/-!
# Updates of the header

A query is for one response, so that one pass of the loop does all the work. In it every field has its own
statement, and only the one for the responder's SPI can stop: its search comes to an end exactly if the
entry of the session is the first one of the row it looks in.
-/

namespace Epdg

variable {chunkHash : Chunk → UInt32} {ref : HashRef} {fuel : ℕ} {q : Query} {query : Option Query}
  {r : Round} {f g : HeaderField} {s : HeaderState} {spi : UInt64}

/-! ## One pass of the loop -/

theorem processField_idle (h : askedQuery query r [f.name] = none) :
    Steps.Idle (processField chunkHash ref fuel query r f) := by
  intro s
  have hnone : f.asked query r = none := by rw [HeaderField.asked, h, Option.bind_none]
  rw [processField, hnone]

theorem processFlags_idle (h : askedQuery query r ["flags".toList] = none) :
    Steps.Idle (processFlags query r) := by
  intro s
  rw [processFlags, h, Option.bind_none]

/-- The loop does what its pass for the response of the query does. -/
theorem processIkeHeader_eq (hr : r ∈ generatedRounds)
    (h : isQueryName q.label (some r.responseText) = true) (s : HeaderState) :
    processIkeHeader chunkHash ref fuel (some q) s =
      processHeaderFor chunkHash ref fuel (some q) r s := by
  refine Steps.run_map_of_idle hr (by decide) (fun r' hr' hne => ?_) s
  have hnone := askedQuery_eq_none_of_ne hr hr' hne h
  refine Steps.Idle.run fun step hstep => ?_
  simp only [List.mem_cons, List.not_mem_nil, or_false] at hstep
  rcases hstep with rfl | rfl | rfl | rfl | rfl | rfl | rfl
  all_goals first
    | exact processField_idle (hnone _)
    | exact processFlags_idle (hnone _)

/-! ## The search -/

theorem searchRow_of_first {hash : Chunk} {e : InitHash} {items : List InitHash} (h : e.hash = hash) :
    searchRow hash (e :: items) (fuel + 1) = some (e :: items) := if_pos h

/-- A search that does not find the hash in the first item goes on forever. -/
theorem searchRow_of_ne {hash : Chunk} {e : InitHash} {items : List InitHash} (h : e.hash ≠ hash)
    (fuel : ℕ) : searchRow hash (e :: items) fuel = none := by
  induction fuel with
  | zero => rfl
  | succ fuel ih =>
    rw [searchRow]
    exact (if_neg h).trans ih

theorem HashRef.First.exists_row (h : ref.First chunkHash s.table) :
    ∃ e items, s.table.rows (ref.row chunkHash) = e :: items ∧ e.hash = ref.initHash := by
  unfold HashRef.First at h
  cases hrow : s.table.rows (ref.row chunkHash) with
  | nil =>
    rw [hrow] at h
    cases h
  | cons e items =>
    rw [hrow] at h
    exact ⟨e, items, rfl, Option.some.inj h⟩

theorem setOurSpi_goes (h : ref.First chunkHash s.table) :
    (setOurSpi chunkHash ref (fuel + 1) spi s).2 = none := by
  obtain ⟨e, items, hrow, heq⟩ := h.exists_row
  unfold setOurSpi
  dsimp only
  rw [hrow, searchRow_of_first heq]

theorem setOurSpi_of_first (hsound : s.table.Sound chunkHash) (h : ref.First chunkHash s.table) :
    setOurSpi chunkHash ref (fuel + 1) spi s =
      ({ s with table := s.table.withSpi ref.initHash spi }, none) := by
  obtain ⟨e, items, hrow, heq⟩ := h.exists_row
  unfold setOurSpi
  dsimp only
  rw [hrow, searchRow_of_first heq]
  dsimp only
  rw [← heq, hsound.withSpi_eq_setRow hrow]

theorem setOurSpi_stops (h : ¬ ref.First chunkHash s.table) (fuel : ℕ) :
    (setOurSpi chunkHash ref fuel spi s).2 ≠ none := by
  unfold HashRef.First at h
  unfold setOurSpi
  dsimp only
  cases hrow : s.table.rows (ref.row chunkHash) with
  | nil =>
    cases fuel with
    | zero => exact nofun
    | succ fuel => exact nofun
  | cons e items =>
    rw [hrow] at h
    have hne : e.hash ≠ ref.initHash := fun heq => h (congrArg some heq)
    rw [searchRow_of_ne hne]
    exact nofun

theorem header_setOurSpi (s : HeaderState) :
    (setOurSpi chunkHash ref fuel spi s).1.header = s.header := by
  unfold setOurSpi
  dsimp only
  split <;> rfl

/-! ## Fields -/

theorem get_set (v : ℤ) (f : HeaderField) (s : HeaderState) :
    f.get (f.set chunkHash ref fuel v s).1.header = (v % 2 ^ f.width.bits).toNat := by
  have hresponder : (f.set chunkHash ref fuel v s).1.header = match f with
      | .responderSpi => (s.setResponderSpi (UInt64.ofInt v)).header
      | f => (f.set chunkHash ref fuel v s).1.header := by
    cases f <;> first | rfl | exact header_setOurSpi _
  rw [hresponder]
  cases f <;> simp [HeaderField.get, HeaderField.set, HeaderState.setResponderSpi, HeaderField.width,
    Width.bits, UInt64.ofInt, UInt32.ofInt, UInt8.ofInt] <;> omega

theorem get_set_of_ne (h : f ≠ g) (v : ℤ) (s : HeaderState) :
    f.get (g.set chunkHash ref fuel v s).1.header = f.get s.header := by
  cases g with
  | responderSpi =>
    rw [HeaderField.set, header_setOurSpi]
    cases f <;> first | rfl | exact absurd rfl h
  | _ => cases f <;> first | rfl | exact absurd rfl h

theorem table_set (h : f ≠ .responderSpi) (v : ℤ) (s : HeaderState) :
    (f.set chunkHash ref fuel v s).1.table = s.table := by
  cases f <;> first | rfl | exact absurd rfl h

theorem set_goesOn (h : f ≠ .responderSpi) (v : ℤ) :
    Steps.GoesOn (f.set chunkHash ref fuel v) := by
  intro s
  cases f <;> first | rfl | exact absurd rfl h

/-! ## Statements -/

theorem processField_of_asked {v : ℤ} (h : f.asked query r = some v) :
    processField chunkHash ref fuel query r f = f.set chunkHash ref fuel v := by
  funext s
  rw [processField, h]

/-- What holds of every stored number and of doing nothing holds of the statement of a field. -/
theorem processField_induction {P : HeaderStep → Prop} (hset : ∀ v, P (f.set chunkHash ref fuel v))
    (hidle : P fun s => (s, none)) : P (processField chunkHash ref fuel query r f) := by
  cases h : f.asked query r with
  | some v =>
    rw [processField_of_asked h]
    exact hset v
  | none =>
    have hfun : processField chunkHash ref fuel query r f = fun s => (s, none) := by
      funext s
      rw [processField, h]
    rw [hfun]
    exact hidle

theorem processField_keeps_get (h : f ≠ g) :
    Steps.Keeps (fun s => f.get s.header) (processField chunkHash ref fuel query r g) :=
  processField_induction (fun v s => get_set_of_ne h v s) fun _ => rfl

theorem processField_keeps_table (h : f ≠ .responderSpi) :
    Steps.Keeps HeaderState.table (processField chunkHash ref fuel query r f) :=
  processField_induction (fun v s => table_set h v s) fun _ => rfl

theorem processField_goesOn (h : f ≠ .responderSpi) :
    Steps.GoesOn (processField chunkHash ref fuel query r f) :=
  processField_induction (fun v => set_goesOn h v) fun _ => rfl

theorem get_setFlags (tmp : Text) (h : IkeHeader) : f.get (setFlags tmp h) = f.get h := by
  have hsetter : ∀ p ∈ flagSetters, ∀ h : IkeHeader, f.get (p.2 h) = f.get h := by
    intro p hp h
    simp only [flagSetters, List.mem_cons, List.not_mem_nil, or_false] at hp
    cases f <;> rcases hp with rfl | rfl | rfl | rfl | rfl | rfl | rfl | rfl | rfl | rfl | rfl | rfl <;> rfl
  unfold setFlags
  revert hsetter
  generalize flagSetters = setters
  intro hsetter
  induction setters generalizing h with
  | nil => rfl
  | cons p ps ih =>
    rw [List.forall_mem_cons] at hsetter
    rw [List.foldl_cons, ih _ hsetter.2]
    split
    · exact hsetter.1 h
    · rfl

theorem processFlags_keeps_get : Steps.Keeps (fun s => f.get s.header) (processFlags query r) := by
  intro s
  unfold processFlags
  cases (askedQuery query r ["flags".toList]).bind (·.label.string?) with
  | some tmp => exact get_setFlags tmp s.header
  | none => rfl

theorem processFlags_keeps_table : Steps.Keeps HeaderState.table (processFlags query r) := by
  intro s
  unfold processFlags
  cases (askedQuery query r ["flags".toList]).bind (·.label.string?) <;> rfl

theorem processFlags_goesOn : Steps.GoesOn (processFlags query r) := by
  intro s
  unfold processFlags
  cases (askedQuery query r ["flags".toList]).bind (·.label.string?) <;> rfl

/-- A number can be stored in every field that a query asks for. -/
theorem asked_of_carriedBy {radix : Radix} {text : Text} {n : ℕ}
    (h : f.CarriedBy q r radix text n) :
    f.asked (some q) r = some (charToInt32 radix.base text) := by
  obtain ⟨t, ht, hlabel⟩ := Option.map_eq_some_iff.1 h.node
  have hat : Query.at? q [f.name] = some t := by
    rw [Query.at?, List.foldlM_cons, ht]
    rfl
  rw [HeaderField.asked, askedQuery_of_name h.name, hat, Option.bind_some, hlabel]
  cases radix <;> cases f <;> rfl

/-- The query for the IKE_SA_INIT response with an update of one field. -/
def headerUpdate (f : HeaderField) (radix : Radix) (text : Text) : Query :=
  .node ⟨some Round.init.responseText, .notSet, 0, none⟩
    [.node ⟨some f.name, .update, valTypeUint f.width radix, some text⟩ []]

/-- The header of an IKE_SA_INIT response of IKEv2, with no SPI set. -/
def responseHeader : IkeHeader :=
  { initiatorSpi := 0, responderSpi := 0, majVersion := 2, minVersion := 0, exchangeType := 34
    responseFlag := true, versionFlag := false, initiatorFlag := false, encryptionFlag := false
    commitFlag := false, authonlyFlag := false, messageId := 0 }

/-! ## The responder's SPI -/

/-- The statements behind the one for the responder's SPI. -/
def laterSteps (chunkHash : Chunk → UInt32) (ref : HashRef) (fuel : ℕ) (query : Option Query)
    (r : Round) : List HeaderStep :=
  [processField chunkHash ref fuel query r .majVersion,
    processField chunkHash ref fuel query r .minVersion,
    processField chunkHash ref fuel query r .exchangeType,
    processFlags query r,
    processField chunkHash ref fuel query r .messageId]

theorem laterSteps_forall {P : HeaderStep → Prop}
    (hfield : ∀ f, f ≠ .responderSpi → P (processField chunkHash ref fuel query r f))
    (hflags : P (processFlags query r)) : ∀ step ∈ laterSteps chunkHash ref fuel query r, P step := by
  simp only [laterSteps, List.forall_mem_cons]
  exact ⟨hfield _ nofun, hfield _ nofun, hfield _ nofun, hflags, hfield _ nofun, List.forall_mem_nil _⟩

/-- The state in which the responder's SPI is looked at. -/
def atResponderSpi (chunkHash : Chunk → UInt32) (ref : HashRef) (fuel : ℕ) (query : Option Query)
    (r : Round) (s : HeaderState) : HeaderState :=
  (Steps.run [processField chunkHash ref fuel query r .initiatorSpi] s).1

theorem table_atResponderSpi (s : HeaderState) :
    (atResponderSpi chunkHash ref fuel query r s).table = s.table := by
  have hkeeps : ∀ step ∈ [processField chunkHash ref fuel query r .initiatorSpi],
      Steps.Keeps HeaderState.table step := by
    rw [List.forall_mem_singleton]
    exact processField_keeps_table nofun
  exact Steps.Keeps.run hkeeps s

/-- Up to the later statements only the search for the responder's SPI can stop a pass. -/
theorem stop_run_later {steps : List HeaderStep}
    (hsub : steps ⊆ laterSteps chunkHash ref fuel query r) (s : HeaderState) :
    (Steps.run (processField chunkHash ref fuel query r .initiatorSpi ::
      processField chunkHash ref fuel query r .responderSpi :: steps) s).2 =
    (processField chunkHash ref fuel query r .responderSpi
      (atResponderSpi chunkHash ref fuel query r s)).2 := by
  refine Steps.stop_run_append (l := [_]) ?_ (fun step hstep => ?_) s
  · rw [List.forall_mem_singleton]
    exact processField_goesOn nofun
  · exact laterSteps_forall (fun f hf => processField_goesOn hf) processFlags_goesOn step (hsub hstep)

theorem processField_responderSpi_stops {v : ℤ}
    (hasked : HeaderField.responderSpi.asked query r = some v) (h : ¬ ref.First chunkHash s.table)
    (fuel : ℕ) : (processField chunkHash ref fuel query r .responderSpi s).2 ≠ none := by
  rw [processField_of_asked hasked]
  exact setOurSpi_stops (s := s.setResponderSpi (UInt64.ofInt v)) h fuel

theorem processField_responderSpi_goes
    (h : HeaderField.responderSpi.asked query r = none ∨ ref.First chunkHash s.table) :
    (processField chunkHash ref (fuel + 1) query r .responderSpi s).2 = none := by
  cases hasked : HeaderField.responderSpi.asked query r with
  | none => rw [processField, hasked]
  | some v =>
    rw [hasked] at h
    rw [processField_of_asked hasked]
    exact setOurSpi_goes (s := s.setResponderSpi (UInt64.ofInt v)) (h.resolve_left nofun)

theorem table_processField_responderSpi {v : ℤ}
    (hasked : HeaderField.responderSpi.asked query r = some v) (hsound : s.table.Sound chunkHash)
    (h : ref.First chunkHash s.table) :
    (processField chunkHash ref (fuel + 1) query r .responderSpi s).1.table =
      s.table.withSpi ref.initHash (UInt64.ofInt v) := by
  rw [processField_of_asked hasked]
  exact congrArg (fun p => p.1.table)
    (setOurSpi_of_first (s := s.setResponderSpi (UInt64.ofInt v)) hsound h)

/-- Only the search for the responder's SPI touches the table. -/
theorem table_processHeaderFor (s : HeaderState) :
    (processHeaderFor chunkHash ref fuel query r s).1.table =
      (processField chunkHash ref fuel query r .responderSpi
        (atResponderSpi chunkHash ref fuel query r s)).1.table := by
  have hbefore : ∀ step ∈ [processField chunkHash ref fuel query r .initiatorSpi],
      Steps.Keeps HeaderState.table step ∧ Steps.GoesOn step := by
    rw [List.forall_mem_singleton]
    exact ⟨processField_keeps_table nofun, processField_goesOn nofun⟩
  have hafter : ∀ step ∈ laterSteps chunkHash ref fuel query r, Steps.Keeps HeaderState.table step :=
    laterSteps_forall (fun f hf => processField_keeps_table hf) processFlags_keeps_table
  refine (Steps.view_run_append (fun step hstep => (hbefore step hstep).1) hafter s).trans ?_
  exact if_pos (Steps.GoesOn.run (fun step hstep => (hbefore step hstep).2) s)

/-- What an update of the responder's SPI is for: the entry of the hash gets the new SPI and nothing else
changes, so that a retransmitted request is mapped to it and every other one to its old SPI. -/
structure Remapped (chunkHash : Chunk → UInt32) (t t' : InitHashTable) (hash : Chunk) (spi : UInt64) :
    Prop where
  table : t' = t.withSpi hash spi
  retransmission : ∀ new, (t'.checkAndPutInitHash chunkHash hash new).1 = .alreadyDone ∧
    (t'.checkAndPutInitHash chunkHash hash new).2.1 = some spi
  others : ∀ other, other ≠ hash → ∀ new,
    (t'.checkAndPutInitHash chunkHash other new).1 = (t.checkAndPutInitHash chunkHash other new).1 ∧
    (t'.checkAndPutInitHash chunkHash other new).2.1 = (t.checkAndPutInitHash chunkHash other new).2.1

theorem checkAndPutInitHash_withSpi_self {t : InitHashTable} {hash : Chunk} {e : InitHash}
    (h : t.find chunkHash hash = some e) (new : UInt64) :
    (t.withSpi hash spi).checkAndPutInitHash chunkHash hash new =
      (.alreadyDone, some spi, t.withSpi hash spi) := by
  have hspi : (e.withSpi hash spi).ourSpi = spi := by
    rw [InitHash.withSpi, if_pos (InitHashTable.hash_of_find h)]
  rw [InitHashTable.checkAndPutInitHash, InitHashTable.find_withSpi, h, Option.map_some]
  dsimp only
  rw [hspi]

theorem checkAndPutInitHash_withSpi_other {t : InitHashTable} {hash other : Chunk}
    (h : other ≠ hash) (new : UInt64) :
    ((t.withSpi hash spi).checkAndPutInitHash chunkHash other new).1 =
        (t.checkAndPutInitHash chunkHash other new).1 ∧
      ((t.withSpi hash spi).checkAndPutInitHash chunkHash other new).2.1 =
        (t.checkAndPutInitHash chunkHash other new).2.1 := by
  unfold InitHashTable.checkAndPutInitHash
  rw [InitHashTable.find_withSpi]
  cases hfind : t.find chunkHash other with
  | some e =>
    have hne : e.hash ≠ hash := fun heq => h ((InitHashTable.hash_of_find hfind).symm.trans heq)
    rw [Option.map_some, InitHash.withSpi_of_ne hne]
    exact ⟨rfl, rfl⟩
  | none =>
    rw [Option.map_none]
    dsimp only
    split <;> exact ⟨rfl, rfl⟩

/-- The entry that the search ends with is in the table. -/
theorem HashRef.First.find (hsound : s.table.Sound chunkHash) (h : ref.First chunkHash s.table) :
    ∃ e, s.table.find chunkHash ref.initHash = some e := by
  obtain ⟨e, items, hrow, heq⟩ := h.exists_row
  have hplaced : s.table.row chunkHash ref.initHash = ref.row chunkHash := by
    rw [← heq]
    exact hsound.placed _ e (hrow ▸ List.mem_cons_self)
  refine ⟨e, ?_⟩
  rw [InitHashTable.find, hplaced, hrow]
  exact List.find?_cons_of_pos (by simpa using heq)

theorem HashRef.First.remapped (hsound : s.table.Sound chunkHash) (h : ref.First chunkHash s.table) :
    Remapped chunkHash s.table (s.table.withSpi ref.initHash spi) ref.initHash spi := by
  obtain ⟨e, he⟩ := h.find hsound
  refine ⟨rfl, fun new => ?_, fun other hne new => checkAndPutInitHash_withSpi_other hne new⟩
  rw [checkAndPutInitHash_withSpi_self he new]
  exact ⟨rfl, rfl⟩

theorem name_of_asked {v : ℤ} (h : f.asked (some q) r = some v) :
    isQueryName q.label (some r.responseText) = true := by
  obtain ⟨t, ht, -⟩ := Option.bind_eq_some_iff.1 h
  exact (name_of_askedQuery ht).1

theorem stop_processIkeHeader (hr : r ∈ generatedRounds)
    (hname : isQueryName q.label (some r.responseText) = true) (s : HeaderState) :
    (processIkeHeader chunkHash ref fuel (some q) s).2 =
      (processField chunkHash ref fuel (some q) r .responderSpi
        (atResponderSpi chunkHash ref fuel (some q) r s)).2 := by
  rw [processIkeHeader_eq hr hname]
  exact stop_run_later (List.Subset.refl _) s

/-- If the entry of the session is not the first one, there is no fuel with which the update comes to
its end. -/
theorem processIkeHeader_stops {v : ℤ} (hr : r ∈ generatedRounds)
    (hasked : HeaderField.responderSpi.asked (some q) r = some v) (h : ¬ ref.First chunkHash s.table)
    (fuel : ℕ) : (processIkeHeader chunkHash ref fuel (some q) s).2 ≠ none := by
  rw [stop_processIkeHeader hr (name_of_asked hasked)]
  refine processField_responderSpi_stops hasked ?_ fuel
  rw [table_atResponderSpi]
  exact h

/-- For every table that the manager maintains, an update of the responder's SPI comes to its end and
remaps the request of the session exactly if the entry of the session is the first one in the row that
the eight bits of the mask give. -/
theorem processIkeHeader_remaps_iff (chunkHash : Chunk → UInt32) (bits : ℕ) (calls : List TableCall)
    (hash : Chunk) (q : Query) (r : Round) (v : ℤ) (s : HeaderState) (hr : r ∈ generatedRounds)
    (hasked : HeaderField.responderSpi.asked (some q) r = some v)
    (hs : s.table = InitHashTable.maintained chunkHash bits calls) :
    (∃ fuel s', processIkeHeader chunkHash (s.table.ref hash) fuel (some q) s = (s', none) ∧
      Remapped chunkHash s.table s'.table hash (UInt64.ofInt v)) ↔
    (s.table.ref hash).First chunkHash s.table := by
  have hname := name_of_asked hasked
  have hsound : s.table.Sound chunkHash := hs ▸ InitHashTable.sound_maintained chunkHash bits calls
  constructor
  · rintro ⟨fuel, s', hrun, -⟩
    by_contra hnot
    refine processIkeHeader_stops hr hasked hnot fuel ?_
    rw [hrun]
  · intro hfirst
    refine ⟨1, (processIkeHeader chunkHash (s.table.ref hash) 1 (some q) s).1, Prod.ext rfl ?_, ?_⟩
    · rw [stop_processIkeHeader hr hname]
      refine processField_responderSpi_goes (.inr ?_)
      rw [table_atResponderSpi]
      exact hfirst
    · rw [processIkeHeader_eq hr hname, table_processHeaderFor, table_processField_responderSpi hasked]
      · rw [table_atResponderSpi]
        exact hfirst.remapped hsound
      · rw [table_atResponderSpi]
        exact hsound
      · rw [table_atResponderSpi]
        exact hfirst

/-- A table with one row, after requests with these hashes. -/
def requestTable (hashes : List Chunk) : InitHashTable :=
  InitHashTable.maintained (fun _ => 0) 0 (hashes.map (.checkAndPut · 10))

theorem processIkeHeader_remaps_only :
    ∃ fuel s', processIkeHeader (fun _ => 0) ((requestTable [[1]]).ref [1]) fuel
        (some (headerUpdate .responderSpi .decimal "5".toList))
        ⟨responseHeader, 0, 0, requestTable [[1]]⟩ = (s', none) ∧
      Remapped (fun _ => 0) (requestTable [[1]]) s'.table [1] 5 :=
  (processIkeHeader_remaps_iff (fun _ => 0) 0 _ [1] (headerUpdate .responderSpi .decimal "5".toList) .init
    5 ⟨responseHeader, 0, 0, requestTable [[1]]⟩ List.mem_cons_self (by decide +kernel) rfl).2
    (by decide +kernel)

/-- Behind the request of the session there has been another one in the same row. -/
theorem processIkeHeader_not_remaps :
    ((requestTable [[1], [2]]).find (fun _ => 0) [1]).isSome = true ∧
    ∀ fuel, (processIkeHeader (fun _ => 0) ((requestTable [[1], [2]]).ref [1]) fuel
      (some (headerUpdate .responderSpi .decimal "5".toList))
      ⟨responseHeader, 0, 0, requestTable [[1], [2]]⟩).2 ≠ none := by
  refine ⟨by decide +kernel, fun fuel => ?_⟩
  exact processIkeHeader_stops (r := .init) (v := 5) List.mem_cons_self (by decide +kernel)
    (by decide +kernel) fuel

/-! ## Numbers -/

theorem get_run_split {l m : List HeaderStep} {v : ℤ} (hasked : f.asked query r = some v)
    (hbefore : ∀ step ∈ l, Steps.Keeps (fun s => f.get s.header) step)
    (hafter : ∀ step ∈ m, Steps.Keeps (fun s => f.get s.header) step) (s : HeaderState) :
    f.get (Steps.run (l ++ processField chunkHash ref fuel query r f :: m) s).1.header =
      if (Steps.run l s).2 = none then (v % 2 ^ f.width.bits).toNat else f.get s.header := by
  rw [processField_of_asked hasked]
  have hview := Steps.view_run_append (f := f.set chunkHash ref fuel v) hbefore hafter s
  rw [hview, get_set]

/-- A field behind the responder's SPI gets its number if the search comes to its end. -/
theorem get_run_later {l m : List HeaderStep} {v : ℤ} (hasked : f.asked query r = some v)
    (hne : f ≠ .initiatorSpi ∧ f ≠ .responderSpi)
    (hlater : laterSteps chunkHash ref (fuel + 1) query r =
      l ++ processField chunkHash ref (fuel + 1) query r f :: m)
    (hkeeps : ∀ step ∈ l ++ m, Steps.Keeps (fun s => f.get s.header) step) (s : HeaderState) :
    (f.Reached chunkHash ref query r s.table →
      f.get (processHeaderFor chunkHash ref (fuel + 1) query r s).1.header =
        (v % 2 ^ f.width.bits).toNat) ∧
    (¬ f.Reached chunkHash ref query r s.table →
      f.get (processHeaderFor chunkHash ref (fuel + 1) query r s).1.header = f.get s.header) := by
  have hbefore : ∀ step ∈ processField chunkHash ref (fuel + 1) query r .initiatorSpi ::
      processField chunkHash ref (fuel + 1) query r .responderSpi :: l,
      Steps.Keeps (fun s => f.get s.header) step := by
    rw [List.forall_mem_cons, List.forall_mem_cons]
    exact ⟨processField_keeps_get hne.1, processField_keeps_get hne.2,
      fun step hstep => hkeeps step (List.mem_append_left _ hstep)⟩
  have hafter : ∀ step ∈ m, Steps.Keeps (fun s => f.get s.header) step :=
    fun step hstep => hkeeps step (List.mem_append_right _ hstep)
  have hsub : l ⊆ laterSteps chunkHash ref (fuel + 1) query r := by
    rw [hlater]
    exact List.subset_append_left _ _
  have hpass : processHeaderFor chunkHash ref (fuel + 1) query r =
      Steps.run ((processField chunkHash ref (fuel + 1) query r .initiatorSpi ::
        processField chunkHash ref (fuel + 1) query r .responderSpi :: l) ++
          processField chunkHash ref (fuel + 1) query r f :: m) := by
    rw [List.cons_append, List.cons_append, ← hlater]
    rfl
  rw [hpass, get_run_split hasked hbefore hafter, stop_run_later hsub]
  constructor
  · intro hreached
    refine if_pos (processField_responderSpi_goes ?_)
    rw [table_atResponderSpi]
    exact (hreached.resolve_left hne.1).resolve_left hne.2
  · intro hnot
    refine if_neg ?_
    cases hresp : HeaderField.responderSpi.asked query r with
    | none => exact absurd (.inr (.inr (.inl hresp))) hnot
    | some v =>
      refine processField_responderSpi_stops hresp ?_ _
      rw [table_atResponderSpi]
      exact fun hfirst => hnot (.inr (.inr (.inr hfirst)))

/-- What a pass leaves in a field that the query asks for. -/
theorem get_processHeaderFor {v : ℤ} (hasked : f.asked query r = some v) (s : HeaderState) :
    (f.Reached chunkHash ref query r s.table →
      f.get (processHeaderFor chunkHash ref (fuel + 1) query r s).1.header =
        (v % 2 ^ f.width.bits).toNat) ∧
    (¬ f.Reached chunkHash ref query r s.table →
      f.get (processHeaderFor chunkHash ref (fuel + 1) query r s).1.header = f.get s.header) := by
  have hkeep : ∀ g, f ≠ g → Steps.Keeps (fun s => f.get s.header)
      (processField chunkHash ref (fuel + 1) query r g) := fun g hg => processField_keeps_get hg
  have hflags : Steps.Keeps (fun s => f.get s.header) (processFlags query r) := processFlags_keeps_get
  cases f with
  | initiatorSpi =>
    refine ⟨fun _ => ?_, fun hnot => absurd (.inl rfl) hnot⟩
    refine get_run_split (l := []) hasked (List.forall_mem_nil _) ?_ s
    simp only [List.forall_mem_cons]
    exact ⟨hkeep _ nofun, hkeep _ nofun, hkeep _ nofun, hkeep _ nofun, hflags, hkeep _ nofun,
      List.forall_mem_nil _⟩
  | responderSpi =>
    refine ⟨fun _ => ?_, fun hnot => absurd (.inr (.inl rfl)) hnot⟩
    refine (get_run_split (l := [processField chunkHash ref (fuel + 1) query r .initiatorSpi])
      (m := laterSteps chunkHash ref (fuel + 1) query r) hasked ?_ ?_ s).trans (if_pos ?_)
    · rw [List.forall_mem_singleton]
      exact hkeep _ nofun
    · refine laterSteps_forall (fun g hg => hkeep g (Ne.symm hg)) hflags
    · refine Steps.GoesOn.run ?_ s
      rw [List.forall_mem_singleton]
      exact processField_goesOn nofun
  | majVersion =>
    refine get_run_later (l := []) hasked ⟨nofun, nofun⟩ rfl ?_ s
    simp only [List.nil_append, List.forall_mem_cons]
    exact ⟨hkeep _ nofun, hkeep _ nofun, hflags, hkeep _ nofun, List.forall_mem_nil _⟩
  | minVersion =>
    refine get_run_later (l := [_]) hasked ⟨nofun, nofun⟩ rfl ?_ s
    simp only [List.cons_append, List.nil_append, List.forall_mem_cons]
    exact ⟨hkeep _ nofun, hkeep _ nofun, hflags, hkeep _ nofun, List.forall_mem_nil _⟩
  | exchangeType =>
    refine get_run_later (l := [_, _]) hasked ⟨nofun, nofun⟩ rfl ?_ s
    simp only [List.cons_append, List.nil_append, List.forall_mem_cons]
    exact ⟨hkeep _ nofun, hkeep _ nofun, hflags, hkeep _ nofun, List.forall_mem_nil _⟩
  | messageId =>
    refine get_run_later (l := [_, _, _, _]) hasked ⟨nofun, nofun⟩ rfl ?_ s
    simp only [List.append_nil, List.forall_mem_cons]
    exact ⟨hkeep _ nofun, hkeep _ nofun, hkeep _ nofun, hflags, List.forall_mem_nil _⟩

/-- A numeral that a query carries for a field of the header is stored exactly under the conditions on
its letters and its size, if the field is reached; otherwise the field keeps what it has. -/
theorem processIkeHeader_stores_iff (chunkHash : Chunk → UInt32) (ref : HashRef) (fuel : ℕ) (q : Query)
    (r : Round) (f : HeaderField) (radix : Radix) (text : Text) (v : ℕ)
    (h : f.CarriedBy q r radix text v) (s : HeaderState) :
    f.get (processIkeHeader chunkHash ref (fuel + 1) (some q) s).1.header = v ↔
      (f.Reached chunkHash ref (some q) r s.table ∧ Exact f.width radix text v) ∨
      (¬ f.Reached chunkHash ref (some q) r s.table ∧ f.get s.header = v) := by
  have hasked := asked_of_carriedBy h
  rw [processIkeHeader_eq h.round h.name]
  by_cases hreached : f.Reached chunkHash ref (some q) r s.table
  · rw [(get_processHeaderFor hasked s).1 hreached, h.numeral.charToInt32_exact_iff h.fits]
    simp [hreached]
  · rw [(get_processHeaderFor hasked s).2 hreached]
    simp [hreached]

theorem carriedBy_headerUpdate {f : HeaderField} {radix : Radix} {text : Text} {v : ℕ}
    (hnum : Numeral radix text v) (hv : v < 2 ^ f.width.bits) :
    f.CarriedBy (headerUpdate f radix text) .init radix text v where
  round := List.mem_cons_self
  name := rfl
  node := by cases f <;> rfl
  numeral := hnum
  fits := hv

theorem processIkeHeader_stores_messageId :
    HeaderField.messageId.get (processIkeHeader (fun _ => 0) ⟨[], 0⟩ 1
      (some (headerUpdate .messageId .decimal "4294967295".toList))
      ⟨responseHeader, 0, 0, InitHashTable.create 0⟩).1.header = 4294967295 :=
  (processIkeHeader_stores_iff (fun _ => 0) ⟨[], 0⟩ 0 _ .init .messageId .decimal
    "4294967295".toList 4294967295 (carriedBy_headerUpdate (by decide +kernel) (by decide +kernel)) _).2
    (.inl ⟨.inr (.inr (.inl (by decide +kernel))), ⟨nofun, nofun⟩⟩)

/-- The letters of `ff` count 54 each, and the sign of `2147483648` is extended. -/
theorem processIkeHeader_not_exact :
    HeaderField.messageId.CarriedBy (headerUpdate .messageId .hexadecimal "ff".toList) .init
        .hexadecimal "ff".toList 255 ∧
      (processIkeHeader (fun _ => 0) ⟨[], 0⟩ 1
        (some (headerUpdate .messageId .hexadecimal "ff".toList))
        ⟨responseHeader, 0, 0, InitHashTable.create 0⟩).1.header.messageId = 918 ∧
    HeaderField.initiatorSpi.CarriedBy (headerUpdate .initiatorSpi .decimal "2147483648".toList) .init
        .decimal "2147483648".toList 2147483648 ∧
      (processIkeHeader (fun _ => 0) ⟨[], 0⟩ 1
        (some (headerUpdate .initiatorSpi .decimal "2147483648".toList))
        ⟨responseHeader, 0, 0, InitHashTable.create 0⟩).1.header.initiatorSpi = 0xffffffff80000000 :=
  ⟨carriedBy_headerUpdate (by decide +kernel) (by decide +kernel), by decide +kernel,
    carriedBy_headerUpdate (by decide +kernel) (by decide +kernel), by decide +kernel⟩

end Epdg

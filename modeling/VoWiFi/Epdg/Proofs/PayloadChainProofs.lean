import VoWiFi.Epdg.PayloadChain
import VoWiFi.Epdg.Proofs.IkeHeaderProofs

/-!
# What the loop of `generate_message` writes

An iteration either passes over a dropped payload and leaves the current one pending, or hands the pending
payload to its function, writes it with the type of the next one, and makes the next one pending. The log
of the loop is therefore given by the addresses that are kept.
-/

namespace Epdg

variable {σ : Type} {handle : σ → PayloadBody → Except Stop (σ × PayloadBody)} {query : Option Query}
  {attached : Bool} {heap₀ : ℕ → IkePayload} {c c' : ChainState σ} {next : ℕ} {nexts : List ℕ}
  {last : PayloadType}

/-- The function for a payload comes to its end. -/
def Returns (handle : σ → PayloadBody → Except Stop (σ × PayloadBody)) (p : IkePayload) : Prop :=
  ∀ s, ∃ r, handle s p.body = .ok r

/-- The functions do not change the type of a payload. -/
def KeepsType (handle : σ → PayloadBody → Except Stop (σ × PayloadBody)) : Prop :=
  ∀ s b r, handle s b = .ok r → r.2.type = b.type

/-- The state before an iteration: the current payload and those still to come are as they were, and the
second pointer is not set or the same as the first one. -/
structure BeforeStep (attached : Bool) (heap₀ : ℕ → IkePayload) (c : ChainState σ) (nexts : List ℕ) :
    Prop where
  back : c.ppayload = none ∨ c.ppayload = some c.payload
  idle : attached = false → c.pret ≠ .needDropNext
  current : c.heap c.payload = heap₀ c.payload
  fresh : ∀ j ∈ nexts, c.heap j = heap₀ j
  notMem : c.payload ∉ nexts
  nodup : nexts.Nodup

/-- The query drops the payload at an address. -/
def dropped (query : Option Query) (attached : Bool) (heap₀ : ℕ → IkePayload) (i : ℕ) : Bool :=
  attached && checkDropNext query (heap₀ i).body = .needDropNext

/-- The events for a payload that is written when a next one is there. -/
def handledEvents (attached : Bool) (heap₀ : ℕ → IkePayload) (i : ℕ) : List ChainEvent :=
  if attached && (heap₀ i).body.type.hasHandler then [.handled i] else []

/-! ## An iteration -/

theorem ChainState.resume_eq (h : c.ppayload = none ∨ c.ppayload = some c.payload) :
    c.resume = { c with ppayload := none } := by
  rcases h with h | h
  · rw [ChainState.resume, h]
    dsimp only
    rw [← h]
  · rw [ChainState.resume, h]

/-- A dropped payload is passed over. -/
theorem step_of_dropped (h : BeforeStep attached heap₀ c (next :: nexts))
    (hdrop : dropped query attached heap₀ next = true) :
    c.step handle query attached next =
      .ok { c with pret := .needDropNext, ppayload := some c.payload } := by
  rw [dropped, Bool.and_eq_true, decide_eq_true_eq] at hdrop
  rw [ChainState.step, if_pos hdrop.1, ChainState.processQuery, h.fresh next List.mem_cons_self,
    if_pos hdrop.2]
  rfl

theorem BeforeStep.of_dropped (h : BeforeStep attached heap₀ c (next :: nexts)) (hatt : attached = true) :
    BeforeStep attached heap₀ { c with pret := .needDropNext, ppayload := some c.payload } nexts where
  back := .inr rfl
  idle hnot := by rw [hatt] at hnot; cases hnot
  current := h.current
  fresh j hj := h.fresh j (List.mem_cons_of_mem _ hj)
  notMem hmem := h.notMem (List.mem_cons_of_mem _ hmem)
  nodup := (List.nodup_cons.1 h.nodup).2

/-- What `process_query` leaves of the state when it does not drop the next payload. -/
structure Processed (attached : Bool) (heap₀ : ℕ → IkePayload) (c c' : ChainState σ) : Prop where
  payload : c'.payload = c.payload
  ppayload : c'.ppayload = c.ppayload
  pret : c'.pret ≠ .needDropNext
  type : (c'.heap c.payload).body.type = (c.heap c.payload).body.type
  heap : ∀ j, j ≠ c.payload → c'.heap j = c.heap j
  log : c'.log = c.log ++ handledEvents attached heap₀ c.payload

theorem processed_of_processQuery (hkeeps : KeepsType handle)
    (h : BeforeStep true heap₀ c (next :: nexts))
    (hkept : checkDropNext query (heap₀ next).body ≠ .needDropNext)
    (hquery : c.processQuery handle query next = .ok c') : Processed true heap₀ c c' := by
  rw [ChainState.processQuery, h.fresh next List.mem_cons_self, if_neg hkept] at hquery
  dsimp only at hquery
  by_cases hhandler : (c.heap c.payload).body.type.hasHandler = true
  · rw [if_pos hhandler] at hquery
    split at hquery
    · cases hquery
    · next env body hhandle =>
      cases hquery
      refine ⟨rfl, rfl, nofun, ?_, fun j hj => Function.update_of_ne hj .., ?_⟩
      · dsimp only
        rw [Function.update_self]
        exact hkeeps _ _ _ hhandle
      · rw [h.current] at hhandler
        simp [handledEvents, hhandler]
  · rw [if_neg hhandler] at hquery
    cases hquery
    refine ⟨rfl, rfl, nofun, rfl, fun _ _ => rfl, ?_⟩
    rw [h.current] at hhandler
    simp [handledEvents, hhandler]

/-- An iteration for a payload that is kept. -/
theorem step_of_kept (hkeeps : KeepsType handle) (h : BeforeStep attached heap₀ c (next :: nexts))
    (hkept : dropped query attached heap₀ next = false)
    (hstep : c.step handle query attached next = .ok c') :
    ∃ c₁, c' = c₁.advance next ∧ Processed attached heap₀ c c₁ := by
  cases attached with
  | false =>
    cases hstep
    refine ⟨c, rfl, rfl, rfl, h.idle rfl, rfl, fun _ _ => rfl, ?_⟩
    rw [handledEvents, Bool.false_and, if_neg Bool.false_ne_true, List.append_nil]
  | true =>
    have hne : checkDropNext query (heap₀ next).body ≠ .needDropNext := by
      simpa [dropped] using hkept
    rw [ChainState.step, if_pos rfl] at hstep
    cases hquery : c.processQuery handle query next with
    | error stop =>
      rw [hquery] at hstep
      cases hstep
    | ok c₁ =>
      rw [hquery] at hstep
      cases hstep
      exact ⟨c₁, rfl, processed_of_processQuery hkeeps h hne hquery⟩

theorem exists_step (hret : Returns handle (c.heap c.payload)) :
    ∃ c', c.step handle query attached next = .ok c' := by
  cases attached with
  | false => exact ⟨_, rfl⟩
  | true =>
    rw [ChainState.step, if_pos rfl, ChainState.processQuery]
    dsimp only
    split
    · exact ⟨_, rfl⟩
    · split
      · obtain ⟨r, hr⟩ := hret c.env
        rw [hr]
        exact ⟨_, rfl⟩
      · exact ⟨_, rfl⟩

/-- The pending payload is written and the next one becomes pending. -/
theorem advance_of_processed {c₁ : ChainState σ} (h : BeforeStep attached heap₀ c (next :: nexts))
    (hc₁ : Processed attached heap₀ c c₁) :
    ∃ x : IkePayload, x.nextType = (heap₀ next).body.type ∧
      x.body.type = (heap₀ c.payload).body.type ∧
      (c₁.advance next).log = c.log ++ handledEvents attached heap₀ c.payload ++
        [.emitted c.payload x] ∧
      (c₁.advance next).payload = next ∧ BeforeStep attached heap₀ (c₁.advance next) nexts := by
  have hback : c₁.ppayload = none ∨ c₁.ppayload = some c₁.payload := by
    rw [hc₁.ppayload, hc₁.payload]
    exact h.back
  have hne : next ≠ c.payload := fun heq => h.notMem (heq ▸ List.mem_cons_self)
  have hnext : c₁.heap next = heap₀ next := by
    rw [hc₁.heap next hne, h.fresh next List.mem_cons_self]
  rw [ChainState.advance, if_neg hc₁.pret, ChainState.resume_eq hback, hnext]
  refine ⟨{ c₁.heap c.payload with nextType := (heap₀ next).body.type }, rfl, ?_, ?_, rfl, ?_⟩
  · rw [← h.current]
    exact hc₁.type
  · simp only [ChainState.emit, hc₁.payload, hc₁.log]
  · -- only the payload that has been written differs in the heap
    have hheap : ∀ j ∈ next :: nexts, Function.update c₁.heap c₁.payload
        { c₁.heap c₁.payload with nextType := (heap₀ next).body.type } j = heap₀ j := by
      intro j hj
      have hj' : j ≠ c₁.payload := fun heq => h.notMem (hc₁.payload ▸ heq ▸ hj)
      rw [Function.update_of_ne hj', hc₁.heap j (hc₁.payload ▸ hj'), h.fresh j hj]
    exact ⟨.inl rfl, fun _ => hc₁.pret, hheap next List.mem_cons_self,
      fun j hj => hheap j (List.mem_cons_of_mem _ hj), (List.nodup_cons.1 h.nodup).1,
      (List.nodup_cons.1 h.nodup).2⟩

/-! ## The loop -/

/-- The events of the loop from a pending payload on, given the addresses that are kept behind it. -/
def Writes (attached : Bool) (heap₀ : ℕ → IkePayload) (last : PayloadType) :
    ℕ → List ℕ → List ChainEvent → Prop
  | p, [], events =>
    ∃ x, events = [.emitted p x] ∧ x.nextType = last ∧ x.body.type = (heap₀ p).body.type
  | p, k :: ks, events =>
    ∃ x rest, events = handledEvents attached heap₀ p ++ .emitted p x :: rest ∧
      x.nextType = (heap₀ k).body.type ∧ x.body.type = (heap₀ p).body.type ∧
      Writes attached heap₀ last k ks rest

/-- The loop from a pending payload on. -/
theorem writes_of_foldlM (hkeeps : KeepsType handle) (last : PayloadType)
    (h : BeforeStep attached heap₀ c nexts)
    (hrun : nexts.foldlM (ChainState.step handle query attached) c = .ok c') :
    ∃ events, (c'.emit last).log = c.log ++ events ∧
      Writes attached heap₀ last c.payload
        (nexts.filter fun i => !dropped query attached heap₀ i) events := by
  induction nexts generalizing c with
  | nil =>
    cases hrun
    refine ⟨_, rfl, _, rfl, rfl, ?_⟩
    rw [← h.current]
  | cons next nexts ih =>
    rw [List.foldlM_cons] at hrun
    cases hstep : c.step handle query attached next with
    | error stop =>
      rw [hstep] at hrun
      cases hrun
    | ok c₂ =>
      rw [hstep] at hrun
      change nexts.foldlM (ChainState.step handle query attached) c₂ = .ok c' at hrun
      cases hdrop : dropped query attached heap₀ next with
      | true =>
        have hatt : attached = true := (Bool.and_eq_true _ _ ▸ hdrop).1
        rw [step_of_dropped h hdrop] at hstep
        cases hstep
        rw [List.filter_cons_of_neg (by simp [hdrop])]
        have hrest := ih (h.of_dropped hatt) hrun
        exact hrest
      | false =>
        obtain ⟨c₁, rfl, hc₁⟩ := step_of_kept hkeeps h hdrop hstep
        obtain ⟨x, hnext, htype, hlog₁, hpayload, hpending⟩ := advance_of_processed h hc₁
        obtain ⟨events, hlog, hwrites⟩ := ih hpending hrun
        refine ⟨handledEvents attached heap₀ c.payload ++ .emitted c.payload x :: events, ?_, ?_⟩
        · rw [hlog, hlog₁]
          simp only [List.append_assoc, List.cons_append, List.nil_append]
        · rw [List.filter_cons_of_pos (by simp [hdrop])]
          rw [hpayload] at hwrites
          exact ⟨x, events, rfl, hnext, htype, hwrites⟩

theorem exists_foldlM (hkeeps : KeepsType handle) (h : BeforeStep attached heap₀ c nexts)
    (hret : ∀ j ∈ c.payload :: nexts, Returns handle (heap₀ j)) :
    ∃ c', nexts.foldlM (ChainState.step handle query attached) c = .ok c' := by
  induction nexts generalizing c with
  | nil => exact ⟨c, rfl⟩
  | cons next nexts ih =>
    have hcurrent : Returns handle (c.heap c.payload) := by
      rw [h.current]
      exact hret _ List.mem_cons_self
    obtain ⟨c₂, hstep⟩ : ∃ c₂, c.step handle query attached next = .ok c₂ := exists_step hcurrent
    rw [List.foldlM_cons, hstep]
    change ∃ c', nexts.foldlM (ChainState.step handle query attached) c₂ = .ok c'
    cases hdrop : dropped query attached heap₀ next with
    | true =>
      have hatt : attached = true := (Bool.and_eq_true _ _ ▸ hdrop).1
      rw [step_of_dropped h hdrop] at hstep
      cases hstep
      refine ih (h.of_dropped hatt) fun j hj => hret j ?_
      rcases List.mem_cons.1 hj with rfl | hj
      · exact List.mem_cons_self
      · exact List.mem_cons_of_mem _ (List.mem_cons_of_mem _ hj)
    | false =>
      obtain ⟨c₁, rfl, hc₁⟩ := step_of_kept hkeeps h hdrop hstep
      obtain ⟨x, -, -, -, hpayload, hpending⟩ := advance_of_processed h hc₁
      rw [← hpayload] at hret
      exact ih hpending fun j hj => hret j (List.mem_cons_of_mem _ hj)

theorem zero_notMem_addresses (payloads : List IkePayload) : 0 ∉ addresses payloads := by
  intro hmem
  have hpos := (List.mem_range'_1.1 hmem).1
  exact absurd hpos (Nat.not_succ_le_zero 0)

theorem BeforeStep.start (attached : Bool) (env : σ) (header : IkePayload) (payloads : List IkePayload) :
    BeforeStep attached (initialHeap header payloads)
      (⟨env, initialHeap header payloads, 0, none, .notSet, []⟩ : ChainState σ) (addresses payloads) :=
  ⟨.inl rfl, nofun, rfl, fun _ _ => rfl, zero_notMem_addresses payloads, List.nodup_range'⟩

theorem initialHeap_mem (header : IkePayload) (payloads : List IkePayload) (i : ℕ) :
    initialHeap header payloads i ∈ header :: payloads := by
  rw [initialHeap, List.getD_eq_getElem?_getD]
  cases hi : (header :: payloads)[i]? with
  | none => exact List.mem_cons_self
  | some p => exact List.mem_of_getElem? hi

theorem exists_generateChain (hkeeps : KeepsType handle) {header : IkePayload}
    {payloads : List IkePayload} (hret : ∀ p ∈ header :: payloads, Returns handle p)
    (query : Option Query) (attached : Bool) (env : σ) (last : PayloadType) :
    ∃ c, generateChain handle query attached env header payloads last = .ok c := by
  obtain ⟨c, hrun⟩ : ∃ c, (addresses payloads).foldlM (ChainState.step handle query attached)
      ⟨env, initialHeap header payloads, 0, none, .notSet, []⟩ = .ok c :=
    exists_foldlM hkeeps (BeforeStep.start attached env header payloads)
      fun j _ => hret _ (initialHeap_mem header payloads j)
  rw [generateChain, hrun]
  exact ⟨_, rfl⟩

/-- The whole loop. -/
theorem writes_of_generateChain (hkeeps : KeepsType handle) {env : σ} {header : IkePayload}
    {payloads : List IkePayload}
    (hrun : generateChain handle query attached env header payloads last = .ok c) :
    Writes attached (initialHeap header payloads) last 0
      (keptAddresses query attached header payloads) c.log := by
  unfold generateChain at hrun
  cases hfold : (addresses payloads).foldlM (ChainState.step handle query attached)
      ⟨env, initialHeap header payloads, 0, none, .notSet, []⟩ with
  | error stop =>
    rw [hfold] at hrun
    cases hrun
  | ok c' =>
    rw [hfold] at hrun
    cases hrun
    obtain ⟨events, hlog, hwrites⟩ :=
      writes_of_foldlM hkeeps last (BeforeStep.start attached env header payloads) hfold
    rw [hlog]
    exact hwrites

/-! ## The functions of `process_query` -/

theorem eq_ok_of_bind_finished {α β : Type} {x : α × Option Stop} {f : α → Except Stop β} {b : β}
    (h : finished x >>= f = .ok b) : f x.1 = .ok b := by
  obtain ⟨a, none | stop⟩ := x
  · exact h
  · cases h

theorem Mutator.keepsType (m : Mutator) : KeepsType m.handle := by
  intro s b r hrun
  cases b with
  | header h => cases eq_ok_of_bind_finished hrun; rfl
  | keyExchange ke => cases eq_ok_of_bind_finished hrun; rfl
  | nonce nonce => cases eq_ok_of_bind_finished hrun; rfl
  | eap data => cases eq_ok_of_bind_finished hrun; rfl
  | idResponder id => cases hrun; rfl
  | plain t => cases hrun; rfl
  | notify n =>
    simp only [Mutator.handle] at hrun
    cases hcheck : checkExceptionalCase m.inst.query n with
    | error stop =>
      rw [hcheck] at hrun
      cases hrun
    | ok b =>
      rw [hcheck] at hrun
      cases hrun
      rfl

/-- A query with one node for the response to IKE_SA_INIT. -/
def initResponseQuery (leaf : QNode) : Query :=
  .node ⟨some Round.init.responseText, .notSet, 0, none⟩ [.node leaf []]

def dropNonce : Query := initResponseQuery ⟨some "nonce".toList, .drop, 0, none⟩

def initMutator (query : Query) : Mutator where
  inst := initInstance.setQuery query
  chunkHash := fun _ => 0
  ref := ⟨[], 0⟩
  fuel := 1

def initState : MutatorState := ⟨0, 0, InitHashTable.create 0⟩

def initHeader : IkePayload := ⟨.header responseHeader, .plain .none⟩

def initPayloads : List IkePayload :=
  [⟨.plain .securityAssociation, .plain .none⟩, ⟨.keyExchange ⟨2, []⟩, .plain .none⟩,
    ⟨.nonce [], .plain .none⟩, ⟨.notify ⟨.natDetectionSourceIp, []⟩, .plain .none⟩]

theorem returns_dropNonce {p : IkePayload} (hp : p ∈ initHeader :: initPayloads) :
    Returns (initMutator dropNonce).handle p := by
  simp only [initPayloads, List.mem_cons, List.not_mem_nil, or_false] at hp
  intro s
  rcases hp with rfl | rfl | rfl | rfl | rfl
  · exact ⟨(s, .header responseHeader), rfl⟩
  · exact ⟨_, rfl⟩
  · exact ⟨(s, .keyExchange ⟨2, []⟩), rfl⟩
  · exact ⟨(s, .nonce []), rfl⟩
  · exact ⟨_, rfl⟩

/-! ## What is written -/

theorem filterMap_handledEvents (i : ℕ) :
    (handledEvents attached heap₀ i).filterMap ChainEvent.emission = [] := by
  unfold handledEvents
  split <;> rfl

theorem Writes.emissions {p : ℕ} {ks : List ℕ} {events : List ChainEvent}
    (h : Writes attached heap₀ last p ks events) :
    (events.filterMap ChainEvent.emission).map Prod.fst = p :: ks ∧
    (events.filterMap ChainEvent.emission).map (fun e => e.2.body.type) =
      (p :: ks).map (fun i => (heap₀ i).body.type) ∧
    (events.filterMap ChainEvent.emission).map (fun e => e.2.nextType) =
      ks.map (fun i => (heap₀ i).body.type) ++ [last] := by
  induction ks generalizing p events with
  | nil =>
    obtain ⟨x, rfl, hnext, htype⟩ := h
    exact ⟨rfl, congrArg (fun y => [y]) htype, congrArg (fun y => [y]) hnext⟩
  | cons k ks ih =>
    obtain ⟨x, rest, rfl, hnext, htype, hrest⟩ := h
    obtain ⟨hfst, htypes, hnexts⟩ := ih hrest
    simp only [List.filterMap_append, filterMap_handledEvents, List.nil_append, List.filterMap_cons,
      ChainEvent.emission, List.map_cons, List.cons_append]
    rw [hfst, htypes, hnexts, hnext, htype]
    exact ⟨rfl, rfl, rfl⟩

theorem nodup_kept (query : Option Query) (attached : Bool) (header : IkePayload)
    (payloads : List IkePayload) : (0 :: keptAddresses query attached header payloads).Nodup := by
  refine List.nodup_cons.2 ⟨fun hmem => ?_, List.Nodup.filter _ List.nodup_range'⟩
  exact zero_notMem_addresses payloads (List.mem_filter.1 hmem).1

/-- The loop writes the header and the payloads that are not dropped, in their order and each once, with
the type of the one that follows in each of them. -/
theorem generateChain_emissions (handle : σ → PayloadBody → Except Stop (σ × PayloadBody))
    (hkeeps : KeepsType handle) (header : IkePayload) (payloads : List IkePayload)
    (hret : ∀ p ∈ header :: payloads, Returns handle p) (query : Option Query) (attached : Bool)
    (env : σ) (isEncrypted : Bool) (encrypted : Option (PayloadType × PayloadType)) :
    ∃ c, generateChain handle query attached env header payloads (lastType isEncrypted encrypted) =
        .ok c ∧
      c.emissions.map Prod.fst = 0 :: keptAddresses query attached header payloads ∧
      (c.emissions.map Prod.fst).Nodup ∧
      c.emissions.map (fun e => e.2.body.type) =
        (0 :: keptAddresses query attached header payloads).map
          (fun i => (initialHeap header payloads i).body.type) ∧
      c.emissions.map (fun e => e.2.nextType) =
        (keptAddresses query attached header payloads).map
          (fun i => (initialHeap header payloads i).body.type) ++ [lastType isEncrypted encrypted] ∧
      (attached = false → keptAddresses query attached header payloads = addresses payloads) := by
  obtain ⟨c, hrun⟩ := exists_generateChain hkeeps hret query attached env
    (lastType isEncrypted encrypted)
  obtain ⟨hfst, htypes, hnexts⟩ := (writes_of_generateChain hkeeps hrun).emissions
  refine ⟨c, hrun, hfst, ?_, htypes, hnexts, ?_⟩
  · rw [ChainState.emissions, hfst]
    exact nodup_kept query attached header payloads
  · rintro rfl
    exact List.filter_eq_self.2 fun i _ => rfl

theorem generateChain_emissions_dropNonce :
    ∃ c, generateChain (initMutator dropNonce).handle (some dropNonce) true initState initHeader
        initPayloads (lastType false none) = .ok c ∧
      c.emissions.map Prod.fst = [0, 1, 2, 4] ∧
      c.emissions.map (fun e => e.2.nextType) =
        [.plain .securityAssociation, .keyExchange, .notify, .plain .none] := by
  obtain ⟨c, hrun, hfst, -, -, hnext, -⟩ := generateChain_emissions _ (Mutator.keepsType _) initHeader
    initPayloads (fun _ => returns_dropNonce) (some dropNonce) true initState false none
  have hkept : keptAddresses (some dropNonce) true initHeader initPayloads = [1, 2, 4] := by
    decide +kernel
  rw [hkept] at hfst hnext
  exact ⟨c, hrun, hfst, hnext⟩

/-! ## What has been handled -/

theorem Writes.address_mem {p : ℕ} {ks : List ℕ} {events : List ChainEvent}
    (h : Writes attached heap₀ last p ks events) {i : ℕ} {x : IkePayload}
    (hx : .emitted i x ∈ events) : i ∈ p :: ks := by
  rw [← h.emissions.1]
  exact List.mem_map.2 ⟨(i, x), List.mem_filterMap.2 ⟨_, hx, rfl⟩, rfl⟩

theorem mem_handledEvents {i : ℕ} {e : ChainEvent} (he : e ∈ handledEvents attached heap₀ i) :
    e = .handled i := by
  unfold handledEvents at he
  split at he
  · exact List.mem_singleton.1 he
  · cases he

/-- The events before another payload do not count for it. -/
theorem count_handled_append {i j : ℕ} (hne : j ≠ i) (x : IkePayload) (before : List ChainEvent) :
    (handledEvents attached heap₀ i ++ .emitted i x :: before).count (.handled j) =
      before.count (.handled j) := by
  have hzero : (handledEvents attached heap₀ i).count (.handled j) = 0 := by
    refine List.count_eq_zero.2 fun hmem => hne ?_
    exact ChainEvent.handled.inj (mem_handledEvents hmem)
  rw [List.count_append, hzero, Nat.zero_add, List.count_cons_of_ne ChainEvent.noConfusion]

/-- Going over a payload that has been handed to its function. -/
theorem everyHandled_append_iff {i : ℕ} {x : IkePayload} {rest : List ChainEvent}
    (htype : x.body.type = (heap₀ i).body.type)
    (hrest : ∀ j y, .emitted j y ∈ rest → j ≠ i) :
    EveryHandled (handledEvents true heap₀ i ++ .emitted i x :: rest) ↔ EveryHandled rest := by
  constructor
  · intro h before j y after heq hhandler
    have hne : j ≠ i := by
      refine hrest j y ?_
      rw [heq]
      exact List.mem_append_right _ List.mem_cons_self
    have hcount : (handledEvents true heap₀ i ++ .emitted i x :: before).count (.handled j) = 1 := by
      refine h _ j y after ?_ hhandler
      rw [heq, List.append_assoc, List.cons_append]
    rw [count_handled_append hne] at hcount
    exact hcount
  · intro h before j y after heq hhandler
    rcases List.append_eq_append_iff.1 heq with ⟨m, hbefore, hm⟩ | ⟨m, hevents, hm⟩
    · cases m with
      | nil =>
        -- the payload itself
        cases hm
        rw [hbefore, List.append_nil, handledEvents, ← htype, hhandler]
        exact List.count_singleton_self
      | cons e m =>
        obtain ⟨rfl, hm'⟩ := List.cons.inj hm
        have hne : j ≠ i := by
          refine hrest j y ?_
          rw [hm']
          exact List.mem_append_right _ List.mem_cons_self
        rw [hbefore, count_handled_append hne]
        exact h m j y after hm' hhandler
    · cases m with
      | nil =>
        cases hm
        rw [List.append_nil] at hevents
        rw [← hevents, handledEvents, ← htype, hhandler]
        exact List.count_singleton_self
      | cons e m =>
        obtain ⟨rfl, -⟩ := List.cons.inj hm
        have hmem : .emitted j y ∈ handledEvents true heap₀ i := by
          rw [hevents]
          exact List.mem_append_right _ List.mem_cons_self
        cases mem_handledEvents hmem

theorem everyHandled_singleton_iff {i : ℕ} {x : IkePayload} :
    EveryHandled [.emitted i x] ↔ x.body.type.hasHandler = false := by
  constructor
  · intro h
    by_contra hhandler
    have hcount := h [] i x [] rfl (eq_true_of_ne_false hhandler)
    cases hcount
  · intro hnone before j y after heq hhandler
    have hmem : .emitted j y ∈ [ChainEvent.emitted i x] := by
      rw [heq]
      exact List.mem_append_right _ List.mem_cons_self
    cases List.mem_singleton.1 hmem
    rw [hnone] at hhandler
    cases hhandler

theorem Writes.everyHandled_iff {p : ℕ} {ks : List ℕ} {events : List ChainEvent}
    (h : Writes true heap₀ last p ks events) (hnodup : (p :: ks).Nodup) :
    EveryHandled events ↔
      (heap₀ ((p :: ks).getLast (List.cons_ne_nil _ _))).body.type.hasHandler = false := by
  induction ks generalizing p events with
  | nil =>
    obtain ⟨x, rfl, -, htype⟩ := h
    rw [everyHandled_singleton_iff, htype]
    rfl
  | cons k ks ih =>
    obtain ⟨x, rest, rfl, -, htype, hrest⟩ := h
    obtain ⟨hp, hnodup⟩ := List.nodup_cons.1 hnodup
    have hne : ∀ j y, .emitted j y ∈ rest → j ≠ p := by
      rintro j y hmem rfl
      exact hp (hrest.address_mem hmem)
    rw [everyHandled_append_iff htype hne, ih hrest hnodup, List.getLast_cons (List.cons_ne_nil _ _)]

/-- The payload that is written last has no next one and is not handed to its function. -/
theorem everyHandled_generateChain_iff
    (handle : σ → PayloadBody → Except Stop (σ × PayloadBody)) (hkeeps : KeepsType handle)
    (query : Option Query) (env : σ) (header : IkePayload) (payloads : List IkePayload)
    (last : PayloadType) (c : ChainState σ)
    (hrun : generateChain handle query true env header payloads last = .ok c) :
    EveryHandled c.log ↔
      (initialHeap header payloads (lastAddress query true header payloads)).body.type.hasHandler =
        false :=
  (writes_of_generateChain hkeeps hrun).everyHandled_iff (nodup_kept query true header payloads)

/-- With a payload at the end that has no function. -/
theorem everyHandled_generateChain_dropNonce :
    ∃ c, generateChain (initMutator dropNonce).handle (some dropNonce) true initState initHeader
        (initPayloads.take 1) (.plain .none) = .ok c ∧ EveryHandled c.log := by
  obtain ⟨c, hrun⟩ : ∃ c, generateChain (initMutator dropNonce).handle (some dropNonce) true initState
      initHeader (initPayloads.take 1) (.plain .none) = .ok c := by
    refine exists_generateChain (Mutator.keepsType _) (fun p hp => returns_dropNonce ?_) ..
    exact List.cons_subset_cons _ (List.take_subset ..) hp
  refine ⟨c, hrun, ?_⟩
  exact (everyHandled_generateChain_iff _ (Mutator.keepsType _) _ _ _ _ _ c hrun).2 (by decide +kernel)

def updateNonce : Query := initResponseQuery ⟨some "nonce".toList, .update, valTypeString, some "max".toList⟩

/-- The update of a nonce at the end of the message is not made. -/
theorem generateChain_not_everyHandled :
    ∃ c, generateChain (initMutator updateNonce).handle (some updateNonce) true initState initHeader
        [⟨.nonce [], .plain .none⟩] (.plain .none) = .ok c ∧
      (1, ⟨.nonce [], .plain .none⟩) ∈ c.emissions ∧ ¬EveryHandled c.log := by
  refine ⟨_, rfl, by decide +kernel, fun h => ?_⟩
  have hcount := h [.handled 0, .emitted 0 ⟨.header responseHeader, .nonce⟩] 1
    ⟨.nonce [], .plain .none⟩ [] rfl rfl
  revert hcount
  decide +kernel

end Epdg

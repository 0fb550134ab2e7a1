import VoWiFi.Epdg.Interleaving
import VoWiFi.Epdg.Proofs.ManagerProofs
import VoWiFi.Epdg.Proofs.TaskManagerProofs

/-!
# Labels that are compared before they are set

The history says which labels are set: that of the last request since an IKE_SA_INIT message, that of
the last response since a response, and neither survives an `init`. So no label is compared before it
is set exactly if the calls go on within a handshake.
-/

namespace Epdg

variable {s s' : Shared}

/-! ## The history says which labels are set -/

/-- The labels that are set are those of the history. -/
structure Tracked (s : Shared) : Prop where
  rprev : s.manager.inst.rprev ≠ none ↔ s.isOpened = true
  sprev : s.manager.inst.sprev ≠ none ↔ s.isAnswered = true

theorem Tracked.congr (h : Tracked s) (hr : s'.manager.inst.rprev = s.manager.inst.rprev)
    (hs : s'.manager.inst.sprev = s.manager.inst.sprev) (hh : s'.history = s.history) : Tracked s' := by
  refine ⟨?_, ?_⟩
  · rw [hr, Shared.isOpened, hh]
    exact h.rprev
  · rw [hs, Shared.isAnswered, hh]
    exact h.sprev

theorem tracked_start : Tracked .start := ⟨by decide, by decide⟩

/-! ## Single steps -/

theorem tracked_listen (h : Tracked s) (e : ListenerEvent) : Tracked (s.listen e) := by
  cases e with
  | init =>
    refine ⟨⟨fun hne => absurd rfl hne, ?_⟩, ⟨fun hne => absurd rfl hne, ?_⟩⟩
    · intro hopen
      cases hopen
    · intro hans
      cases hans
  | fin => exact h.congr rfl rfl rfl
  | publish q => exact h.congr rfl rfl rfl

theorem checkInstance_labels (inst : Instance) (ispi rspi : UInt64) (update : Bool) :
    (inst.checkInstance ispi rspi update).2.rprev = inst.rprev ∧
      (inst.checkInstance ispi rspi update).2.sprev = inst.sprev := by
  unfold Instance.checkInstance
  dsimp only
  split_ifs <;> exact ⟨rfl, rfl⟩

theorem checkoutByMessage_labels (m : Manager) (msg : CheckoutMessage) :
    (m.checkoutByMessage msg).manager.inst.rprev = m.inst.rprev ∧
      (m.checkoutByMessage msg).manager.inst.sprev = m.inst.sprev := by
  rcases checkoutByMessage_cases m msg with heq | ⟨-, -, hashes, heq⟩ | ⟨rspi, hspi, hfound⟩
  · rw [heq]
    exact ⟨rfl, rfl⟩
  · rw [heq]
    exact checkInstance_labels m.inst msg.ispi msg.newSpi true
  · rw [checkoutByMessage_of_found hspi hfound]
    exact checkInstance_labels m.inst msg.ispi rspi true

theorem count_labels (inst : Instance) (h : Header) :
    (inst.count h).rprev = inst.rprev ∧ (inst.count h).sprev = inst.sprev := by
  unfold Instance.count
  split
  · exact ⟨rfl, rfl⟩
  · exact ⟨rfl, rfl⟩

/-- A failure removes the label of the last response. -/
theorem tracked_close (h : Tracked s) (id : SaId) (hstep : s.step (.close id) = .ok s') :
    Tracked s' := by
  unfold Shared.step at hstep
  dsimp only at hstep
  split at hstep
  · cases hstep
    rcases closeResponse_cases s.manager.inst with heq | ⟨e, -, heq⟩
    · rw [heq]
      exact h.congr rfl rfl rfl
    · rw [heq]
      refine ⟨h.rprev, ⟨fun hne => absurd rfl hne, ?_⟩⟩
      intro hans
      cases hans
  · cases hstep
    exact h

theorem tracked_request {i : ℕ} {hd : Header} {b : Body} (h : Tracked s)
    (hstep : s.resume i (.request hd b) = .ok s') : Tracked s' := by
  unfold Shared.resume at hstep
  dsimp only at hstep
  rcases hreport : s.manager.inst.reportRequest hd b with f | ⟨inst, log⟩
  · rw [hreport] at hstep
    cases hstep
  · rw [hreport] at hstep
    cases hstep
    rcases reportRequest_cases hreport with ⟨hre, rfl, -⟩ | ⟨hre, hex, rfl, -⟩ |
      ⟨hre, hex, r, hr, rfl, -⟩ | ⟨hre, hex, rfl, -⟩
    · have hopens : s.opens hd = false := by simp [Shared.opens, hre]
      exact h.congr rfl rfl (by rw [hopens]; rfl)
    · have hopens : s.opens hd = true := by simp [Shared.opens, hre, hex]
      rw [hopens]
      exact ⟨⟨fun _ => rfl, fun _ => Option.some_ne_none _⟩, h.sprev⟩
    · -- the label is replaced by the next one, so it was set and stays so
      have hopens : s.opens hd = false := by simp [Shared.opens, hex]
      have hset : s.isOpened = true := h.rprev.mp (by rw [hr]; exact Option.some_ne_none r)
      rw [hopens]
      exact ⟨⟨fun _ => hset, fun _ => Option.some_ne_none _⟩, h.sprev⟩
    · have hopens : s.opens hd = false := by
        have hne : hd.exchange ≠ .ikeSaInit := by
          intro hinit
          simp [Header.isHandshake, hinit] at hex
        simp [Shared.opens, hne]
      exact h.congr rfl rfl (by rw [hopens]; rfl)

theorem tracked_resume {i : ℕ} {call : Pending} (h : Tracked s) (hstep : s.resume i call = .ok s') :
    Tracked s' := by
  cases call with
  | request hd b => exact tracked_request h hstep
  | waiting exchange =>
    unfold Shared.resume at hstep
    dsimp only at hstep
    split at hstep
    all_goals
      cases hstep
      exact h.congr rfl rfl rfl
  | response exchange q =>
    unfold Shared.resume at hstep
    dsimp only at hstep
    rcases hlabel : responseLabel exchange q s.manager.inst.sprev with f | ⟨symbol, round⟩
    · rw [hlabel] at hstep
      cases hstep
    · rw [hlabel] at hstep
      cases hstep
      refine ⟨h.rprev, ⟨fun _ => rfl, fun _ => ?_⟩⟩
      exact Option.some_ne_none round

theorem tracked_next (h : Tracked s) (e : SharedEvent) : Tracked (s.next e) := by
  unfold Shared.next
  rcases hstep : s.step e with f | s'
  · exact h
  · cases e with
    | listener e =>
      cases hstep
      exact tracked_listen h e
    | checkout msg =>
      cases hstep
      obtain ⟨hr, hs⟩ := checkoutByMessage_labels s.manager msg
      exact h.congr hr hs rfl
    | processMessage id hd b =>
      obtain ⟨hr, hs⟩ := count_labels s.manager.inst hd
      unfold Shared.step at hstep
      dsimp only at hstep
      split at hstep
      · split at hstep
        all_goals
          cases hstep
          exact h.congr hr hs rfl
      · cases hstep
        exact h
    | buildResponse id exchange =>
      unfold Shared.step at hstep
      dsimp only at hstep
      split at hstep
      all_goals
        cases hstep
        exact h.congr rfl rfl rfl
    | proceed i =>
      unfold Shared.step at hstep
      dsimp only at hstep
      split at hstep
      · cases hstep
        exact h
      · exact tracked_resume h hstep
    | close id => exact tracked_close h id hstep
    | other f keeps =>
      cases hstep
      exact h.congr (keeps s.manager).1 (keeps s.manager).2 rfl

/-! ## Comparing a label -/

theorem reportRequest_eq_error {inst : Instance} {hd : Header} {b : Body} :
    inst.reportRequest hd b = .error .nullPointer ↔
      hd.exchange = .ikeAuth ∧ inst.retransmission = 0 ∧ inst.rprev = none := by
  unfold Instance.reportRequest
  by_cases hre : inst.retransmission = 0
  · rw [if_pos hre]
    unfold Instance.label
    cases hex : hd.exchange with
    | ikeAuth =>
      cases hprev : inst.rprev with
      | none => exact iff_of_true rfl ⟨rfl, hre, rfl⟩
      | some r =>
        rw [authRequestLabel_some]
        refine iff_of_false ?_ ?_
        · intro herr
          cases herr
        · rintro ⟨-, -, hnone⟩
          cases hnone
    | _ =>
      refine iff_of_false ?_ ?_
      · intro herr
        cases herr
      · rintro ⟨hauth, -⟩
        cases hauth
  · rw [if_neg hre]
    refine iff_of_false ?_ fun hall => hre hall.2.1
    intro herr
    cases herr

theorem responseLabel_eq_error {exchange : ExchangeType} {q : Query} {sprev : Option Round} :
    responseLabel exchange q sprev = .error .nullPointer ↔
      exchange = .ikeAuth ∧ (authRoundOf q).isSome = true ∧ sprev = none := by
  unfold responseLabel
  cases exchange with
  | ikeSaInit =>
    refine iff_of_false ?_ ?_
    · dsimp only
      split
      · intro herr
        cases herr
      · intro herr
        cases herr
    · rintro ⟨hauth, -⟩
      cases hauth
  | ikeAuth =>
    cases hround : authRoundOf q with
    | none =>
      refine iff_of_false ?_ ?_
      · intro herr
        cases herr
      · rintro ⟨-, hsome, -⟩
        cases hsome
    | some k =>
      cases sprev with
      | none => exact iff_of_true rfl ⟨rfl, rfl, rfl⟩
      | some prev =>
        refine iff_of_false ?_ ?_
        · dsimp only
          split
          · intro herr
            cases herr
          · intro herr
            cases herr
        · rintro ⟨-, -, hnone⟩
          cases hnone
  | _ =>
    refine iff_of_false ?_ ?_
    · intro herr
      cases herr
    · rintro ⟨hauth, -⟩
      cases hauth

theorem bind_pure_eq_error {α β : Type} {x : Except Fault α} {g : α → β} {f : Fault} :
    (x >>= fun a => pure (g a)) = .error f ↔ x = .error f := by
  cases x with
  | error f' =>
    constructor
    · intro herr
      cases herr
      rfl
    · intro herr
      cases herr
      rfl
  | ok a =>
    refine iff_of_false ?_ ?_
    · intro herr
      cases herr
    · intro herr
      cases herr

theorem resume_request_eq_error {i : ℕ} {hd : Header} {b : Body} :
    s.resume i (.request hd b) = .error .nullPointer ↔
      hd.exchange = .ikeAuth ∧ s.manager.inst.retransmission = 0 ∧ s.manager.inst.rprev = none := by
  rw [← reportRequest_eq_error (b := b)]
  exact bind_pure_eq_error

theorem resume_response_eq_error {i : ℕ} {exchange : ExchangeType} {q : Query} :
    s.resume i (.response exchange q) = .error .nullPointer ↔
      exchange = .ikeAuth ∧ (authRoundOf q).isSome = true ∧ s.manager.inst.sprev = none := by
  rw [← responseLabel_eq_error]
  exact bind_pure_eq_error

theorem defined_of_ok {e : SharedEvent} (h : s.step e = .ok s') : Defined s e := by
  intro herr
  rw [h] at herr
  cases herr

/-- As long as the history says which labels are set, it says whether a step compares one that is
not. -/
theorem defined_iff_inHandshake (h : Tracked s) (e : SharedEvent) : Defined s e ↔ InHandshake s e := by
  cases e with
  | listener e => exact iff_of_true (defined_of_ok rfl) trivial
  | checkout msg => exact iff_of_true (defined_of_ok rfl) trivial
  | processMessage _ _ _ | buildResponse _ _ | close _ =>
    refine iff_of_true ?_ trivial
    unfold Defined Shared.step
    dsimp only
    split_ifs <;> nofun
  | other f keeps => exact iff_of_true (defined_of_ok rfl) trivial
  | proceed i =>
    unfold Defined Shared.step InHandshake
    dsimp only
    cases hcall : s.pending[i]? with
    | none => exact iff_of_true (by nofun) trivial
    | some call =>
      cases call with
      | request hd b =>
        dsimp only
        rw [Ne, resume_request_eq_error, ← h.rprev]
        tauto
      | waiting exchange =>
        refine iff_of_true ?_ trivial
        unfold Shared.resume
        dsimp only
        split <;> nofun
      | response exchange q =>
        dsimp only
        rw [Ne, resume_response_eq_error, ← h.sprev]
        tauto

/-! ## Runs -/

/-- In every interleaving, no label is compared that is not set exactly if the calls for IKE_AUTH
messages go on within a handshake. -/
theorem defined_run_iff (events : List SharedEvent) :
    Run.Along Shared.next Defined .start events ↔ Run.Along Shared.next InHandshake .start events :=
  Run.along_iff_of_invariant (I := Tracked) (fun _ e h _ => tracked_next h e) tracked_start
    fun _ e h => defined_iff_inHandshake h e

theorem sampleRspi_ne : (2 : UInt64) ≠ 0 := by decide

/-- The IKE SA of an IKE_SA_INIT request. -/
def sampleSa : SaId := ⟨1, 2, sampleRspi_ne⟩

/-- The IKE_SA_INIT request of the peer as the manager sees it. -/
def sampleInitCheckout : CheckoutMessage :=
  ⟨1, 0, 0, true, .ikeSaInit, true, true, some [1], 2, true, false⟩

/-- The IKE_AUTH request that follows. -/
def sampleAuthCheckout : CheckoutMessage :=
  ⟨1, 2, 1, true, .ikeAuth, true, true, none, 0, true, false⟩

/-- After the IKE_SA_INIT exchange the controller starts the next session. The IKE_AUTH request of the
old SA takes the session over, and is compared with a label that `init` has removed. -/
theorem not_defined_next_session :
    ¬ Run.Along Shared.next Defined .start
      [.listener .init, .checkout sampleInitCheckout,
        .processMessage sampleSa ⟨.ikeSaInit, 0, true⟩ {}, .proceed 0,
        .buildResponse sampleSa .ikeSaInit,
        .listener (.publish (plainQuery "ike_sa_init_response")), .proceed 0, .proceed 0,
        .close sampleSa, .listener .init, .checkout sampleAuthCheckout,
        .processMessage sampleSa ⟨.ikeAuth, 1, true⟩ {}, .proceed 0] := by
  intro h
  obtain ⟨-, -, -, -, -, -, -, -, -, -, -, -, h, -⟩ := h
  exact h rfl

end Epdg

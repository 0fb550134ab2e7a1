import VoWiFi.Epdg.Proofs.NumberingProofs
import VoWiFi.Epdg.ResponseChain

/-!
# Response labels form chains

What a call of `build_response` does to the label of the last response is a sequence of small steps
(`LabelStep`), each with at most one label in the queue. The label of the last response tells how far
the chain has got.
-/

namespace Epdg

/-! ## Steps of the labels -/

/-- A step from one label of the last response to the next, and what it adds to the queue. -/
inductive LabelStep : Option Round → Option Symbol → Option Round → Prop where
  /-- The command `init`. -/
  | reset (p : Option Round) : LabelStep p none none
  | init (p : Option Round) : LabelStep p (some (.response .init)) (some .init)
  | auth {r : Round} {k : Fin 5} (h : r.next = .auth k) :
    LabelStep (some r) (some (.response (.auth k))) (some (.auth k))
  | error (p : Option Round) {e : Symbol} (h : e.isError = true) : LabelStep p (some e) (some .error)
  /-- A failure frees the session. -/
  | failure (p : Option Round) {e : Symbol} (h : e.isError = true) : LabelStep p (some e) none

/-- Several steps. -/
inductive LabelSteps : Option Round → List Symbol → Option Round → Prop where
  | refl (p : Option Round) : LabelSteps p [] p
  | head {p q r : Option Round} {s : Option Symbol} {ls : List Symbol} (h : LabelStep p s q)
    (hs : LabelSteps q ls r) : LabelSteps p (s.toList ++ ls) r

theorem LabelStep.steps {p q : Option Round} {s : Option Symbol} (h : LabelStep p s q) :
    LabelSteps p s.toList q := by
  have hsteps := LabelSteps.head h (.refl q)
  rwa [List.append_nil] at hsteps

theorem LabelSteps.trans {p q r : Option Round} {ls ls' : List Symbol} (h : LabelSteps p ls q)
    (h' : LabelSteps q ls' r) : LabelSteps p (ls ++ ls') r := by
  induction h with
  | refl p => exact h'
  | head hstep _ ih =>
    rw [List.append_assoc]
    exact .head hstep (ih h')

/-! ## The steps of `build_response` -/

theorem responseLabel_step {exchange : ExchangeType} {q : Query} {p : Option Round} {symbol : Symbol}
    {round : Round} (h : responseLabel exchange q p = .ok (symbol, round)) :
    LabelStep p (some symbol) (some round) := by
  unfold responseLabel at h
  cases exchange with
  | ikeSaInit =>
    dsimp only at h
    split at h
    · cases h
      exact .init p
    · cases h
      exact .error p rfl
  | ikeAuth =>
    dsimp only at h
    split at h
    · cases h
      exact .error p rfl
    · cases p with
      | none => cases h
      | some prev =>
        dsimp only at h
        split at h
        · rename_i hnext
          cases h
          exact .auth hnext
        · cases h
          exact .error _ rfl
  | _ =>
    cases h
    exact .error p rfl

/-- Waiting for a query keeps the label of the last response, unless a command `init` removes it. -/
theorem getNextQuery_steps {inst inst' : Instance} {wait : List ListenerEvent} {q : Option Query}
    (h : inst.getNextQuery wait = some (q, inst')) : LabelSteps inst.sprev [] inst'.sprev := by
  have hsprev : inst'.sprev = inst.sprev ∨ inst'.sprev = none := by
    unfold Instance.getNextQuery at h
    split at h
    · refine (waitQuery_invariant (I := fun x => x.sprev = inst.sprev ∨ x.sprev = none) (.inl rfl) ?_ h).1
      intro x e _ hx _
      cases e with
      | init => exact .inr rfl
      | fin => exact hx
      | publish p => exact hx
    · cases h
      exact .inl rfl
  rcases hsprev with hsprev | hsprev
  · rw [hsprev]
    exact .refl _
  · rw [hsprev]
    exact (LabelStep.reset _).steps

theorem closeResponse_steps (inst : Instance) :
    LabelSteps inst.sprev inst.closeResponse.2.toList inst.closeResponse.1.sprev := by
  rcases closeResponse_cases inst with heq | ⟨e, he, heq⟩
  · rw [heq]
    exact .refl _
  · have herror : e.isError = true := by
      simp only [List.mem_cons, List.not_mem_nil, or_false] at he
      rcases he with rfl | rfl | rfl <;> rfl
    rw [heq]
    exact (LabelStep.failure _ herror).steps

theorem finishResponse_steps (tm : TaskManager) (h : Header) (env : Env) :
    LabelSteps tm.inst.sprev ((tm.finishResponse h env).log.filterMap Action.responseLabel?)
      (tm.finishResponse h env).tm.inst.sprev := by
  have hlog : (tm.finishResponse h env).log.filterMap Action.responseLabel? =
      (tm.closeBuilding (tm.building h env)).2.filterMap Action.responseLabel? := by
    unfold TaskManager.finishResponse
    dsimp only
    split
    · rw [List.filterMap_append]
      exact List.append_nil _
    · rfl
  rw [hlog, (agree_finishResponse tm h env).sprev, ← (agree_building tm h env).sprev]
  unfold TaskManager.closeBuilding
  split
  · have hclose := closeResponse_steps (tm.building h env).inst
    rcases hc : (tm.building h env).inst.closeResponse with ⟨inst, symbol⟩
    rw [hc] at hclose
    cases symbol with
    | none => exact hclose
    | some e => exact hclose
  · exact .refl _

theorem buildResponse_steps (tm : TaskManager) (h : Header) (env : Env) :
    LabelSteps tm.inst.sprev ((tm.buildResponse h env).log.filterMap Action.responseLabel?)
      (tm.buildResponse h env).tm.inst.sprev := by
  unfold TaskManager.buildResponse
  split
  · split
    · exact .refl _
    · rename_i inst' hq
      exact (getNextQuery_steps hq).trans (finishResponse_steps { tm with inst := inst' } h env)
    · rename_i q inst' hq
      have hwait := getNextQuery_steps hq
      split
      · exact hwait
      · rename_i symbol round hlabel
        have hstart := hwait.trans (responseLabel_step hlabel).steps
        dsimp only
        split
        · exact hstart
        · exact hstart.trans
            (finishResponse_steps { tm with inst := { inst' with sprev := some round } } h env)
  · exact finishResponse_steps tm h env

/-! ## Chains -/

/-- The labels are a chain up to the label of the last response, if it is one of the handshake. -/
def UpTo (sprev : Option Round) (labels : List Symbol) : Prop :=
  ∀ k : Fin 6, sprev = some (roundAfter k) →
    ∃ earlier, labels = earlier ++ .response .init :: authResponses k

/-- Every IKE_AUTH label continues a chain. -/
def InChain (labels : List Symbol) : Prop :=
  ∀ before (k : Fin 5) after, labels = before ++ .response (.auth k) :: after →
    ∃ earlier, before = earlier ++ .response .init :: authResponses k

theorem authResponses_succ (k : Fin 5) :
    authResponses (k + 1) = authResponses k ++ [.response (.auth k)] := by
  revert k
  decide

theorem eq_roundAfter_of_next {r : Round} {k : Fin 5} (h : r.next = .auth k) : r = roundAfter k := by
  revert h
  cases r with
  | init => revert k; decide
  | auth j => revert j k; decide
  | error => intro h; cases h

theorem roundAfter_injective : Function.Injective fun k : Fin 6 => roundAfter k := by
  decide

theorem roundAfter_ne_error (k : Fin 6) : roundAfter k ≠ .error := by
  decide +revert

theorem inChain_append {labels : List Symbol} {s : Symbol} (h : InChain labels)
    (hs : ∀ k, s = .response (.auth k) →
      ∃ earlier, labels = earlier ++ .response .init :: authResponses k) : InChain (labels ++ [s]) := by
  intro before k after heq
  rcases List.eq_nil_or_concat after with rfl | ⟨after, s', rfl⟩
  · obtain ⟨rfl, hk⟩ := List.append_inj' heq rfl
    exact hs k (List.head_eq_of_cons_eq hk)
  · rw [List.concat_eq_append, ← List.cons_append, ← List.append_assoc] at heq
    exact h before k after (List.append_inj' heq rfl).1

/-- A step continues a chain or starts a new one. -/
theorem inChain_step {p q : Option Round} {s : Option Symbol} {labels : List Symbol}
    (hstep : LabelStep p s q) (hchain : InChain labels) (hup : UpTo p labels) :
    InChain (labels ++ s.toList) ∧ UpTo q (labels ++ s.toList) := by
  cases hstep with
  | reset p =>
    rw [Option.toList_none, List.append_nil]
    exact ⟨hchain, fun k h => by cases h⟩
  | init p =>
    refine ⟨inChain_append hchain (fun k h => by cases h), fun k h => ?_⟩
    have hk : k = 0 := roundAfter_injective (Option.some.inj h).symm
    subst hk
    exact ⟨labels, rfl⟩
  | @auth r k hnext =>
    -- the round before is the one that the chain has got to
    have hr : r = roundAfter k := eq_roundAfter_of_next hnext
    obtain ⟨earlier, hearlier⟩ := hup k.castSucc (congrArg some hr)
    refine ⟨inChain_append hchain fun j hj => ?_, fun j h => ?_⟩
    · cases hj
      exact ⟨earlier, hearlier⟩
    · rw [← next_roundAfter_fin k] at h
      have hj : j = k.succ := roundAfter_injective (Option.some.inj h).symm
      refine ⟨earlier, ?_⟩
      rw [hj, hearlier, Fin.val_succ, authResponses_succ, List.append_assoc]
      rfl
  | error p he =>
    refine ⟨inChain_append hchain fun k h => ?_, fun k h => ?_⟩
    · subst h
      cases he
    · exact absurd (Option.some.inj h).symm (roundAfter_ne_error k)
  | failure p he =>
    refine ⟨inChain_append hchain fun k h => ?_, fun k h => by cases h⟩
    subst h
    cases he

theorem inChain_steps {p q : Option Round} {ls labels : List Symbol}
    (hsteps : LabelSteps p ls q) (hchain : InChain labels) (hup : UpTo p labels) :
    InChain (labels ++ ls) ∧ UpTo q (labels ++ ls) := by
  induction hsteps generalizing labels with
  | refl p =>
    rw [List.append_nil]
    exact ⟨hchain, hup⟩
  | head hstep _ ih =>
    obtain ⟨hchain, hup⟩ := inChain_step hstep hchain hup
    rw [← List.append_assoc]
    exact ih hchain hup

/-- An error label is not in the chain, so the IKE_SA_INIT response that the chain starts with comes
after it. -/
theorem chained_of_inChain {labels : List Symbol} (h : InChain labels) : Chained labels := by
  refine ⟨h, fun before e between k after he heq => ?_⟩
  have hne : e ≠ .response .init := by
    rintro rfl
    cases he
  have hnotMem : e ∉ authResponses k := by
    intro hmem
    obtain ⟨j, -, rfl⟩ := List.mem_map.mp hmem
    cases he
  obtain ⟨earlier, hsplit⟩ := h _ k after heq
  rcases List.append_eq_append_iff.mp hsplit with ⟨rest, -, hrest⟩ | ⟨rest, -, hrest⟩
  · cases rest with
    | nil => exact absurd (List.head_eq_of_cons_eq hrest) hne
    | cons s rest =>
      rw [List.tail_eq_of_cons_eq hrest]
      exact List.mem_append_right rest List.mem_cons_self
  · cases rest with
    | nil => exact absurd (List.head_eq_of_cons_eq hrest).symm hne
    | cons s rest =>
      refine absurd ?_ hnotMem
      rw [List.tail_eq_of_cons_eq hrest]
      exact List.mem_append_right rest List.mem_cons_self

/-! ## Runs -/

theorem next_chain (s : ResponseLog) (e : ResponseEvent) (h : InChain s.labels ∧ UpTo s.inst.sprev s.labels) :
    InChain (s.next e).labels ∧ UpTo (s.next e).inst.sprev (s.next e).labels := by
  cases e with
  | buildResponse tm hd env =>
    exact inChain_steps (buildResponse_steps { tm with inst := s.inst } hd env) h.1 h.2
  | listener e =>
    refine ⟨h.1, ?_⟩
    cases e with
    | init =>
      intro k hk
      cases hk
    | fin => exact h.2
    | publish p => exact h.2
  | other f keeps =>
    refine ⟨h.1, ?_⟩
    change UpTo (f s.inst).sprev s.labels
    rw [keeps]
    exact h.2

/-- In every run from the start, IKE_AUTH responses are labelled round after round. -/
theorem chained_run (events : List ResponseEvent) :
    Chained (Run.after ResponseLog.next ⟨initInstance, []⟩ events).labels := by
  have hstart : InChain [] ∧ UpTo initInstance.sprev [] :=
    ⟨fun before k after h => by simp at h, fun k h => by cases h⟩
  exact chained_of_inChain (Run.always (s := ⟨initInstance, []⟩) next_chain hstart).1

end Epdg

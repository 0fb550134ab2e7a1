import VoWiFi.Control.Campaign
import Mathlib.Tactic.Common

/-!
# The verdicts of the oracles

Both oracles read the same seven rules about a query and its reply. The functional oracle applies them
to the last pair, unless that is a timeout; the liveness oracle applies them to every pair, and takes a
timeout for an answer to the third IKE_AUTH response.
-/

namespace Control

/-- The rules of `isNormalSequence`, the one for `ike_auth_3_response` apart. -/
def QueryReplyPair.keepsOtherRules (pair : QueryReplyPair) : Bool :=
  pair.follows "enable_vowifi" ["ike_sa_init_request"] &&
    pair.follows "ike_sa_init_response" ["ike_auth_1_request"] &&
    pair.follows "ike_auth_1_response" ["ike_auth_2_request"] &&
    pair.follows "ike_auth_2_response" ["ike_auth_3_request"] &&
    pair.follows "401_unauthorized" ["register_2"] &&
    pair.follows "200_ok" ["done"]

/-- A third IKE_AUTH response that is answered by a timeout and violates no other rule. -/
def QueryReplyPair.isThirdTimeout (pair : QueryReplyPair) : Bool :=
  Text.contains pair.query "ike_auth_3_response".toList &&
    Text.contains pair.reply "timeout".toList && pair.keepsOtherRules

theorem isRegular_eq (pair : QueryReplyPair) (third : List String) :
    pair.isRegular third = (pair.keepsOtherRules && pair.follows "ike_auth_3_response" third) := by
  simp only [QueryReplyPair.isRegular, QueryReplyPair.keepsOtherRules]
  ac_rfl

/-- What the liveness oracle asks of a pair. -/
theorem isRegular_timeout_iff (pair : QueryReplyPair) :
    pair.isRegular ["timeout", "register_1"] = true ↔
      pair.isNormalSequence = true ∨ pair.isThirdTimeout = true := by
  rw [QueryReplyPair.isNormalSequence, QueryReplyPair.isThirdTimeout, isRegular_eq, isRegular_eq]
  simp only [QueryReplyPair.follows, List.any_cons, List.any_nil, Bool.or_false, Bool.and_eq_true,
    Bool.or_eq_true, Bool.not_eq_true']
  cases Text.contains pair.query "ike_auth_3_response".toList <;> tauto

/-- The loop of the liveness oracle: an error of the client decides, then a pair that breaks a rule. -/
theorem livenessLoop_eq (ret : ℕ) (pairs : List QueryReplyPair) :
    livenessLoop ret pairs =
      if ∃ pair ∈ pairs, pair.isClientError = true then 2
      else if ∀ pair ∈ pairs, pair.isRegular ["timeout", "register_1"] = true then ret
      else 1 := by
  induction pairs generalizing ret with
  | nil => simp [livenessLoop]
  | cons pair pairs ih =>
    rw [livenessLoop]
    by_cases herror : pair.isClientError = true
    · rw [if_pos herror, if_pos ⟨pair, List.mem_cons_self, herror⟩]
    · have herrors : (∃ p ∈ pair :: pairs, p.isClientError = true) ↔
          ∃ p ∈ pairs, p.isClientError = true := by simp [herror]
      rw [if_neg herror, ih]
      simp only [herrors, List.forall_mem_cons]
      by_cases hregular : pair.isRegular ["timeout", "register_1"] = true
      · simp only [hregular, if_true, true_and]
      · -- the rule is broken here, so that what the rest does no longer matters
        have hbroken : ¬ (pair.isRegular ["timeout", "register_1"] = true ∧
            ∀ p ∈ pairs, p.isRegular ["timeout", "register_1"] = true) := fun h => hregular h.1
        rw [if_neg hregular, if_neg hbroken, ite_self]

theorem getLivenessOracleResult_eq (pairs : Pairs) :
    getLivenessOracleResult pairs =
      if ∃ pair ∈ pairs.1, pair.isClientError = true then 2
      else if ∀ pair ∈ pairs.1, pair.isNormalSequence = true ∨ pair.isThirdTimeout = true then 0
      else 1 := by
  simp only [getLivenessOracleResult, livenessLoop_eq, isRegular_timeout_iff]

/-- The last pair is judged a deviation exactly if it is neither a timeout nor a normal answer. -/
theorem getFunctionalOracleResult_eq_one_iff (pairs : Pairs) :
    getFunctionalOracleResult pairs = 1 ↔
      Text.contains pairs.last.reply "timeout".toList = false ∧
        pairs.last.isNormalSequence = false := by
  rw [getFunctionalOracleResult]
  split_ifs with htimeout hnormal
  · exact iff_of_false nofun fun h => absurd (htimeout.symm.trans h.1) nofun
  · exact iff_of_false nofun fun h => absurd (hnormal.symm.trans h.2) nofun
  · exact iff_of_true rfl ⟨Bool.eq_false_iff.2 htimeout, Bool.eq_false_iff.2 hnormal⟩

/-- A session that the liveness oracle finds alive does not end in a deviation. -/
theorem functional_of_alive {pairs : Pairs} (h : getLivenessOracleResult pairs = 0) :
    getFunctionalOracleResult pairs ≠ 1 := by
  rw [getLivenessOracleResult_eq] at h
  split_ifs at h with herror hall
  intro hone
  obtain ⟨htimeout, hnormal⟩ := (getFunctionalOracleResult_eq_one_iff pairs).1 hone
  have hlast : pairs.last ∈ pairs.1 := List.getLast_mem pairs.2
  rcases hall pairs.last hlast with hseq | hthird
  · rw [hseq] at hnormal
    cases hnormal
  · -- the answer to the third IKE_AUTH response is a timeout, which the functional oracle accepts
    simp only [QueryReplyPair.isThirdTimeout, htimeout, Bool.and_false, Bool.false_and] at hthird
    cases hthird

theorem getFunctionalOracleResult_cases (pairs : Pairs) :
    getFunctionalOracleResult pairs = 0 ∨ getFunctionalOracleResult pairs = 1 ∨
      getFunctionalOracleResult pairs = 2 := by
  rw [getFunctionalOracleResult]
  split_ifs <;> simp

/-- The verdict of the liveness oracle for every list of pairs, and how the two verdicts are related. -/
theorem oracle_verdicts (pairs : Pairs) :
    (getLivenessOracleResult pairs = 2 ↔ ∃ pair ∈ pairs.1, pair.isClientError = true) ∧
    ((¬ ∃ pair ∈ pairs.1, pair.isClientError = true) →
      (getLivenessOracleResult pairs = 0 ↔
        ∀ pair ∈ pairs.1, pair.isNormalSequence = true ∨ pair.isThirdTimeout = true) ∧
      (getLivenessOracleResult pairs ≠ 0 → getLivenessOracleResult pairs = 1)) ∧
    (getLivenessOracleResult pairs = 0 →
      getFunctionalOracleResult pairs = 0 ∨ getFunctionalOracleResult pairs = 2) ∧
    (getFunctionalOracleResult pairs = 1 → getLivenessOracleResult pairs ≠ 0) := by
  refine ⟨?_, ?_, ?_, fun hone halive => functional_of_alive halive hone⟩
  · rw [getLivenessOracleResult_eq]
    split_ifs with herror hall <;> simp [herror]
  · intro herror
    rw [getLivenessOracleResult_eq, if_neg herror]
    split_ifs with hall
    · exact ⟨iff_of_true rfl hall, fun hne => absurd rfl hne⟩
    · exact ⟨iff_of_false nofun hall, fun _ => rfl⟩
  · intro halive
    have hne := functional_of_alive halive
    rcases getFunctionalOracleResult_cases pairs with h | h | h
    · exact .inl h
    · exact absurd h hne
    · exact .inr h

end Control

import VoWiFi.Epdg.Instance
import Mathlib.Tactic.Common

/-!
# Facts about `check_instance`
-/

namespace Epdg

variable {inst : Instance} {ispi rspi : UInt64} {update : Bool}

/-- The call attaches the session: the session is free and the call may attach. -/
def Instance.Attaches (inst : Instance) (update : Bool) : Prop :=
  inst.ispi = 0 ∧ inst.rspi = 0 ∧ update = true

instance (inst : Instance) (update : Bool) : Decidable (inst.Attaches update) :=
  inferInstanceAs (Decidable (_ ∧ _))

/-- The instance after `check_instance`: with the SPIs of the call if that attaches the session, and
with the new `pispi` if its responder's SPI is zero. -/
theorem checkInstance_snd :
    (inst.checkInstance ispi rspi update).2 =
      { inst with
        ispi := if inst.Attaches update then ispi else inst.ispi
        rspi := if inst.Attaches update then rspi else inst.rspi
        imid := if inst.Attaches update then -1 else inst.imid
        pispi := if rspi = 0 then (if inst.Attaches update then ispi else inst.ispi)
          else inst.pispi } := by
  unfold Instance.checkInstance
  by_cases hatt : inst.Attaches update
  · obtain ⟨hi, hr, rfl⟩ := id hatt
    simp only [if_pos (And.intro hi hr), if_pos hatt, if_true]
    by_cases hz : rspi = 0 <;> simp [hz]
  · -- no other branch changes anything but the stored SPI
    have hsame : (if inst.ispi = 0 ∧ inst.rspi = 0 then
        if update then (true, { inst with ispi := ispi, rspi := rspi, imid := -1 })
        else (false, inst)
      else if inst.ispi = ispi ∧ inst.rspi = rspi then (true, inst)
      else if inst.ispi = ispi ∧ (inst.pispi = ispi ∨ inst.pispi = 0) ∧ rspi = 0 then (true, inst)
      else (false, inst)).2 = inst := by
      split
      · rename_i hzero
        rw [if_neg fun hupd => hatt ⟨hzero.1, hzero.2, hupd⟩]
      · split
        · rfl
        · split <;> rfl
    simp only [hsame, if_neg hatt]
    by_cases hz : rspi = 0 <;> simp [hz]

/-- A message of the attached SA belongs to the session, and the check changes nothing. -/
theorem checkInstance_of_attached (hi : inst.ispi = ispi) (hr : inst.rspi = rspi) (h : rspi ≠ 0) :
    inst.checkInstance ispi rspi update = (true, inst) := by
  subst hi hr
  simp [Instance.checkInstance, h]

end Epdg

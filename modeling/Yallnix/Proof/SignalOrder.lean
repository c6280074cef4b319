import Yallnix.ToMathlib.CallOrder
import Yallnix.Proof.WakeMatch

namespace Yallnix

section
variable [Hardware]

namespace View

variable {p next : Addr} {act : Option Call} {v w : View}

/-- Every process that waits for a condition variable is in its queue. -/
def CvarsComplete (v : View) : Prop :=
  ∀ c a, v.WaitsForCvar c a → ∃ cvarQ, v.cvars c = some cvarQ ∧ a ∈ cvarQ

theorem CvarsComplete.step (complete : v.CvarsComplete) (resting : v.Resting p)
    (bounded : v.toObjects.Bounded) (step : v.Step p next act w) : w.CvarsComplete := by
  rintro c a ⟨live, blocked, l, point⟩
  have effect := step.cvarEffect resting bounded
  by_cases same : a = p
  · subst same
    obtain ⟨_, _, members, _, after⟩ := effect.enters live point
    exact ⟨_, after, List.mem_append_right _ (List.mem_singleton_self a)⟩
  · rcases step.family.live live with old | ⟨_, _, forked⟩
    · obtain ⟨_, pos, _⟩ := step.family.other old same
      have before := (step.blocked blocked).resolve_left same
      obtain ⟨members, present, member⟩ := complete c a ⟨old, before, l, pos ▸ point⟩
      exact effect.kept present member blocked
    · rw [point] at forked
      cases forked

end View

end

section
attribute [local instance] smallHardware

end

end Yallnix

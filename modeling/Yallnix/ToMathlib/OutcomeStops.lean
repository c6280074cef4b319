import Yallnix.ToMathlib.Outcome

namespace Yallnix

variable {A B : Type} {stop : Stop}

/-- A run of kernel code does not end at this stop. -/
def Outcome.Avoids (stop : Stop) (outcome : Outcome A) : Prop := outcome ≠ .error stop

namespace Outcome.Avoids

@[simp] theorem ok (a : A) : Avoids stop (.ok a) := fun same => nomatch same

@[simp] theorem error {other : Stop} : Avoids stop (.error other : Outcome A) ↔ other ≠ stop :=
  not_congr ⟨Except.error.inj, congrArg Except.error⟩

/-- A sequence avoids a stop when both parts do. -/
theorem bind {first : Outcome A} {next : A → Outcome B} (one : Avoids stop first)
    (two : ∀ a, first = .ok a → Avoids stop (next a)) : Avoids stop (first >>= next) := by
  cases first with
  | error other =>
      rw [Outcome.error_bind, error]
      exact error.mp one
  | ok a => exact two a rfl

end Outcome.Avoids

end Yallnix

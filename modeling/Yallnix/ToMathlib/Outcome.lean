import Mathlib.Init

namespace Yallnix

/-- A run of kernel code leaves the machine at a halt or at an undefined access. -/
inductive Stop where
  | halt
  | fault
  deriving DecidableEq, Repr

/-- Kernel code gives a result or stops the machine. -/
abbrev Outcome (A : Type) := Except Stop A

/-- A sequence of two codes gives a result when both parts do. -/
theorem Outcome.bind_eq_ok {A B : Type} {first : Outcome A} {next : A → Outcome B} {b : B} :
    (first >>= next) = .ok b ↔ ∃ a, first = .ok a ∧ next a = .ok b := by
  cases first with
  | error stop => simp [bind, Except.bind]
  | ok a => simp [bind, Except.bind]

@[simp] theorem Outcome.ok_bind {A B : Type} (a : A) (next : A → Outcome B) :
    ((.ok a : Outcome A) >>= next) = next a := rfl

@[simp] theorem Outcome.error_bind {A B : Type} (stop : Stop) (next : A → Outcome B) :
    ((.error stop : Outcome A) >>= next) = .error stop := rfl

@[simp] theorem Outcome.pure_eq_ok {A : Type} (a : A) : (pure a : Outcome A) = .ok a := rfl

end Yallnix

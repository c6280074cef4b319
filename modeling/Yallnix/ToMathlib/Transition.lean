import Mathlib.Logic.Relation

namespace Yallnix

/-- A machine starts in some states and answers an input with a next state. -/
structure Machine (S I : Type) where
  start : S → Prop
  step : S → I → S → Prop

namespace Machine

variable {S I : Type}

/-- A guarded run takes each step from a state and an input that meet the guard. -/
inductive Run (machine : Machine S I) (guard : S → I → Prop) : S → Prop where
  | start {s : S} (first : machine.start s) : Run machine guard s
  | step {s t : S} {i : I} (earlier : Run machine guard s) (meets : guard s i)
      (next : machine.step s i t) : Run machine guard t

/-- A reachable state ends a run without a guard. -/
def Reachable (machine : Machine S I) (s : S) : Prop := machine.Run (fun _ _ => True) s

variable {machine : Machine S I}

/-- A weaker guard allows every run of a stronger guard. -/
theorem Run.mono {guard weaker : S → I → Prop} {s : S}
    (weakens : ∀ s i, guard s i → weaker s i) (run : machine.Run guard s) :
    machine.Run weaker s := by
  induction run with
  | start first => exact .start first
  | step _ meets next ih => exact .step ih (weakens _ _ meets) next

theorem Run.reachable {guard : S → I → Prop} {s : S} (run : machine.Run guard s) :
    machine.Reachable s :=
  run.mono fun _ _ _ => trivial

/-- A property of the first states holds in a run if every guarded step keeps it. -/
theorem Run.invariant {guard : S → I → Prop} {inv : S → Prop}
    (first : ∀ s, machine.start s → inv s)
    (keeps : ∀ s i t, inv s → guard s i → machine.step s i t → inv t)
    {s : S} (run : machine.Run guard s) : inv s := by
  induction run with
  | start start => exact first _ start
  | step _ meets next ih => exact keeps _ _ _ ih meets next

/-- A step may use a property that every reachable state has. -/
theorem Run.invariant_of_reachable {guard : S → I → Prop} {known inv : S → Prop}
    (knows : ∀ s, machine.Reachable s → known s)
    (first : ∀ s, machine.start s → inv s)
    (keeps : ∀ s i t, known s → inv s → guard s i → machine.step s i t → inv t)
    {s : S} (run : machine.Run guard s) : inv s := by
  induction run with
  | start start => exact first _ start
  | step earlier meets next ih => exact keeps _ _ _ (knows _ earlier.reachable) ih meets next

/-- A history collects what an observer notes at each step of a guarded run, newest first. -/
inductive History {E : Type} (machine : Machine S I) (guard : S → I → Prop)
    (observe : S → I → S → List E) : List E → S → Prop where
  | start {s : S} (first : machine.start s) : History machine guard observe [] s
  | step {s t : S} {i : I} {notes : List E} (earlier : History machine guard observe notes s)
      (meets : guard s i) (next : machine.step s i t) :
      History machine guard observe (observe s i t ++ notes) t

section
variable {E : Type} {guard : S → I → Prop} {observe : S → I → S → List E} {notes : List E} {s : S}

/-- A history belongs to a run. -/
theorem History.run (history : machine.History guard observe notes s) : machine.Run guard s := by
  induction history with
  | start first => exact .start first
  | step _ meets next ih => exact .step ih meets next

/-- An observer can follow every run. -/
theorem Run.history (observe : S → I → S → List E) (run : machine.Run guard s) :
    ∃ notes, machine.History guard observe notes s := by
  induction run with
  | start first => exact ⟨[], .start first⟩
  | step _ meets next ih =>
      obtain ⟨notes, history⟩ := ih
      exact ⟨_, .step history meets next⟩

/-- A property of states and notes holds in a history if every guarded step keeps it. -/
theorem History.invariant_of_run {known : S → Prop} (inv : List E → S → Prop)
    (knows : ∀ s, machine.Run guard s → known s) (first : ∀ s, machine.start s → inv [] s)
    (keeps : ∀ s i t notes, known s → inv notes s → guard s i → machine.step s i t →
      inv (observe s i t ++ notes) t)
    (history : machine.History guard observe notes s) : inv notes s := by
  induction history with
  | start start => exact first _ start
  | step earlier meets next ih => exact keeps _ _ _ _ (knows _ earlier.run) ih meets next

end

/-- A trace lists the inputs of consecutive steps, oldest first. -/
inductive Trace (machine : Machine S I) (s : S) : List I → S → Prop where
  | nil : Trace machine s [] s
  | snoc {inputs : List I} {i : I} {t u : S} (earlier : Trace machine s inputs t)
      (next : machine.step t i u) : Trace machine s (inputs ++ [i]) u

/-- Finitely many allowed inputs lead from one state to another one. -/
abbrev Leads (machine : Machine S I) (allowed : I → Prop) : S → S → Prop :=
  Relation.ReflTransGen fun s t => ∃ i, allowed i ∧ machine.step s i t

/-- A property of one state holds wherever the allowed inputs lead if each of them keeps it. -/
theorem Leads.invariant {allowed : I → Prop} {inv : S → Prop} {s t : S}
    (leads : machine.Leads allowed s t) (first : inv s)
    (keeps : ∀ s i t, inv s → allowed i → machine.step s i t → inv t) : inv t := by
  induction leads with
  | refl => exact first
  | tail _ next ih =>
      obtain ⟨i, allowed, next⟩ := next
      exact keeps _ i _ ih allowed next

/-- A trace goes on from a reachable state to reachable states. -/
theorem Trace.reachable {s t : S} {inputs : List I} (trace : machine.Trace s inputs t)
    (first : machine.Reachable s) : machine.Reachable t := by
  induction trace with
  | nil => exact first
  | snoc _ next ih => exact .step ih trivial next

/-- A machine has every trace of a machine with fewer steps. -/
theorem Trace.mono {wider : Machine S I} {s t : S} {inputs : List I}
    (widens : ∀ s i t, machine.step s i t → wider.step s i t) (trace : machine.Trace s inputs t) :
    wider.Trace s inputs t := by
  induction trace with
  | nil => exact .nil
  | snoc _ next ih => exact .snoc ih (widens _ _ _ next)

/-- A step before a trace gives a trace. -/
theorem Trace.cons {s t u : S} {i : I} {inputs : List I} (next : machine.step s i t)
    (trace : machine.Trace t inputs u) : machine.Trace s (i :: inputs) u := by
  induction trace with
  | nil => exact .snoc .nil next
  | snoc _ later ih => exact .snoc ih later

/-- A machine refines a specification when each of its steps is a step of the specification with
the same input, and the next states are related again. -/
def Refines {S T I : Type} (machine : Machine S I) (spec : Machine T I) (rel : S → T → Prop) : Prop :=
  ∀ s x i t, rel s x → machine.step s i t → ∃ y, spec.step x i y ∧ rel t y

/-- A specification has every trace of a machine that refines it. -/
theorem Refines.trace {T : Type} {spec : Machine T I} {rel : S → T → Prop}
    (refines : machine.Refines spec rel) {s t : S} {x : T} {inputs : List I} (related : rel s x)
    (trace : machine.Trace s inputs t) : ∃ y, spec.Trace x inputs y ∧ rel t y := by
  induction trace with
  | nil => exact ⟨x, .nil, related⟩
  | snoc _ next ih =>
      obtain ⟨y, earlier, related⟩ := ih
      obtain ⟨z, step, related⟩ := refines _ y _ _ related next
      exact ⟨z, .snoc earlier step, related⟩

/-- A guard leaves out the steps that do not meet it. -/
def guarded (machine : Machine S I) (guard : S → I → Prop) : Machine S I where
  start := machine.start
  step s i t := guard s i ∧ machine.step s i t

/-- A guarded trace goes on from a guarded run. -/
theorem Trace.run {guard : S → I → Prop} {s t : S} {inputs : List I}
    (trace : (machine.guarded guard).Trace s inputs t) (run : machine.Run guard s) :
    machine.Run guard t := by
  induction trace with
  | nil => exact run
  | snoc _ next ih => exact .step ih next.1 next.2

/-- A refinement stays one under guards when the second guard follows from the first. -/
theorem Refines.guarded {T : Type} {spec : Machine T I} {rel : S → T → Prop}
    {guard : S → I → Prop} {weaker : T → I → Prop} (refines : machine.Refines spec rel)
    (follows : ∀ s x i, rel s x → guard s i → weaker x i) :
    (machine.guarded guard).Refines (spec.guarded weaker) rel := by
  intro s x i t related next
  obtain ⟨y, step, after⟩ := refines s x i t related next.2
  exact ⟨y, ⟨follows s x i related next.1, step⟩, after⟩

end Machine

end Yallnix

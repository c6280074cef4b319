import Yallnix.ToMathlib.Transition

namespace Yallnix

namespace Machine

variable {S I A : Type} {machine : Machine S I}

/-- Each step appends to a queue or serves its head, and a tick always serves the head. -/
structure RoundRobin (machine : Machine S I) (queue : S → List A) (served : S → A)
    (ticks : I → Bool) : Prop where
  turns : ∀ s i t, machine.Reachable s → machine.step s i t →
    queue s <+: queue t ∨ queue s <+: served t :: queue t
  tick : ∀ s i t, machine.Reachable s → machine.step s i t → ticks i = true → queue s ≠ [] →
    queue s <+: served t :: queue t

namespace RoundRobin

variable {queue : S → List A} {served : S → A} {ticks : I → Bool} {s t : S} {i : I} {a : A}

/-- A step that serves the head lets a member of the queue advance or serves it. -/
theorem advances {before behind : List A} {next : List A} {b : A}
    (serves : before ++ a :: behind <+: b :: next) :
    before = [] ∧ b = a ∨ ∃ ahead more, before = b :: ahead ∧ next = ahead ++ a :: more := by
  obtain ⟨added, eq⟩ := serves
  cases before with
  | nil =>
      rw [List.nil_append, List.cons_append] at eq
      exact Or.inl ⟨rfl, (List.cons.inj eq).1.symm⟩
  | cons c ahead =>
      rw [List.cons_append, List.cons_append] at eq
      obtain ⟨same, rest⟩ := List.cons.inj eq
      refine Or.inr ⟨ahead, behind ++ added, congrArg (· :: ahead) same, ?_⟩
      rw [← rest, List.append_assoc, List.cons_append]

/-- A member of the queue is served, or it waits behind members of its old front only, and each tick
has served one of these. -/
theorem serves (robin : machine.RoundRobin queue served ticks) {inputs : List I}
    {before behind : List A} (reachable : machine.Reachable s)
    (queued : queue s = before ++ a :: behind) (trace : machine.Trace s inputs t) :
    (∃ first last u, inputs = first ++ last ∧ machine.Trace s first u ∧
      machine.Trace u last t ∧ served u = a) ∨
      ∃ ahead more, ahead <:+ before ∧ queue t = ahead ++ a :: more ∧
        ahead.length + inputs.countP ticks ≤ before.length := by
  induction trace with
  | nil => exact Or.inr ⟨before, behind, List.suffix_rfl, queued, Nat.le_refl _⟩
  | @snoc inputs i t u earlier next ih =>
      rcases ih with ⟨first, last, v, split, one, two, runs⟩ | ⟨ahead, more, suffix, waits, bound⟩
      · refine Or.inl ⟨first, last ++ [i], v, ?_, one, two.snoc next, runs⟩
        rw [split, List.append_assoc]
      have point := earlier.reachable reachable
      have serving : queue t <+: served u :: queue u →
          (∃ first last u', inputs ++ [i] = first ++ last ∧ machine.Trace s first u' ∧
            machine.Trace u' last u ∧ served u' = a) ∨
            ∃ ahead more, ahead <:+ before ∧ queue u = ahead ++ a :: more ∧
              ahead.length + (inputs ++ [i]).countP ticks ≤ before.length := by
        intro serves
        rw [waits] at serves
        rcases advances serves with ⟨rfl, runs⟩ | ⟨rest, more, rfl, queue⟩
        · exact Or.inl ⟨inputs ++ [i], [], u, (List.append_nil _).symm, earlier.snoc next, .nil,
            runs⟩
        · refine Or.inr ⟨rest, more, (List.suffix_cons _ _).trans suffix, queue, ?_⟩
          rw [List.length_cons] at bound
          have one : [i].countP ticks ≤ 1 := List.countP_le_length
          rw [List.countP_append]
          omega
      cases isTick : ticks i with
      | true =>
          refine serving (robin.tick t i u point next isTick fun empty => ?_)
          rw [empty] at waits
          cases ahead with
          | nil => cases waits
          | cons b rest => cases waits
      | false =>
          rcases robin.turns t i u point next with ⟨added, grown⟩ | serves
          · refine Or.inr ⟨ahead, more ++ added, suffix, ?_, ?_⟩
            · rw [← grown, waits, List.append_assoc, List.cons_append]
            · rw [List.countP_append, List.countP_singleton, isTick]
              exact bound
          · exact serving serves

end RoundRobin

end Machine

end Yallnix

import Mathlib.Data.List.Basic
import Mathlib.Logic.Function.Basic

namespace Yallnix

/-- A process calls for service at a queue, or it is served and leaves. -/
inductive ServiceNote (I A : Type) where
  | called (i : I) (a : A)
  | served (i : I) (a : A)

section
variable {I A : Type} [DecidableEq I]

/-- The callers at one queue, the first caller first. The newest note comes first. -/
def callers (i : I) : List (ServiceNote I A) → List A
  | [] => []
  | .called j a :: notes => if j = i then callers i notes ++ [a] else callers i notes
  | .served _ _ :: notes => callers i notes

/-- The processes that one queue has served, the first one first. -/
def served (i : I) : List (ServiceNote I A) → List A
  | [] => []
  | .called _ _ :: notes => served i notes
  | .served j a :: notes => if j = i then served i notes ++ [a] else served i notes

/-- The callers are the served processes and behind them the queue. -/
def ServesInOrder (queue : I → Option (List A)) (notes : List (ServiceNote I A)) : Prop :=
  ∀ i, callers i notes = served i notes ++ (queue i).getD []

variable {queue after : I → Option (List A)} {notes : List (ServiceNote I A)} {i : I} {a : A}
  {members rest : List A}

theorem ServesInOrder.same (order : ServesInOrder queue notes)
    (same : ∀ j, (after j).getD [] = (queue j).getD []) : ServesInOrder after notes := by
  intro j
  rw [same j]
  exact order j

/-- A caller goes behind the queue. -/
theorem ServesInOrder.join (order : ServesInOrder queue notes) (present : queue i = some members)
    (joined : after = Function.update queue i (some (members ++ [a]))) :
    ServesInOrder after (.called i a :: notes) := by
  intro j
  have before := order j
  rw [joined, callers, served]
  by_cases same : i = j
  · subst same
    rw [present] at before
    rw [if_pos rfl, Function.update_self, before]
    exact List.append_assoc _ _ _
  · rw [if_neg same, Function.update_of_ne (Ne.symm same)]
    exact before

/-- The head of the queue is served. -/
theorem ServesInOrder.leave (order : ServesInOrder queue notes)
    (present : queue i = some (a :: rest))
    (left : after = Function.update queue i (some rest)) :
    ServesInOrder after (.served i a :: notes) := by
  intro j
  have before := order j
  rw [left, callers, served]
  by_cases same : i = j
  · subst same
    rw [present] at before
    rw [if_pos rfl, Function.update_self, before, List.append_assoc]
    rfl
  · rw [if_neg same, Function.update_of_ne (Ne.symm same)]
    exact before

/-- A caller that finds an empty queue may be served at once. -/
theorem ServesInOrder.pass (order : ServesInOrder queue notes) (empty : queue i = some [])
    (same : after = queue) : ServesInOrder after (.served i a :: .called i a :: notes) := by
  intro j
  have before := order j
  rw [same, callers, callers, served, served]
  by_cases here : i = j
  · subst here
    rw [empty] at before
    rw [if_pos rfl, if_pos rfl, empty, before]
    exact (List.append_assoc _ _ _).trans (by rw [List.append_assoc]; rfl)
  · rw [if_neg here, if_neg here]
    exact before

end

end Yallnix

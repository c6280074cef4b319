import Yallnix.ToMathlib.WaitQueue

namespace Yallnix

section
variable {I A : Type} [DecidableEq I]

/-- The processes that called for one object, the latest call first. -/
def callsOf (object : I) (calls : List (I × A)) : List A :=
  (calls.filter fun call => call.1 = object).map Prod.snd

theorem callsOf_note (object : I) (p : A) (calls : List (I × A)) :
    callsOf object ((object, p) :: calls) = p :: callsOf object calls := by
  simp [callsOf]

theorem callsOf_other {object other : I} (differs : other ≠ object) (p : A)
    (calls : List (I × A)) : callsOf object ((other, p) :: calls) = callsOf object calls := by
  simp [callsOf, differs]

variable [DecidableEq A]

/-- The last call of one process came before the last call of another one. -/
def CalledBefore (calls : List (I × A)) (object : I) (a b : A) : Prop :=
  (callsOf object calls).idxOf b < (callsOf object calls).idxOf a

/-- A call of one process keeps the order of the others. -/
theorem CalledBefore.note {calls : List (I × A)} {object other : I} {a b p : A}
    (before : CalledBefore calls object a b) (one : a ≠ p) (two : b ≠ p) :
    CalledBefore ((other, p) :: calls) object a b := by
  by_cases same : other = object
  · subst same
    rw [CalledBefore, callsOf_note, List.idxOf_cons_ne _ one.symm, List.idxOf_cons_ne _ two.symm]
    exact Nat.succ_lt_succ before
  · rw [CalledBefore, callsOf_other same]
    exact before

/-- The latest call comes last. -/
theorem calledBefore_note (calls : List (I × A)) (object : I) {a p : A} (differs : a ≠ p) :
    CalledBefore ((object, p) :: calls) object a p := by
  rw [CalledBefore, callsOf_note, List.idxOf_cons_self, List.idxOf_cons_ne _ differs.symm]
  exact Nat.succ_pos _

/-- The members of each queue called for its object, and they stand in the order of their calls. -/
structure InCallOrder (queue : I → Option (List A)) (calls : List (I × A)) : Prop where
  called : ∀ i members, queue i = some members → ∀ a ∈ members, a ∈ callsOf i calls
  order : ∀ i members, queue i = some members → members.Pairwise (CalledBefore calls i)

variable {p : A} {joins : I → Prop} {before after : I → Option (List A)} {calls : List (I × A)}

/-- A step without a new call joins no queue. -/
theorem InCallOrder.quiet (ordered : InCallOrder before calls)
    (steps : QueueSteps p joins before after) (outside : ∀ i, ¬ joins i) :
    InCallOrder after calls where
  called i members present a member := by
    rcases (steps i members present).mem member with ⟨earlier, old, inside⟩ | ⟨_, joined⟩
    · exact ordered.called i earlier old a inside
    · exact absurd joined (outside i)
  order := steps.pairwise ordered.order (fun _ _ _ _ _ _ _ still => still)
    fun i _ _ joined => absurd joined (outside i)

/-- A call of a process that is in no queue keeps the order, and the caller joins as the last. -/
theorem InCallOrder.note (ordered : InCallOrder before calls) {object : I}
    (steps : QueueSteps p joins before after) (only : ∀ i, joins i → i = object)
    (apart : ∀ i members, before i = some members → p ∉ members) :
    InCallOrder after ((object, p) :: calls) where
  called i members present a member := by
    rcases (steps i members present).mem member with ⟨earlier, old, inside⟩ | ⟨rfl, joined⟩
    · by_cases same : object = i
      · subst same
        rw [callsOf_note]
        exact List.mem_cons_of_mem _ (ordered.called _ earlier old a inside)
      · rw [callsOf_other same]
        exact ordered.called i earlier old a inside
    · rw [only i joined, callsOf_note]
      exact List.mem_cons_self
  order := by
    have differs {i : I} {members : List A} (old : before i = some members) {a : A}
        (member : a ∈ members) : a ≠ p := by
      rintro rfl
      exact apart i members old member
    refine steps.pairwise ordered.order ?_ ?_
    · intro i members old a first b second earlier
      exact earlier.note (differs old first) (differs old second)
    · intro i members old joined a member
      rw [only i joined]
      exact calledBefore_note calls object (differs old member)

end

end Yallnix

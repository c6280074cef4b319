import Mathlib.Data.List.Basic
import Mathlib.Data.List.Nodup
import Mathlib.Logic.Function.Basic

namespace Yallnix

/-- Each queue of a family has no member twice, and every member waits for its queue. -/
structure Queued {I A : Type} (queue : I → Option (List A)) (waits : I → A → Prop) : Prop where
  nodup : ∀ i members, queue i = some members → members.Nodup
  waits : ∀ i members, queue i = some members → ∀ a ∈ members, waits i a

/-- One step makes a queue empty, takes members out of it or puts one member behind it. -/
inductive QueueStep {A : Type} (p : A) (joins : Prop) : Option (List A) → List A → Prop where
  | empty {old : Option (List A)} : QueueStep p joins old []
  | shrinks {members fewer : List A} (sublist : fewer.Sublist members) :
      QueueStep p joins (some members) fewer
  | joined {members : List A} (waits : joins) : QueueStep p joins (some members) (members ++ [p])

/-- Every queue after a step comes from the queue before it. -/
def QueueSteps {I A : Type} (p : A) (joins : I → Prop) (before after : I → Option (List A)) :
    Prop :=
  ∀ i members, after i = some members → QueueStep p (joins i) (before i) members

section
variable {I A : Type} {p : A} {joins : I → Prop} {queue before after : I → Option (List A)}
  {waits next : I → A → Prop}

theorem QueueSteps.refl (p : A) (joins : I → Prop) (queue : I → Option (List A)) :
    QueueSteps p joins queue queue := by
  intro i members same
  rw [same]
  exact .shrinks (List.Sublist.refl members)

/-- A step that changes one queue is a step of all of them. -/
theorem QueueSteps.update [DecidableEq I] {object : I} {value : Option (List A)}
    (change : ∀ members, value = some members →
      QueueStep p (joins object) (queue object) members) :
    QueueSteps p joins queue (Function.update queue object value) := by
  intro i members present
  by_cases same : i = object
  · subst same
    rw [Function.update_self] at present
    exact change members present
  · rw [Function.update_of_ne same] at present
    exact QueueSteps.refl p joins queue i members present

/-- A member of a queue after a step was a member before or has just joined. -/
theorem QueueStep.mem {enters : Prop} {old : Option (List A)} {members : List A} {a : A}
    (step : QueueStep p enters old members) (member : a ∈ members) :
    (∃ earlier, old = some earlier ∧ a ∈ earlier) ∨ a = p ∧ enters := by
  cases step with
  | empty => cases member
  | shrinks sublist => exact .inl ⟨_, rfl, sublist.subset member⟩
  | joined waits =>
      rcases List.mem_append.mp member with early | late
      · exact .inl ⟨_, rfl, early⟩
      · exact .inr ⟨List.mem_singleton.mp late, waits⟩

/-- The queues stay right if members that stay still wait and only a new waiter joins. -/
theorem Queued.step (queued : Queued before waits) (steps : QueueSteps p joins before after)
    (stay : ∀ i members later a, before i = some members → after i = some later → a ∈ members →
      a ∈ later → next i a)
    (fresh : ∀ i, joins i → ¬ waits i p) (join : ∀ i, joins i → next i p) :
    Queued after next := by
  constructor
  · intro i later present
    have step := steps i later present
    cases old : before i with
    | none =>
        rw [old] at step
        cases step
        exact List.nodup_nil
    | some members =>
        rw [old] at step
        have distinct := queued.nodup i members old
        cases step with
        | empty => exact List.nodup_nil
        | shrinks sublist => exact sublist.nodup distinct
        | joined enters =>
            refine List.nodup_append.mpr ⟨distinct, List.nodup_singleton p, ?_⟩
            intro a inside b last
            rw [List.mem_singleton.mp last]
            rintro rfl
            exact fresh i enters (queued.waits i members old a inside)
  · intro i later present a inside
    rcases (steps i later present).mem inside with ⟨members, old, member⟩ | ⟨rfl, joined⟩
    · exact stay i members later a old present member inside
    · exact join i joined

/-- The members of each queue stay in order if old members keep it and new ones come last. -/
theorem QueueSteps.pairwise {order later : I → A → A → Prop}
    (steps : QueueSteps p joins before after)
    (ordered : ∀ i members, before i = some members → members.Pairwise (order i))
    (stay : ∀ i members, before i = some members → ∀ a ∈ members, ∀ b ∈ members,
      order i a b → later i a b)
    (join : ∀ i members, before i = some members → joins i → ∀ a ∈ members, later i a p) :
    ∀ i members, after i = some members → members.Pairwise (later i) := by
  intro i members present
  have step := steps i members present
  cases old : before i with
  | none =>
      rw [old] at step
      cases step
      exact .nil
  | some earlier =>
      rw [old] at step
      have kept : earlier.Pairwise (later i) :=
        (ordered i earlier old).imp_of_mem fun one two => stay i earlier old _ one _ two
      cases step with
      | empty => exact .nil
      | shrinks sublist => exact kept.sublist sublist
      | joined enters =>
          refine List.pairwise_append.mpr ⟨kept, List.pairwise_singleton _ _, ?_⟩
          intro a inside b last
          rw [List.mem_singleton.mp last]
          exact join i earlier old enters a inside

end

/-- A process that has left a nonempty queue will test the open gate again. -/
def Woken {A : Type} (gate : Prop) (queue : List A) (waits : A → Prop) : Prop :=
  gate → queue ≠ [] → ∃ a, waits a ∧ a ∉ queue

section
variable {A : Type} {gate later : Prop} {queue : List A} {waits next : A → Prop}

/-- A gate that does not open keeps its woken processes if they go on waiting. -/
theorem Woken.same (woken : Woken gate queue waits) (opens : later → gate)
    (stay : ∀ a, waits a → next a) : Woken later queue next := by
  intro isOpen full
  obtain ⟨a, waiting, absent⟩ := woken (opens isOpen) full
  exact ⟨a, stay a waiting, absent⟩

/-- A gate that opens takes the first process out of its queue. -/
theorem Woken.dequeue (distinct : queue.Nodup) (waiting : ∀ a ∈ queue, next a) :
    Woken later queue.tail next := by
  intro _ full
  cases queue with
  | nil => exact absurd rfl full
  | cons first rest =>
      exact ⟨first, waiting first List.mem_cons_self, (List.nodup_cons.mp distinct).1⟩

end

section
variable {A : Type} {before behind served left : List A} {a : A}

/-- A member behind the served part of a queue keeps those in front of it that are not served. -/
theorem split_behind (parts : before ++ a :: behind = served ++ left) (waits : a ∉ served) :
    ∃ front, before = served ++ front ∧ left = front ++ a :: behind := by
  rcases List.append_eq_append_iff.mp parts with ⟨more, rfl, back⟩ | split
  · cases more with
    | nil => exact ⟨[], by simp, back.symm⟩
    | cons b more =>
        cases back
        exact absurd (List.mem_append_right _ List.mem_cons_self) waits
  · exact split

end

end Yallnix

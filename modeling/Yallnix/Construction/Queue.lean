import Mathlib.Data.List.Basic

namespace Yallnix

/-- A queue is the list of the items in its chain of nodes, with the head first. -/
abbrev Queue (A : Type) := List A

def makeQ {A : Type} : Queue A := []

/-- `enq_q` links one new node behind the tail. -/
def enqQ {A : Type} (queue : Queue A) (item : A) : Queue A := queue ++ [item]

/-- `deq_q` returns NULL when the queue is empty. -/
def deqQ {A : Type} : Queue A → Option A × Queue A
  | [] => (none, [])
  | item :: behind => (some item, behind)

def peekQ {A : Type} (queue : Queue A) : Option A := queue.head?

@[simp] theorem deqQ_nil {A : Type} : deqQ ([] : Queue A) = (none, []) := rfl

@[simp] theorem deqQ_cons {A : Type} (item : A) (behind : Queue A) :
    deqQ (item :: behind) = (some item, behind) := rfl

theorem count_single {A : Type} [DecidableEq A] (item other : A) :
    [item].count other = if other = item then 1 else 0 := by
  rw [List.count_singleton]
  by_cases same : other = item
  · simp [same]
  · simp [same, Ne.symm same]

theorem count_front {A : Type} [DecidableEq A] (queue : Queue A) (item other : A) :
    (item :: queue).count other = queue.count other + if other = item then 1 else 0 := by
  rw [List.count_cons]
  by_cases same : other = item
  · simp [same]
  · simp [same, Ne.symm same]

theorem peekQ_eq_deqQ {A : Type} (queue : Queue A) : peekQ queue = (deqQ queue).1 := by
  cases queue <;> rfl

theorem deqQ_eq_none {A : Type} {queue behind : Queue A} (empty : deqQ queue = (none, behind)) :
    queue = [] := by
  cases queue with
  | nil => rfl
  | cons item rest => simp at empty

theorem deqQ_eq_some {A : Type} {queue behind : Queue A} {item : A}
    (taken : deqQ queue = (some item, behind)) : queue = item :: behind := by
  cases queue with
  | nil => simp at taken
  | cons first rest => simpa using taken

end Yallnix

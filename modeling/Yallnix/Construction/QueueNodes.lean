import Yallnix.ToMathlib.Transition
import Yallnix.ToMathlib.LinkedList
import Yallnix.Construction.SyncKernelCalls

namespace Yallnix

/-- A structure `q_t` in memory, with the nodes that are not freed. A pointer to an item may be
NULL. -/
structure QueueMemory (A : Type) where
  head : Option Nat
  tail : Option Nat
  nodes : Cells (Option A)
  /-- These addresses were given to `free`, the newest one first. -/
  freed : List Nat

/-- A call of the containers returns a code or a pointer to an item. -/
inductive Answer (A : Type) where
  | code (code : Int)
  | item (item : Option A)
  deriving DecidableEq

section
variable {A T : Type}

/-- `make_q` sets both pointers to NULL. -/
def makeQNodes (nodes : Cells (Option A)) : QueueMemory A := ⟨none, none, nodes, []⟩

/-- `free` takes the cell away. -/
def QueueMemory.free (queue : QueueMemory A) (node : Nat) : QueueMemory A :=
  { queue with
    nodes := Function.update queue.nodes node none
    freed := node :: queue.freed }

/-- `enq_q` writes through the tail when the queue has a head. -/
def enqQNodes (malloc : Option Nat) (item : Option A) (queue : QueueMemory A) :
    Outcome (Int × QueueMemory A) :=
  match malloc with
  | none => return (errorCode, queue)
  | some node =>
      let nodes := Function.update queue.nodes node (some ⟨item, none⟩)
      match queue.head with
      | none => return (successCode, { queue with head := some node, tail := some node, nodes := nodes })
      | some _ => do
          let tail ← deref queue.tail
          let last ← deref (nodes tail)
          return (successCode, { queue with
            tail := some node
            nodes := Function.update nodes tail (some { last with next := some node }) })

/-- `deq_q` reads the head before it frees it, and it resets the tail of an empty queue. -/
def deqQNodes (queue : QueueMemory A) : Outcome (Option A × QueueMemory A) :=
  match queue.head with
  | none => return (none, queue)
  | some head => do
      let first ← deref (queue.nodes head)
      let queue := { queue.free head with head := first.next }
      match queue.head with
      | none => return (first.item, { queue with tail := none })
      | some _ => return (first.item, queue)

def peekQNodes (queue : QueueMemory A) : Outcome (Option A) :=
  match queue.head with
  | none => return none
  | some head => do
      let first ← deref (queue.nodes head)
      return first.item

/-- The function that deletes an item may be NULL. -/
def deleteItem (itemdelete : Option (T → Option A → T)) (t : T) (item : Option A) : T :=
  match itemdelete with
  | none => t
  | some delete => delete t item

/-- The loop of `delete_q` dequeues until the head is NULL. Fuel bounds its turns. -/
def deleteQLoop (itemdelete : Option (T → Option A → T)) :
    Nat → QueueMemory A → T → Outcome (QueueMemory A × T)
  | 0, queue, t => if queue.head = none then .ok (queue, t) else .error .halt
  | fuel + 1, queue, t =>
      if queue.head = none then .ok (queue, t)
      else do
        let (item, queue) ← deqQNodes queue
        deleteQLoop itemdelete fuel queue (deleteItem itemdelete t item)

/-- `delete_q` frees the structure last, so only the heap and the frees remain. -/
def deleteQNodes (itemdelete : Option (T → Option A → T)) (fuel : Nat) (queue : QueueMemory A)
    (t : T) : Outcome (Cells (Option A) × List Nat × T) := do
  let (queue, t) ← deleteQLoop itemdelete fuel queue t
  return (queue.nodes, queue.freed, t)

/-- A call of the queue. An insertion names what `malloc` gives. -/
inductive QueueCall (A : Type) where
  | enq (item : Option A) (malloc : Option Nat)
  | deq
  | peek

/-- `malloc` gives a free address or NULL. -/
def QueueCall.allocates (nodes : Cells (Option A)) : QueueCall A → Prop
  | .enq _ (some node) => nodes node = none
  | _ => True

def QueueCall.onNodes (queue : QueueMemory A) : QueueCall A → Outcome (Answer A × QueueMemory A)
  | .enq item malloc => do
      let (code, queue) ← enqQNodes malloc item queue
      return (.code code, queue)
  | .deq => do
      let (item, queue) ← deqQNodes queue
      return (.item item, queue)
  | .peek => do
      let item ← peekQNodes queue
      return (.item item, queue)

/-- The FIFO list answers a call, and a failed insertion keeps it. -/
def QueueCall.onList (queue : Queue (Option A)) : QueueCall A → Answer A × Queue (Option A)
  | .enq _ none => (.code errorCode, queue)
  | .enq item (some _) => (.code successCode, enqQ queue item)
  | .deq => (.item (deqQ queue).1.join, (deqQ queue).2)
  | .peek => (.item (peekQ queue).join, queue)

/-- A queue in memory that `make_q` made in a heap answers its calls. -/
def queueMachine (heap : Cells (Option A)) : Machine (QueueMemory A) (QueueCall A × Answer A) where
  start queue := queue = makeQNodes heap
  step queue label next := label.1.allocates queue.nodes ∧
    label.1.onNodes queue = .ok (label.2, next)

/-- The specification of the queue is a list. -/
def fifoMachine : Machine (Queue (Option A)) (QueueCall A × Answer A) where
  start queue := queue = makeQ
  step queue label next := label.1.onList queue = (label.2, next)

end

end Yallnix

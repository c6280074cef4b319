import Yallnix.Construction.QueueNodes

namespace Yallnix

section
variable {A T : Type} {heap : Cells (Option A)} {queue : QueueMemory A}
  {nodes : List (Nat × Option A)}

/-- The queue owns the nodes of one chain, and the rest of the heap is as it was before. -/
structure QueueMemory.Holds (queue : QueueMemory A) (heap : Cells (Option A))
    (nodes : List (Nat × Option A)) : Prop where
  linked : Linked queue.nodes queue.head nodes
  distinct : (addresses nodes).Nodup
  tail : queue.tail = (addresses nodes).getLast?
  owned : ∀ addr ∈ addresses nodes, heap addr = none
  others : ∀ addr ∉ addresses nodes, queue.nodes addr = heap addr

namespace QueueMemory.Holds

theorem make (heap : Cells (Option A)) : (makeQNodes heap).Holds heap [] where
  linked := rfl
  distinct := List.nodup_nil
  tail := rfl
  owned _ inside := by cases inside
  others _ _ := rfl

/-- An address that `malloc` gives is not in the chain. -/
theorem unused (holds : queue.Holds heap nodes) {node : Nat} (free : queue.nodes node = none) :
    node ∉ addresses nodes :=
  fun inside => holds.linked.present inside free

/-- `enq_q` puts a new last node behind the chain. -/
theorem enq (holds : queue.Holds heap nodes) {node : Nat} (free : queue.nodes node = none)
    (item : Option A) :
    ∃ next, enqQNodes (some node) item queue = .ok (successCode, next) ∧
      next.Holds heap (nodes ++ [(node, item)]) ∧ next.freed = queue.freed := by
  have outside := holds.unused free
  have whole : addresses (nodes ++ [(node, item)]) = addresses nodes ++ [node] :=
    List.map_append
  have distinct : (addresses (nodes ++ [(node, item)])).Nodup := by
    rw [whole]
    exact List.nodup_append_comm.mp (List.nodup_cons.mpr ⟨outside, holds.distinct⟩)
  have tail : some node = (addresses (nodes ++ [(node, item)])).getLast? := by
    rw [whole, List.getLast?_concat]
  have owned : ∀ addr ∈ addresses (nodes ++ [(node, item)]), heap addr = none := by
    intro addr inside
    rw [whole] at inside
    rcases List.mem_append.mp inside with old | new
    · exact holds.owned addr old
    · rw [List.mem_singleton.mp new, ← holds.others node outside]
      exact free
  rcases List.eq_nil_or_concat nodes with rfl | ⟨before, last, rfl⟩
  · have empty : queue.head = none := holds.linked
    have called : enqQNodes (some node) item queue = .ok (successCode, { queue with
        head := some node
        tail := some node
        nodes := Function.update queue.nodes node (some ⟨item, none⟩) }) := by
      simp only [enqQNodes, empty]
      rfl
    refine ⟨_, called, ⟨⟨rfl, none, Function.update_self .., rfl⟩, distinct, tail, owned, ?_⟩, rfl⟩
    intro addr other
    have differs : addr ≠ node := fun same => other (same ▸ List.mem_cons_self)
    exact (Function.update_of_ne differs ..).trans (holds.others addr List.not_mem_nil)
  · rw [List.concat_eq_append] at *
    obtain ⟨found, longer⟩ := holds.linked.append holds.distinct outside item
    have head : queue.head ≠ none := by
      rw [holds.linked.start_eq_head]
      cases before <;> exact Option.some_ne_none _
    obtain ⟨first, head⟩ := Option.ne_none_iff_exists'.mp head
    have last_eq : queue.tail = some last.1 := by
      rw [holds.tail, addresses, List.map_append]
      exact List.getLast?_concat
    have differs : last.1 ≠ node := by
      rintro rfl
      refine outside (List.mem_map_of_mem (List.mem_append_right _ List.mem_cons_self))
    have called : enqQNodes (some node) item queue = .ok (successCode, { queue with
        tail := some node
        nodes := Function.update (Function.update queue.nodes node (some ⟨item, none⟩)) last.1
          (some ⟨last.2, some node⟩) }) := by
      simp only [enqQNodes, head, last_eq, deref, Outcome.ok_bind, Function.update_of_ne differs,
        found]
      rfl
    refine ⟨_, called, ⟨longer, distinct, tail, owned, ?_⟩, rfl⟩
    intro addr other
    rw [whole, List.mem_append, not_or, List.mem_singleton] at other
    have notLast : addr ≠ last.1 := by
      rintro rfl
      exact other.1 (List.mem_map_of_mem (List.mem_append_right _ List.mem_cons_self))
    refine (Function.update_of_ne notLast ..).trans ?_
    exact (Function.update_of_ne other.2 ..).trans (holds.others addr other.1)

/-- `deq_q` frees the first node and keeps the others. -/
theorem deq {node : Nat × Option A} (holds : queue.Holds heap (node :: nodes)) :
    ∃ next, deqQNodes queue = .ok (node.2, next) ∧ next.Holds heap nodes ∧
      next.freed = node.1 :: queue.freed := by
  obtain ⟨next, found, rest⟩ := holds.linked.removeHead holds.distinct
  have head : queue.head = some node.1 := holds.linked.1
  obtain ⟨outside, distinct⟩ := List.nodup_cons.mp holds.distinct
  have owned : ∀ addr ∈ addresses nodes, heap addr = none :=
    fun addr inside => holds.owned addr (List.mem_cons_of_mem _ inside)
  have others : ∀ addr ∉ addresses nodes,
      Function.update queue.nodes node.1 none addr = heap addr := by
    intro addr other
    by_cases same : addr = node.1
    · rw [same, Function.update_self, holds.owned node.1 List.mem_cons_self]
    · rw [Function.update_of_ne same]
      exact holds.others addr fun inside => (List.mem_cons.mp inside).elim same other
  have called : deqQNodes queue = .ok (node.2, { queue.free node.1 with
      head := next
      tail := if next = none then none else queue.tail }) := by
    simp only [deqQNodes, head, deref, Outcome.ok_bind, found]
    cases next <;> rfl
  refine ⟨_, called, ⟨rest, distinct, ?_, owned, others⟩, rfl⟩
  have start := rest.start_eq_head
  have tail := holds.tail
  cases nodes with
  | nil => exact if_pos start
  | cons second later =>
      refine (if_neg ?_).trans (tail.trans (List.getLast?_cons_cons ..))
      rw [start]
      exact Option.some_ne_none _

theorem peek (holds : queue.Holds heap nodes) :
    peekQNodes queue = .ok (peekQ (nodes.map Prod.snd)).join := by
  cases nodes with
  | nil =>
      have empty : queue.head = none := holds.linked
      rw [peekQNodes, empty]
      rfl
  | cons node rest =>
      obtain ⟨head, next, found, -⟩ := holds.linked
      simp only [peekQNodes, head, found, deref, Outcome.ok_bind]
      rfl

theorem head_eq_none (holds : queue.Holds heap nodes) : queue.head = none ↔ nodes = [] := by
  rw [holds.linked.start_eq_head, List.head?_eq_none_iff, addresses, List.map_eq_nil_iff]

theorem tail_eq_none (holds : queue.Holds heap nodes) : queue.tail = none ↔ nodes = [] := by
  rw [holds.tail, List.getLast?_eq_none_iff, addresses, List.map_eq_nil_iff]

/-- The loop of `delete_q` frees the nodes of the chain in order and leaves the rest of the heap. -/
theorem deleteLoop (holds : queue.Holds heap nodes) (itemdelete : Option (T → Option A → T))
    {fuel : Nat} (enough : nodes.length ≤ fuel) (t : T) :
    deleteQLoop itemdelete fuel queue t =
      .ok (⟨none, none, heap, (addresses nodes).reverse ++ queue.freed⟩,
        (nodes.map Prod.snd).foldl (deleteItem itemdelete) t) := by
  induction nodes generalizing queue fuel t with
  | nil =>
      have head := holds.head_eq_none.mpr rfl
      have tail := holds.tail_eq_none.mpr rfl
      have rest : queue.nodes = heap := funext fun addr => holds.others addr List.not_mem_nil
      obtain ⟨_, _, _, freed⟩ := queue
      subst head tail rest
      cases fuel <;> rfl
  | cons node rest ih =>
      obtain ⟨fuel, rfl⟩ := Nat.exists_eq_succ_of_ne_zero (Nat.ne_of_gt (Nat.zero_lt_of_lt enough))
      obtain ⟨next, called, holds', freed⟩ := holds.deq
      have head : queue.head ≠ none := fun empty => by cases holds.head_eq_none.mp empty
      rw [deleteQLoop, if_neg head, called]
      refine (ih holds' (Nat.le_of_succ_le_succ enough) _).trans ?_
      have frees : (addresses (node :: rest)).reverse = (addresses rest).reverse ++ [node.1] :=
        List.reverse_cons
      rw [freed, frees, List.append_assoc]
      rfl

end QueueMemory.Holds

/-- The queue in memory stands for a FIFO list. -/
structure QueueMemory.Stands (queue : QueueMemory A) (heap : Cells (Option A))
    (nodes : List (Nat × Option A)) (list : Queue (Option A)) : Prop where
  /-- The nodes form one finite chain from the head, and the tail is the last one. -/
  linked : Linked queue.nodes queue.head nodes
  distinct : (addresses nodes).Nodup
  items : nodes.map Prod.snd = list
  last : queue.tail = (addresses nodes).getLast?
  empty : queue.head = none ↔ queue.tail = none
  /-- No call reads a freed node or NULL, and each one answers as the list does. -/
  answers : ∀ call : QueueCall A, call.allocates queue.nodes →
    ∃ next, call.onNodes queue = .ok ((call.onList list).1, next)
  failed : ∀ item, enqQNodes none item queue = .ok (errorCode, queue)
  /-- `delete_q` frees each node of the chain once and nothing else. -/
  deletes : ∀ (T : Type) (itemdelete : Option (T → Option A → T)) (fuel : Nat) (t : T),
    list.length ≤ fuel → deleteQNodes itemdelete fuel queue t =
      .ok (heap, (addresses nodes).reverse ++ queue.freed, list.foldl (deleteItem itemdelete) t)

/-- A call on the nodes gives the answer of the call on the list. -/
theorem QueueMemory.Holds.call (holds : queue.Holds heap nodes) {call : QueueCall A}
    (free : call.allocates queue.nodes) :
    ∃ next later, call.onNodes queue = .ok ((call.onList (nodes.map Prod.snd)).1, next) ∧
      next.Holds heap later ∧ later.map Prod.snd = (call.onList (nodes.map Prod.snd)).2 := by
  cases call with
  | enq item malloc =>
      cases malloc with
      | none => exact ⟨queue, nodes, rfl, holds, rfl⟩
      | some node =>
          obtain ⟨next, called, holds, -⟩ := holds.enq free item
          refine ⟨next, _, ?_, holds, List.map_append⟩
          rw [QueueCall.onNodes, called]
          rfl
  | deq =>
      cases nodes with
      | nil =>
          have empty : queue.head = none := holds.linked
          refine ⟨queue, [], ?_, holds, rfl⟩
          rw [QueueCall.onNodes, deqQNodes, empty]
          rfl
      | cons node rest =>
          obtain ⟨next, called, holds, -⟩ := holds.deq
          refine ⟨next, rest, ?_, holds, rfl⟩
          rw [QueueCall.onNodes, called]
          rfl
  | peek =>
      refine ⟨queue, nodes, ?_, holds, rfl⟩
      rw [QueueCall.onNodes, holds.peek]
      rfl

/-- The nodes in memory refine the list. -/
theorem queueMachine_refines (heap : Cells (Option A)) :
    (queueMachine heap).Refines fifoMachine fun queue list =>
      ∃ nodes, queue.Holds heap nodes ∧ nodes.map Prod.snd = list := by
  rintro queue list ⟨call, answer⟩ next ⟨nodes, holds, rfl⟩ ⟨free, called⟩
  obtain ⟨other, later, same, holds, items⟩ := holds.call free
  obtain ⟨answers, rfl⟩ := Prod.mk.inj (Except.ok.inj (called.symm.trans same))
  refine ⟨_, ?_, later, holds, items⟩
  exact Prod.ext answers.symm rfl

/-- A queue from `make_q` answers every sequence of calls as a FIFO list does. -/
theorem queue_isFifo {calls : List (QueueCall A × Answer A)}
    (trace : (queueMachine heap).Trace (makeQNodes heap) calls queue) :
    ∃ list nodes, fifoMachine.Trace makeQ calls list ∧ queue.Stands heap nodes list := by
  obtain ⟨list, listed, nodes, holds, rfl⟩ :=
    (queueMachine_refines heap).trace ⟨[], .make heap, rfl⟩ trace
  refine ⟨_, nodes, listed, holds.linked, holds.distinct, rfl, holds.tail, ?_, ?_,
    fun _ => rfl, ?_⟩
  · rw [holds.head_eq_none, holds.tail_eq_none]
  · intro call free
    obtain ⟨next, _, called, -, -⟩ := holds.call free
    exact ⟨next, called⟩
  · intro T itemdelete fuel t enough
    rw [List.length_map] at enough
    rw [deleteQNodes, holds.deleteLoop itemdelete enough]
    rfl

end

/-- A queue is emptied and refilled at the same address, and one allocation fails. -/
theorem queue_isFifo_refilled : ∃ (calls : List (QueueCall Nat × Answer Nat))
    (queue : QueueMemory Nat),
    calls.map Prod.snd = [.code successCode, .item (some 5), .item none, .code errorCode,
      .code successCode, .item (some 6)] ∧
    queue.freed = [4] ∧ ∃ list nodes, fifoMachine.Trace makeQ calls list ∧
      queue.Stands (fun _ => none) nodes list :=
  ⟨[(.enq (some 5) (some 4), .code successCode), (.deq, .item (some 5)), (.deq, .item none),
    (.enq (some 7) none, .code errorCode), (.enq (some 6) (some 4), .code successCode),
    (.peek, .item (some 6))], _, rfl, rfl,
    queue_isFifo (.cons ⟨rfl, rfl⟩ (.cons ⟨trivial, rfl⟩ (.cons ⟨trivial, rfl⟩
      (.cons ⟨trivial, rfl⟩ (.cons ⟨rfl, rfl⟩ (.cons ⟨trivial, rfl⟩ .nil))))))⟩

end Yallnix

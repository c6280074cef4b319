import Yallnix.Construction.QueueNodes

namespace Yallnix

/-- A hash map in memory has an array of heads and the nodes that are not freed. -/
structure SetMemory (A : Type) where
  size : Nat
  heads : Nat → Option Nat
  nodes : Cells (Int × A)

/-- `HashMap_new` gives every slot an empty set. -/
def hashMapNewNodes {A : Type} (numSlots : Nat) (nodes : Cells (Int × A)) : SetMemory A :=
  ⟨numSlots, fun _ => none, nodes⟩

section
variable [Hardware] {A S : Type}

/-- The loops of `set_find` and `set_insert` compare the keys from the head on. Fuel bounds their
turns. -/
def setFindNodes (key : Int) (nodes : Cells (Int × A)) : Nat → Option Nat → Outcome (Option A)
  | _, none => .ok none
  | 0, some _ => .error .halt
  | fuel + 1, some node => do
      let curr ← deref (nodes node)
      if curr.item.1 = key then return some curr.item.2
      else setFindNodes key nodes fuel curr.next

/-- `HashMap_find` picks the chain of the key. -/
def hashMapFindNodes (fuel : Nat) (memory : SetMemory A) (key : Int) : Outcome (Option A) :=
  let index := key.tmod memory.size
  if index < 0 then .error .fault
  else setFindNodes key memory.nodes fuel (memory.heads index.toNat)

/-- `set_insert` refuses a present key and links the new node at the head. -/
def setInsertNodes (fuel : Nat) (malloc : Option Nat) (key : Int) (item : A) (head : Option Nat)
    (nodes : Cells (Int × A)) : Outcome (Int × Option Nat × Cells (Int × A)) := do
  match ← setFindNodes key nodes fuel head with
  | some _ => return (errorCode, head, nodes)
  | none =>
      match malloc with
      | none => return (errorCode, head, nodes)
      | some node =>
          return (successCode, some node, Function.update nodes node (some ⟨(key, item), head⟩))

/-- `HashMap_insert` refuses the item NULL before it picks the chain of the key. -/
def hashMapInsertNodes (fuel : Nat) (malloc : Option Nat) (memory : SetMemory A) (key : Int)
    (item : Option A) : Outcome (Int × SetMemory A) :=
  match item with
  | none => return (errorCode, memory)
  | some item => do
      let index := key.tmod memory.size
      if index < 0 then .error .fault
      else
        let (code, head, nodes) ←
          setInsertNodes fuel malloc key item (memory.heads index.toNat) memory.nodes
        return (code, { memory with
          heads := Function.update memory.heads index.toNat head
          nodes := nodes })

/-- The loop of `set_remove` tests the node behind the current one. Fuel bounds its turns. -/
def setRemoveLoop (key : Int) :
    Nat → Nat → Option Nat → Cells (Int × A) → Outcome (Option (A × Cells (Int × A)))
  | _, _, none, _ => .ok none
  | 0, _, some _, _ => .error .halt
  | fuel + 1, currNode, some nextNode, nodes => do
      let next ← deref (nodes nextNode)
      if next.item.1 = key then
        let nodes := Function.update nodes nextNode none
        let curr ← deref (nodes currNode)
        let nodes := Function.update nodes currNode (some { curr with next := next.next })
        return some (next.item.2, nodes)
      else setRemoveLoop key fuel nextNode next.next nodes

/-- `set_remove` tests the head first and frees the node that it unlinks. -/
def setRemoveNodes (fuel : Nat) (key : Int) (head : Option Nat) (nodes : Cells (Int × A)) :
    Outcome (Option (A × Option Nat × Cells (Int × A))) :=
  match head with
  | none => .ok none
  | some currNode => do
      let curr ← deref (nodes currNode)
      if curr.item.1 = key then
        return some (curr.item.2, curr.next, Function.update nodes currNode none)
      else
        match ← setRemoveLoop key fuel currNode curr.next nodes with
        | none => return none
        | some (item, nodes) => return some (item, head, nodes)

/-- `HashMap_remove` picks the chain of the key. -/
def hashMapRemoveNodes (fuel : Nat) (memory : SetMemory A) (key : Int) :
    Outcome (Option (A × SetMemory A)) :=
  let index := key.tmod memory.size
  if index < 0 then .error .fault
  else do
    match ← setRemoveNodes fuel key (memory.heads index.toNat) memory.nodes with
    | none => return none
    | some (item, head, nodes) =>
        return some (item, { memory with
          heads := Function.update memory.heads index.toNat head
          nodes := nodes })

/-- A call of the hash map. An insertion names the node that `malloc` gives. -/
inductive MapCall (A : Type) where
  | insert (key : Int) (item : A) (node : Nat)
  | find (key : Int)
  | remove (key : Int)

def MapCall.key : MapCall A → Int
  | .insert key _ _ | .find key | .remove key => key

/-- `malloc` gives a free address. -/
def MapCall.allocates (nodes : Cells (Int × A)) : MapCall A → Prop
  | .insert _ _ node => nodes node = none
  | _ => True

def MapCall.onNodes (fuel : Nat) (memory : SetMemory A) :
    MapCall A → Outcome (Answer A × SetMemory A)
  | .insert key item node => do
      let (code, memory) ← hashMapInsertNodes fuel (some node) memory key (some item)
      return (.code code, memory)
  | .find key => do
      let item ← hashMapFindNodes fuel memory key
      return (.item item, memory)
  | .remove key => do
      match ← hashMapRemoveNodes fuel memory key with
      | none => return (.item none, memory)
      | some (item, memory) => return (.item (some item), memory)

/-- A finite partial map answers a call. -/
def MapCall.onMap (map : Int → Option A) : MapCall A → Answer A × (Int → Option A)
  | .insert key item _ =>
      if map key = none then (.code successCode, Function.update map key (some item))
      else (.code errorCode, map)
  | .find key => (.item (map key), map)
  | .remove key => (.item (map key), Function.update map key none)

/-- A hash map in memory answers calls for keys that are not negative. -/
def hashMapMachine (numSlots : Nat) (heap : Cells (Int × A)) :
    Machine (SetMemory A) (MapCall A × Answer A) where
  start memory := memory = hashMapNewNodes numSlots heap
  step memory label next := 0 ≤ label.1.key ∧ label.1.allocates memory.nodes ∧
    ∃ fuel, label.1.onNodes fuel memory = .ok (label.2, next)

/-- The specification of the hash map is a finite partial map. -/
def mapMachine : Machine (Int → Option A) (MapCall A × Answer A) where
  start map := ∀ key, map key = none
  step map label next := label.1.onMap map = (label.2, next)

/-- `set_iterate` keeps the next node before the call, which may free the current one. -/
def setIterateNodes (memory : S → SetMemory A) (itemfunc : S → Int → A → Outcome S) :
    Nat → Option Nat → S → Outcome S
  | _, none, s => .ok s
  | 0, some _, _ => .error .halt
  | fuel + 1, some node, s => do
      let curr ← deref ((memory s).nodes node)
      let next := curr.next
      let s ← itemfunc s curr.item.1 curr.item.2
      setIterateNodes memory itemfunc fuel next s

/-- `HashMap_iterate` takes the chains in order. -/
def hashMapIterateNodes (memory : S → SetMemory A) (itemfunc : S → Int → A → Outcome S)
    (fuel : Nat) : List Nat → S → Outcome S
  | [], s => .ok s
  | slot :: slots, s => do
      let s ← setIterateNodes memory itemfunc fuel ((memory s).heads slot) s
      hashMapIterateNodes memory itemfunc fuel slots s

/-- The nodes in memory stand for the `sleepingMap` of the scheduler during a tick. -/
structure TickState where
  errorCount : Int
  scheduler : Scheduler
  sleepers : SetMemory Addr

/-- `tickDownSleeper` removes its node from the chain that is iterated. -/
def tickDownSleeperNodes (fuel : Nat) (state : TickState) (_key : Int) (sleeper : Addr) :
    Outcome TickState := do
  let s := state.scheduler.updatePcb sleeper fun pcb =>
    { pcb with numRemainingDelayTicks := pcb.numRemainingDelayTicks - 1 }
  if (s.pcbs sleeper).numRemainingDelayTicks ≤ 0 then
    match ← hashMapRemoveNodes fuel state.sleepers (s.pcbs sleeper).pid with
    | none => return { state with errorCount := state.errorCount + 1, scheduler := s }
    | some (_, sleepers) =>
        return { state with
          scheduler := { s with readyQ := enqQ s.readyQ sleeper }
          sleepers := sleepers }
  else return { state with scheduler := s }

end

end Yallnix

import Mathlib.Data.Nat.Pairing
import Yallnix.Construction.SetNodes
import Yallnix.Proof.SchedulerRefinement

namespace Yallnix

theorem setRemove_append {A : Type} {before tail : Chain A} (node : Int × A)
    (absent : ∀ other ∈ before, other.1 ≠ node.1) :
    setRemove (before ++ node :: tail) node.1 = some (node.2, before ++ tail) := by
  induction before with
  | nil => simp [setRemove]
  | cons first before ih =>
      have differs := absent first List.mem_cons_self
      have rest := ih fun other member => absent other (List.mem_cons_of_mem _ member)
      simp [setRemove, differs, rest]

/-- A removal replaces one chain of the map. -/
theorem HashMap.remove_sets {A : Type} {hm : HashMap A} {key : Int} {item : A} {i : Nat}
    {bound : i < hm.sets.length} {set : Chain A} (inside : hm.bucket key = .ok ⟨i, bound⟩)
    (taken : setRemove hm.sets[i] key = some (item, set)) :
    ∃ result, hashMapRemove hm key = .ok (some (item, result)) ∧
      result.sets = hm.sets.set i set := by
  unfold hashMapRemove
  split
  · rename_i failed
    rw [inside] at failed
    cases failed
  · rename_i other found
    obtain rfl := Except.ok.inj (found.symm.trans inside)
    split
    · rename_i absent
      cases taken.symm.trans absent
    · rename_i same
      obtain ⟨rfl, rfl⟩ := Prod.mk.inj (Option.some.inj (same.symm.trans taken))
      exact ⟨_, rfl, rfl⟩

section
variable {A : Type}

/-- The loop of `set_remove` unlinks the node with the key behind the current one. -/
theorem setRemoveLoop_removes {nodes : Cells (Int × A)} {curr node : Nat × Int × A}
    {mid tail : List (Nat × Int × A)} {next : Option Nat} {fuel : Nat}
    (here : nodes curr.1 = some ⟨curr.2, next⟩) (behind : Linked nodes next (mid ++ node :: tail))
    (distinct : (addresses (curr :: mid ++ node :: tail)).Nodup)
    (absent : ∀ other ∈ mid, other.2.1 ≠ node.2.1) (enough : mid.length < fuel) :
    ∃ after, setRemoveLoop node.2.1 fuel curr.1 next nodes = .ok (some (node.2.2, after)) ∧
      Linked after (some curr.1) (curr :: mid ++ tail) ∧
      ∀ addr ∉ addresses (curr :: mid ++ node :: tail), after addr = nodes addr := by
  induction mid generalizing curr next fuel with
  | nil =>
      obtain ⟨fuel, rfl⟩ := Nat.exists_eq_succ_of_ne_zero (Nat.ne_of_gt enough)
      have whole : Linked nodes (some curr.1) (curr :: node :: tail) := ⟨rfl, next, here, behind⟩
      obtain ⟨rest, -, found, linked⟩ := whole.removeNext distinct
      obtain ⟨rfl, -⟩ := behind
      have differs : curr.1 ≠ node.1 := fun same =>
        (List.nodup_cons.mp distinct).1 (same ▸ List.mem_cons_self)
      refine ⟨_, ?_, linked, fun addr outside => ?_⟩
      · simp only [setRemoveLoop, found, deref, Outcome.ok_bind, if_pos,
          Function.update_of_ne differs, here]
        rfl
      · have notCurr : addr ≠ curr.1 := fun same => outside (same ▸ List.mem_cons_self)
        have notNode : addr ≠ node.1 := fun same =>
          outside (same ▸ List.mem_cons_of_mem _ List.mem_cons_self)
        rw [Function.update_of_ne notCurr, Function.update_of_ne notNode]
  | cons first mid ih =>
      obtain ⟨fuel, rfl⟩ := Nat.exists_eq_succ_of_ne_zero (Nat.ne_of_gt (Nat.zero_lt_of_lt enough))
      obtain ⟨rfl, rest, found, behind⟩ := behind
      obtain ⟨currOut, inner⟩ := List.nodup_cons.mp distinct
      obtain ⟨after, looped, linked, frame⟩ := ih found behind inner
        (fun other member => absent other (List.mem_cons_of_mem _ member))
        (Nat.lt_of_succ_lt_succ enough)
      refine ⟨after, ?_, ⟨rfl, some first.1, (frame _ currOut).trans here, linked⟩,
        fun addr outside => frame addr fun inside => outside (List.mem_cons_of_mem _ inside)⟩
      simp only [setRemoveLoop, found, deref, Outcome.ok_bind,
        if_neg (absent first List.mem_cons_self)]
      exact looped

theorem setRemoveNodes_removes {nodes : Cells (Int × A)} {head : Option Nat}
    {before tail : List (Nat × Int × A)} {node : Nat × Int × A} {fuel : Nat}
    (linked : Linked nodes head (before ++ node :: tail))
    (distinct : (addresses (before ++ node :: tail)).Nodup)
    (absent : ∀ other ∈ before, other.2.1 ≠ node.2.1) (enough : before.length ≤ fuel) :
    ∃ start after, setRemoveNodes fuel node.2.1 head nodes = .ok (some (node.2.2, start, after)) ∧
      Linked after start (before ++ tail) ∧
      ∀ addr ∉ addresses (before ++ node :: tail), after addr = nodes addr := by
  cases before with
  | nil =>
      obtain ⟨next, found, rest⟩ := linked.removeHead distinct
      obtain ⟨rfl, -⟩ := linked
      refine ⟨next, _, ?_, rest, fun addr outside => ?_⟩
      · simp only [setRemoveNodes, found, deref, Outcome.ok_bind, if_pos]
        rfl
      · have differs : addr ≠ node.1 := fun same => outside (same ▸ List.mem_cons_self)
        exact Function.update_of_ne differs _ _
  | cons first mid =>
      obtain ⟨rfl, next, found, behind⟩ := linked
      obtain ⟨after, looped, rest, frame⟩ := setRemoveLoop_removes found behind distinct
        (fun other member => absent other (List.mem_cons_of_mem _ member)) enough
      refine ⟨some first.1, after, ?_, rest, frame⟩
      simp only [setRemoveNodes, found, deref, Outcome.ok_bind,
        if_neg (absent first List.mem_cons_self), looped]
      rfl

/-- The nodes in memory form these chains with the entries of the map. -/
structure SetMemory.Holds (memory : SetMemory A) (chains : Nat → List (Nat × Int × A))
    (hm : HashMap A) : Prop where
  size : memory.size = hm.sets.length
  sets : ∀ i < memory.size, hm.sets[i]? = some ((chains i).map Prod.snd)
  linked : ∀ i < memory.size, Linked memory.nodes (memory.heads i) (chains i)
  distinct : ∀ i < memory.size, (addresses (chains i)).Nodup
  apart : ∀ i < memory.size, ∀ j < memory.size, i ≠ j →
    ∀ addr ∈ addresses (chains i), addr ∉ addresses (chains j)

/-- A change of one chain keeps the other ones. -/
theorem SetMemory.Holds.replace {memory : SetMemory A} {chains : Nat → List (Nat × Int × A)}
    {hm result : HashMap A} (holds : memory.Holds chains hm) {i : Nat} (inside : i < memory.size)
    {start : Option Nat} {nodes : Cells (Int × A)} {chain : List (Nat × Int × A)}
    (linked : Linked nodes start chain) (distinct : (addresses chain).Nodup)
    (frame : ∀ j < memory.size, j ≠ i → ∀ addr ∈ addresses (chains j),
      nodes addr = memory.nodes addr)
    (apart : ∀ j < memory.size, j ≠ i → ∀ addr ∈ addresses (chains j), addr ∉ addresses chain)
    (sets : result.sets = hm.sets.set i (chain.map Prod.snd)) :
    SetMemory.Holds { memory with heads := Function.update memory.heads i start, nodes := nodes }
      (Function.update chains i chain) result where
  size := by
    rw [sets, List.length_set]
    exact holds.size
  sets j below := by
    rw [sets]
    by_cases same : j = i
    · rw [same, Function.update_self, List.getElem?_set_self (holds.size ▸ inside)]
    · rw [Function.update_of_ne same, List.getElem?_set_ne (Ne.symm same)]
      exact holds.sets j below
  linked j below := by
    by_cases same : j = i
    · subst same
      simp only [Function.update_self]
      exact linked
    · simp only [Function.update_of_ne same]
      exact (holds.linked j below).congr (frame j below same)
  distinct j below := by
    by_cases same : j = i
    · rwa [same, Function.update_self]
    · rw [Function.update_of_ne same]
      exact holds.distinct j below
  apart j belowJ k belowK differs addr listed := by
    by_cases first : j = i
    · subst first
      rw [Function.update_self] at listed
      rw [Function.update_of_ne (Ne.symm differs)]
      exact fun again => apart k belowK (Ne.symm differs) addr again listed
    · rw [Function.update_of_ne first] at listed
      by_cases second : k = i
      · subst second
        rw [Function.update_self]
        exact apart j belowJ first addr listed
      · rw [Function.update_of_ne second]
        exact holds.apart j belowJ k belowK differs addr listed

/-- The chain of a slot lists the entries of its set. -/
theorem SetMemory.Holds.set_eq {memory : SetMemory A} {chains : Nat → List (Nat × Int × A)}
    {hm : HashMap A} (holds : memory.Holds chains hm) {i : Nat} (inside : i < memory.size)
    (bound : i < hm.sets.length) : hm.sets[i] = (chains i).map Prod.snd := by
  have found := holds.sets i inside
  rwa [List.getElem?_eq_getElem bound, Option.some.injEq] at found

/-- The sets of the map are the chains in the order of the slots. -/
theorem SetMemory.Holds.sets_eq {memory : SetMemory A} {chains : Nat → List (Nat × Int × A)}
    {hm : HashMap A} (holds : memory.Holds chains hm) :
    hm.sets = (List.range memory.size).map fun i => (chains i).map Prod.snd := by
  refine List.ext_getElem? fun i => ?_
  by_cases below : i < memory.size
  · rw [holds.sets i below, List.getElem?_map, List.getElem?_range below]
    rfl
  · rw [List.getElem?_eq_none (by rw [← holds.size]; omega),
      List.getElem?_eq_none (by rw [List.length_map, List.length_range]; omega)]

/-- `HashMap_remove` takes the same entry from the memory and from the map. -/
theorem SetMemory.Holds.remove {memory : SetMemory A} {chains : Nat → List (Nat × Int × A)}
    {hm : HashMap A} (holds : memory.Holds chains hm) {i fuel : Nat} (inside : i < memory.size)
    {before tail : List (Nat × Int × A)} {node : Nat × Int × A}
    (split : chains i = before ++ node :: tail) (enough : (chains i).length ≤ fuel) :
    ∃ after result,
      hashMapRemoveNodes fuel memory node.2.1 = .ok (some (node.2.2, after)) ∧
      hashMapRemove hm node.2.1 = .ok (some (node.2.2, result)) ∧ after.size = memory.size ∧
      after.Holds (Function.update chains i (before ++ tail)) result := by
  have bound : i < hm.sets.length := holds.size ▸ inside
  have set : hm.sets[i] = (before ++ node :: tail).map Prod.snd := split ▸ holds.set_eq inside bound
  have place : node.2.1.tmod hm.sets.length = i := by
    refine hm.placed i bound node.2 ?_
    rw [set]
    exact List.mem_map_of_mem (List.mem_append_right _ List.mem_cons_self)
  have keys := hm.distinct _ (List.getElem_mem bound)
  rw [set] at keys
  have absent : ∀ other ∈ before, other.2.1 ≠ node.2.1 := by
    intro other member same
    rw [List.map_append, List.map_append, List.nodup_append] at keys
    exact keys.2.2 _ (List.mem_map_of_mem (List.mem_map_of_mem member)) _ List.mem_cons_self same
  have short : before.length ≤ fuel := by
    rw [split, List.length_append] at enough
    omega
  obtain ⟨start, nodes, removed, linked, frame⟩ := setRemoveNodes_removes
    (split ▸ holds.linked i inside) (split ▸ holds.distinct i inside) absent short
  rw [← split] at frame
  have bucket : hm.bucket node.2.1 = .ok ⟨i, bound⟩ := by
    obtain ⟨index, found⟩ := hm.bucket_of_fits (show hm.Fits node.2.1 by
      change 0 ≤ node.2.1.tmod hm.sets.length
      omega)
    have same := (HashMap.bucket_eq_ok found).2
    have equal : index = ⟨i, bound⟩ := Fin.ext (by exact_mod_cast same.symm.trans place)
    rw [found, equal]
  have taken : setRemove hm.sets[i] node.2.1 =
      some (node.2.2, (before ++ tail).map Prod.snd) := by
    rw [set, List.map_append, List.map_cons, List.map_append]
    refine setRemove_append node.2 fun other member => ?_
    obtain ⟨found, listed, rfl⟩ := List.mem_map.mp member
    exact absent found listed
  obtain ⟨result, outcome, sets⟩ := HashMap.remove_sets bucket taken
  have fewer : addresses (before ++ tail) ⊆ addresses (chains i) := by
    rw [split]
    intro addr listed
    simp only [addresses, List.map_append, List.map_cons, List.mem_append, List.mem_cons] at listed ⊢
    exact listed.imp_right .inr
  refine ⟨{ memory with heads := Function.update memory.heads i start, nodes := nodes }, result, ?_,
    outcome, rfl, holds.replace inside linked ?_ ?_ ?_ sets⟩
  · rw [← holds.size] at place
    simp only [hashMapRemoveNodes, place, Int.toNat_natCast, removed, Outcome.ok_bind]
    rw [if_neg (by omega)]
    rfl
  · refine (holds.distinct i inside).sublist ?_
    rw [split]
    exact List.Sublist.map _ (List.Sublist.append_left (List.sublist_cons_self _ _) _)
  · intro j below differs addr listed
    exact frame addr (holds.apart j below i inside differs addr listed)
  · intro j below differs addr listed again
    exact holds.apart j below i inside differs addr listed (fewer again)

end

section
variable [Hardware]

/-- A sleeper has one tick less. -/
def PCB.tickDown (pcb : PCB) : PCB :=
  { pcb with numRemainingDelayTicks := pcb.numRemainingDelayTicks - 1 }

def Scheduler.tickDown (s : Scheduler) (sleeper : Addr) : Scheduler :=
  s.updatePcb sleeper PCB.tickDown

theorem Scheduler.tickDown_pcbs (s : Scheduler) (sleeper a : Addr) :
    (s.tickDown sleeper).pcbs a = if a = sleeper then (s.pcbs a).tickDown else s.pcbs a := by
  by_cases same : a = sleeper
  · rw [if_pos same, same]
    exact Function.update_self ..
  · rw [if_neg same]
    exact Function.update_of_ne same ..

theorem Scheduler.tickDown_pid (s : Scheduler) (sleeper a : Addr) :
    ((s.tickDown sleeper).pcbs a).pid = (s.pcbs a).pid := by
  rw [Scheduler.tickDown_pcbs]
  split <;> rfl

/-- The next tick is the last one of this sleeper. -/
def PCB.expires (pcb : PCB) : Bool := pcb.numRemainingDelayTicks ≤ 1

theorem Scheduler.tickDown_expires (s : Scheduler) (sleeper : Addr) :
    ((s.tickDown sleeper).pcbs sleeper).numRemainingDelayTicks ≤ 0 ↔
      (s.pcbs sleeper).expires = true := by
  rw [Scheduler.tickDown_pcbs, if_pos rfl, PCB.expires, decide_eq_true_eq]
  change (s.pcbs sleeper).numRemainingDelayTicks - 1 ≤ 0 ↔ _
  omega

section
variable {s : Scheduler} {count : Int} {sleeper : Addr} (key : Int)

theorem tickDownSleeper_sleeps (sleeps : (s.pcbs sleeper).expires = false) :
    tickDownSleeper (.ok (count, s)) key sleeper = .ok (count, s.tickDown sleeper) := by
  have later : ¬((s.tickDown sleeper).pcbs sleeper).numRemainingDelayTicks ≤ 0 := by
    rw [Scheduler.tickDown_expires, sleeps]
    exact Bool.false_ne_true
  exact if_neg later

theorem tickDownSleeper_wakes (expires : (s.pcbs sleeper).expires = true) {item : Addr}
    {sleepingMap : HashMap Addr}
    (removed : hashMapRemove s.sleepingMap (s.pcbs sleeper).pid = .ok (some (item, sleepingMap))) :
    tickDownSleeper (.ok (count, s)) key sleeper = .ok (count, { s.tickDown sleeper with
      sleepingMap := sleepingMap
      readyQ := enqQ s.readyQ sleeper }) := by
  have now := (Scheduler.tickDown_expires s sleeper).mpr expires
  refine (if_pos now).trans ?_
  change (hashMapRemove s.sleepingMap ((s.tickDown sleeper).pcbs sleeper).pid >>= _) = _
  rw [Scheduler.tickDown_pid, removed]
  rfl

variable {state : TickState} {fuel : Nat}

theorem tickDownSleeperNodes_sleeps (sleeps : (state.scheduler.pcbs sleeper).expires = false) :
    tickDownSleeperNodes fuel state key sleeper =
      .ok { state with scheduler := state.scheduler.tickDown sleeper } := by
  have later : ¬((state.scheduler.tickDown sleeper).pcbs sleeper).numRemainingDelayTicks ≤ 0 := by
    rw [Scheduler.tickDown_expires, sleeps]
    exact Bool.false_ne_true
  exact if_neg later

theorem tickDownSleeperNodes_wakes (expires : (state.scheduler.pcbs sleeper).expires = true)
    {item : Addr} {sleepers : SetMemory Addr}
    (removed : hashMapRemoveNodes fuel state.sleepers (state.scheduler.pcbs sleeper).pid =
      .ok (some (item, sleepers))) :
    tickDownSleeperNodes fuel state key sleeper = .ok { state with
      scheduler := { state.scheduler.tickDown sleeper with
        readyQ := enqQ state.scheduler.readyQ sleeper }
      sleepers := sleepers } := by
  have now := (Scheduler.tickDown_expires state.scheduler sleeper).mpr expires
  refine (if_pos now).trans ?_
  change (hashMapRemoveNodes fuel state.sleepers
    ((state.scheduler.tickDown sleeper).pcbs sleeper).pid >>= _) = _
  rw [Scheduler.tickDown_pid, removed]
  rfl

end

/-- The tick over the nodes in memory and the tick over the map have the same state. -/
structure TickState.Simulates (state : TickState) (chains : Nat → List (Nat × Int × Addr))
    (count : Int) (s : Scheduler) : Prop where
  errorCount : state.errorCount = count
  scheduler : state.scheduler = { s with sleepingMap := state.scheduler.sleepingMap }
  holds : state.sleepers.Holds chains s.sleepingMap

/-- A visit may free the visited node and leaves the nodes behind it. -/
theorem TickState.Simulates.visit {state : TickState} {chains : Nat → List (Nat × Int × Addr)}
    {count : Int} {s : Scheduler} (simulates : state.Simulates chains count s) {i fuel : Nat}
    (inside : i < state.sleepers.size) {before tail : List (Nat × Int × Addr)}
    {node : Nat × Int × Addr} (split : chains i = before ++ node :: tail)
    (named : (s.pcbs node.2.2).pid = node.2.1) (enough : (chains i).length ≤ fuel) :
    ∃ after left t, tickDownSleeperNodes fuel state node.2.1 node.2.2 = .ok after ∧
      tickDownSleeper (.ok (count, s)) node.2.1 node.2.2 = .ok (count, t) ∧
      left.length ≤ before.length + 1 ∧ after.sleepers.size = state.sleepers.size ∧
      after.Simulates (Function.update chains i (left ++ tail)) count t ∧
      ∀ a, (t.pcbs a).pid = (s.pcbs a).pid := by
  have pcbs : state.scheduler.pcbs = s.pcbs := by
    rw [simulates.scheduler]
  have readyQ : state.scheduler.readyQ = s.readyQ := by
    rw [simulates.scheduler]
  have memory : state.scheduler.tickDown node.2.2 =
      { s.tickDown node.2.2 with sleepingMap := state.scheduler.sleepingMap } :=
    congrArg (fun scheduler => scheduler.tickDown node.2.2) simulates.scheduler
  cases expires : (s.pcbs node.2.2).expires with
  | true =>
      obtain ⟨after, result, removed, outcome, size, holds⟩ :=
        simulates.holds.remove inside split enough
      refine ⟨_, before, _, tickDownSleeperNodes_wakes _ (by rw [pcbs, expires])
        (by rw [pcbs, named]; exact removed), tickDownSleeper_wakes _ expires
        (by rw [named]; exact outcome), Nat.le_succ _, size, ⟨simulates.errorCount, ?_, holds⟩,
        s.tickDown_pid node.2.2⟩
      rw [memory, readyQ]
  | false =>
      refine ⟨_, before ++ [node], _, tickDownSleeperNodes_sleeps _ (by rw [pcbs, expires]),
        tickDownSleeper_sleeps _ expires, by simp, rfl, ⟨simulates.errorCount, memory, ?_⟩,
        s.tickDown_pid node.2.2⟩
      have same : Function.update chains i ((before ++ [node]) ++ tail) = chains := by
        rw [List.append_assoc, List.singleton_append, ← split, Function.update_eq_self]
      rw [same]
      exact simulates.holds

end

end Yallnix

import Yallnix.Proof.SiteBoot
import Yallnix.Proof.SiteExit
import Yallnix.Proof.SiteFork

namespace Yallnix

section
variable [Hardware]

namespace KernelMemory

variable {m n k l : KernelMemory} {memory : ProcessMemory} {p : Addr}

/-- Each live process owns its frames, and its heap is mapped when it may move its break. -/
structure Owned (m : KernelMemory) : Prop where
  sole : Sole ↑m.live m.liveSlots m
  heap : ∀ p ∈ m.live, p ≠ m.idlePCB → HeapMapped p m

/-- Owned frames are not shared. -/
theorem Owned.unshared (owned : Owned m) : m.Unshared := unshared_iff.mpr owned.sole.exclusive

/-- Spared processes keep their heap. -/
theorem Owned.heap_of_spares {own written : Set Addr} (owned : Owned m)
    (spares : Spares own written m n) {p : Addr} (alive : p ∈ m.live) (active : p ≠ n.idlePCB)
    (other : p ∉ own) (away : (m.pcbs p).r1PageTable ∉ written) : HeapMapped p n := by
  rw [spares.idlePCB] at active
  exact (owned.heap p alive active).of_spares spares other away (owned.sole.kernel p alive)

theorem liveSlots_congr (live : n.live = m.live) : n.liveSlots = m.liveSlots := by
  rw [liveSlots, live, liveSlots]

/-- Code that keeps all sites keeps all owners. -/
theorem Owned.leaves (owned : Owned m) (leaves : LeavesSites m n) : Owned n where
  sole := by
    rw [leaves.live, liveSlots_congr leaves.live]
    exact owned.sole.of_leaves leaves
  heap p alive active := by
    rw [leaves.live] at alive
    exact owned.heap_of_spares leaves.toSpares alive active (Set.notMem_empty _)
      (Set.notMem_empty _)

/-- The kernel works for one live process. -/
theorem Owned.worksFor (owned : Owned m) (member : p ∈ m.live)
    (works : WorksFor p ↑m.live m.liveSlots m n) : Owned n where
  sole := by
    rw [works.live, liveSlots_congr works.live]
    exact works.sole
  heap q alive active := by
    rw [works.live] at alive
    by_cases same : q = p
    · rw [same]
      exact works.heap
    · exact owned.heap_of_spares works.toSpares alive active same
        fun equal => same (owned.sole.apart q alive p member equal)

/-- The set of live processes is no site. -/
theorem Sole.setLive {procs : Set Addr} {slots : Set (Addr × Fin kernelStackPages)}
    (sole : Sole procs slots m) (live : Finset Addr) : Sole procs slots { m with live := live } :=
  ⟨sole.exclusive, sole.order, sole.kernel, sole.apart⟩

/-- A child owns the frames that it got. -/
theorem Owned.joins (owned : Owned m) (unclaimed : Unclaimed memory ↑m.live m.liveSlots m)
    (joins : Joins memory (insert memory.pcb ↑m.live)
      (m.liveSlots ∪ {slot | slot.1 = memory.pcb}) m l) (heap : HeapMapped memory.pcb l) :
    Owned { l with live := insert memory.pcb l.live } where
  sole := by
    refine (joins.sole.mono ?_ fun slot inside => ?_).setLive _
    · rw [joins.live, Finset.coe_insert]
    · rcases Finset.mem_insert.mp inside with child | alive
      · exact Or.inr child
      · rw [joins.live] at alive
        exact Or.inl alive
  heap q alive active := by
    have heap : HeapMapped q l := by
      rcases Finset.mem_insert.mp alive with rfl | alive
      · exact heap
      · rw [joins.live] at alive
        exact owned.heap_of_spares joins.toSpares alive active
          (fun same => unclaimed.pcb (same ▸ alive)) (unclaimed.apart q alive)
    exact ⟨heap.limit, heap.mapped⟩

/-- A process that ends leaves the frames of the others alone. -/
theorem Owned.departs (owned : Owned m) (member : p ∈ m.live)
    (departs : Departs p ↑m.live m.liveSlots m l) :
    Owned { l with live := l.live.erase p } where
  sole := by
    refine (departs.sole.mono ?_ fun slot inside => ?_).setLive _
    · rw [departs.live, Finset.coe_erase]
    · obtain ⟨other, alive⟩ := Finset.mem_erase.mp inside
      rw [departs.live] at alive
      exact ⟨alive, other⟩
  heap q alive active := by
    obtain ⟨other, alive⟩ := Finset.mem_erase.mp alive
    rw [departs.live] at alive
    have heap : HeapMapped q l := owned.heap_of_spares departs.toSpares alive active
      (Set.notMem_empty _) fun equal => other (owned.sole.apart q alive p member equal)
    exact ⟨heap.limit, heap.mapped⟩

/-- An executable has its text at the first page of region 1 and its data after the text. -/
def ContiguousFile (request : ImageRequest) : Prop :=
  ∀ li, request.file = some li → li.Contiguous

/-- An exit erases the running process. -/
theorem Owned.kernelExit {freedTable : PageTable} {nextPCB : Addr} (owned : Owned m)
    (quiet : m.Quiet) (member : m.currPCB ∈ m.live)
    (done : m.kernelExit freedTable nextPCB = .ok n) : Owned n := by
  unfold KernelMemory.kernelExit at done
  split at done
  · cases done
  · obtain ⟨l, departs, ends⟩ := owned.sole.exitProcess quiet member (fun _ => member) done
    exact (owned.departs member departs).leaves ends

/-- Each input keeps all owners while a free frame is always found. -/
theorem Owned.perform {act : MemoryAct} (owned : Owned m) (alive : m.currPCB ∈ m.live)
    (quiet : m.Quiet) (contiguous : ∀ request, act = .exec request → ContiguousFile request)
    (enabled : m.enabled ⟨act, m.fills, m.library⟩) (done : m.perform act = .ok n)
    (fed : n.frameList.starved = false) : Owned n := by
  have member : m.currPCB ∈ (↑m.live : Set Addr) := alive
  have entered : Owned { m with mode := .kernel } := owned.leaves (.mode m .kernel)
  cases act with
  | fork memory currKctxt =>
      obtain ⟨-, active, unused, free⟩ := enabled
      have unclaimed : Unclaimed memory ↑m.live m.liveSlots { m with mode := .kernel } :=
        ⟨unused, fun slot inside same => unused (same ▸ inside), free.1,
          fun q alive => (free.2.2 q alive).symm⟩
      rcases entered.sole.kernelFork quiet member (entered.heap _ member active) unclaimed done fed
        with leaves | ⟨l, joins, heap, leaves⟩
      · exact entered.leaves leaves
      · exact (entered.joins unclaimed joins heap).leaves leaves
  | exec request =>
      obtain ⟨-, active⟩ := enabled
      exact entered.worksFor member (entered.sole.kernelExec quiet member
        (entered.heap _ member active) (contiguous request rfl) done fed)
  | brk addr =>
      obtain ⟨-, active⟩ := enabled
      obtain ⟨⟨code, k⟩, moved, done⟩ := Outcome.bind_eq_ok.mp done
      cases done
      exact entered.worksFor member
        (entered.sole.kernelBrk member (entered.heap _ member active) moved fed)
  | memoryTrap addr =>
      obtain ⟨-, active⟩ := enabled
      exact entered.worksFor member
        (entered.sole.handleTrapMemory member (entered.heap _ member active) done fed)
  | exit =>
      cases done
      exact owned.leaves (.mode m _)
  | userStore vpn page =>
      have ticked : LeavesSites m { m with toMmu := m.toMmu.tick } := by
        obtain ⟨_, _, eq⟩ := m.toMmu.tick_eq
        refine .mmu _ ?_ ?_
        all_goals rw [eq]
      exact owned.leaves (ticked.trans (.writePage done))
  | ttyReceive page => exact entered.leaves (.writePage done)
  | allocate => exact entered.leaves (.free quiet done)
  | switch currKctxt nextPCB =>
      obtain ⟨⟨_, l⟩, switched, done⟩ := Outcome.bind_eq_ok.mp done
      cases done
      exact entered.leaves (.switchBetween quiet switched)
  | kernelExit freedTable nextPCB =>
      obtain ⟨l, exited, done⟩ := Outcome.bind_eq_ok.mp done
      cases done
      exact (owned.kernelExit quiet member exited).leaves (.mode l _)
  | returnToUser =>
      cases done
      exact owned.leaves (.mode m _)

/-- The booted memory owns its frames when they are not shared. -/
theorem Booted.owned {boot : MemoryBoot} (booted : Booted boot m) (running : Running m)
    (unshared : m.Unshared) (heap : HeapMapped boot.initPcbp m) : Owned m where
  sole := by
    refine ⟨unshared_iff.mp unshared, booted.order, running.tables, fun p first q second same => ?_⟩
    have other : boot.initR1PageTable ≠ boot.idle.r1PageTable := by
      intro same
      simpa [same] using boot.distinctTables
    rw [Finset.mem_coe, booted.live, Finset.mem_insert, Finset.mem_singleton] at first second
    rcases first with rfl | rfl
    · rcases second with rfl | rfl
      · rfl
      · rw [booted.initTable, booted.idleTable] at same
        exact absurd same other
    · rcases second with rfl | rfl
      · rw [booted.initTable, booted.idleTable] at same
        exact absurd same.symm other
      · rfl
  heap p alive active := by
    rw [booted.live, Finset.mem_insert, Finset.mem_singleton] at alive
    rw [booted.idlePCB] at active
    rw [alive.resolve_right active]
    exact heap

/-- An input moves no kernel break, and each call of `getFrame` finds a free frame. -/
structure FindsFrames (m : KernelMemory) (i : MemoryInput) : Prop where
  still : ∀ answer ∈ i.library, answer.breaks = []
  contiguous : ∀ request, i.act = .exec request → ContiguousFile request
  fed : ∀ n, m.handle i = .ok n → n.frameList.starved = false

end KernelMemory

open KernelMemory

namespace KernelMemory

variable {m : KernelMemory}

end KernelMemory

end

section
attribute [local instance] smallHardware

open KernelMemory

end

end Yallnix

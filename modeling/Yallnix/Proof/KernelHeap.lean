import Yallnix.Construction.SmallMemory
import Yallnix.Proof.BootMemory
import Yallnix.Proof.HeapMove
import Yallnix.Proof.MemoryFrame

namespace Yallnix

section
variable [Hardware]

/-- The read buffers of the terminals lie in the page below the temporary page. -/
def ttyBufferVpn : Nat := r0StackBase - 2

namespace KernelMemory

/-- The heap, and every entry that a successful `SetKernelBrk` wrote, lie below the reserved pages. -/
structure HeapClear (m : KernelMemory) : Prop where
  brk : m.currKernelBrk ≤ ttyBufferVpn * pageSize
  written : ∀ ptep ∈ m.breakWritten, ptep.index < (ttyBufferVpn : Int)

/-- `SetKernelBrk` refuses this address, or the address lies below the reserved pages. -/
def BreakFits (m : KernelMemory) (addr : Nat) : Prop :=
  addr ≤ ttyBufferVpn * pageSize ∨ kernelStackBase ≤ addr ∨ addr < m.kernelDataEnd

instance (m : KernelMemory) (addr : Nat) : Decidable (m.BreakFits addr) := by
  unfold BreakFits
  infer_instance

/-- All addresses that the C library passes to `SetKernelBrk` fit. -/
def BreaksFit (m : KernelMemory) (library : List LibraryAnswer) : Prop :=
  ∀ answer ∈ library, ∀ addr ∈ answer.breaks, m.BreakFits addr

instance (m : KernelMemory) (library : List LibraryAnswer) : Decidable (m.BreaksFit library) := by
  unfold BreaksFit
  infer_instance

variable {m n k : KernelMemory}

/-- The heap stays clear while all later addresses fit. -/
structure Clear (m : KernelMemory) : Prop extends HeapClear m where
  enabled : m.regVmEnable = true
  fits : m.BreaksFit m.library

/-- Kernel code keeps the end of the kernel data, and keeps a clear heap clear. -/
structure KeepsClear (m n : KernelMemory) : Prop where
  kernelDataEnd : n.kernelDataEnd = m.kernelDataEnd
  clear : Clear m → Clear n

theorem BreakFits.of_keepsClear {addr : Nat} (fit : m.BreakFits addr) (keeps : KeepsClear m n) :
    n.BreakFits addr := by
  unfold BreakFits
  rw [keeps.kernelDataEnd]
  exact fit

namespace KeepsClear

theorem trans (first : KeepsClear m k) (second : KeepsClear k n) : KeepsClear m n where
  kernelDataEnd := second.kernelDataEnd.trans first.kernelDataEnd
  clear clear := second.clear (first.clear clear)

/-- A change of the memory management unit leaves the break and its record. -/
theorem mmu (next : Mmu) (enable : next.regVmEnable = m.regVmEnable) :
    KeepsClear m { m with toMmu := next } where
  kernelDataEnd := rfl
  clear clear := ⟨⟨clear.brk, clear.written⟩, enable.trans clear.enabled, clear.fits⟩

theorem of_sameSpaces (same : SameSpaces m n) : KeepsClear m n where
  kernelDataEnd := same.kernelDataEnd
  clear clear := by
    refine ⟨⟨?_, ?_⟩, ?_, ?_⟩
    · rw [same.currKernelBrk]
      exact clear.brk
    · rw [same.breakWritten]
      exact clear.written
    · rw [same.mmu]
      exact clear.enabled
    · unfold BreaksFit BreakFits
      rw [same.library, same.kernelDataEnd]
      exact clear.fits

theorem steady : Steady KeepsClear (fun _ _ => True) where
  trans := trans
  safe_of _ _ := trivial
  safe_own _ _ := trivial
  safe_curr _ _ := trivial
  setEntry done := by
    obtain ⟨-, _, _, rfl⟩ := setPageTableEntry_eq_ok done
    exact mmu _ rfl
  invalidate done := by
    obtain ⟨-, _, -, _, _, rfl⟩ := invalidatePageTableEntry_eq_ok done
    exact mmu _ rfl
  setOther _ done := by
    obtain ⟨-, _, _, rfl⟩ := setPageTableEntryNoFlush_eq_ok done
    exact mmu _ rfl
  setTable _ _ := mmu _ rfl
  same := of_sameSpaces

/-- A break that fits keeps the heap clear. -/
theorem setKernelBrk {addr : Nat} {code : Int} (done : m.setKernelBrk addr = .ok (code, n)) :
    n.kernelDataEnd = m.kernelDataEnd ∧ (m.BreakFits addr → Clear m → Clear n) := by
  unfold KernelMemory.setKernelBrk at done
  split at done
  · cases done
    exact ⟨rfl, fun _ clear => clear⟩
  rename_i outsideStack
  split at done
  · cases done
    exact ⟨rfl, fun _ clear => clear⟩
  rename_i aboveData
  split at done
  · rename_i disabled
    cases done
    refine ⟨rfl, fun _ clear => ?_⟩
    rw [clear.enabled] at disabled
    cases disabled
  obtain ⟨⟨moved, next⟩, pages, done⟩ := Outcome.bind_eq_ok.mp done
  have kept : KeepsClear m next := steady.brkPages pages
  dsimp only at done
  split at done
  · cases done
    exact ⟨kept.kernelDataEnd, fun _ => kept.clear⟩
  cases done
  refine ⟨kept.kernelDataEnd, fun fit clear => ?_⟩
  have below : addr ≤ ttyBufferVpn * pageSize :=
    fit.resolve_right (not_or.mpr ⟨outsideStack, aboveData⟩)
  obtain ⟨new, written, inside⟩ := (brkPages_writes below clear.brk pages).written
  have after := kept.clear clear
  refine ⟨⟨below, fun ptep listed => ?_⟩, after.enabled, after.fits⟩
  have added : next.written.take (next.written.length - m.written.length) = new := by
    rw [written, List.length_append, Nat.add_sub_cancel, List.take_left]
  dsimp only at listed
  rw [added] at listed
  rcases List.mem_append.mp listed with recent | old
  · exact (inside ptep recent).2
  · exact after.written ptep old

theorem moveBreaks {addrs : List Nat} (done : m.moveBreaks addrs = .ok n) :
    n.kernelDataEnd = m.kernelDataEnd ∧
      ((∀ addr ∈ addrs, m.BreakFits addr) → Clear m → Clear n) := by
  induction addrs generalizing m with
  | nil =>
      cases done
      exact ⟨rfl, fun _ clear => clear⟩
  | cons addr rest ih =>
      obtain ⟨⟨code, k⟩, moved, done⟩ := Outcome.bind_eq_ok.mp done
      obtain ⟨first, clearFirst⟩ := setKernelBrk moved
      obtain ⟨second, clearRest⟩ := ih done
      refine ⟨second.trans first, fun fits clear => clearRest (fun later listed => ?_) ?_⟩
      · unfold BreakFits
        rw [first]
        exact fits later (List.mem_cons_of_mem _ listed)
      · exact clearFirst (fits addr List.mem_cons_self) clear

theorem steadyHeap : SteadyHeap KeepsClear (fun _ _ => True) where
  toSteady := steady
  malloc {m n found} done := by
    unfold KernelMemory.malloc at done
    split at done
    · cases done
      exact steady.refl _
    · rename_i answer library answers
      obtain ⟨k, moved, done⟩ := Outcome.bind_eq_ok.mp done
      cases done
      obtain ⟨dataEnd, clears⟩ := moveBreaks moved
      refine ⟨dataEnd, fun clear => clears ?_ ?_⟩
      · exact clear.fits answer (answers ▸ List.mem_cons_self)
      · exact ⟨⟨clear.brk, clear.written⟩, clear.enabled, fun other listed =>
          clear.fits other (answers ▸ List.mem_cons_of_mem _ listed)⟩

/-- A change of the processes, the running process and the mode leaves the heap. -/
theorem processes (pcbs : Addr → MemoryPcb) (live : Finset Addr) (currPCB : Addr) :
    KeepsClear m { m with pcbs := pcbs, live := live, currPCB := currPCB } where
  kernelDataEnd := rfl
  clear clear := ⟨⟨clear.brk, clear.written⟩, clear.enabled, clear.fits⟩

theorem switched {nextPCB : Addr} (switched : Switched KeepsClear nextPCB m n) :
    KeepsClear m n := by
  obtain ⟨k, l, before, after, rfl⟩ := switched
  have swapped : KeepsClear k { k with currPCB := nextPCB } := processes k.pcbs k.live nextPCB
  refine (before.trans (swapped.trans after)).trans ?_
  obtain ⟨_, _, first⟩ := l.toMmu.tick_eq
  obtain ⟨_, _, second⟩ := (l.toMmu.writePtbr1 l.curr.r1PageTable).tick_eq
  refine mmu _ ?_
  rw [Mmu.flushRegion1, second]
  dsimp only
  rw [Mmu.writePtbr1, first]

theorem spawned {memory : ProcessMemory} (spawned : Spawned KeepsClear memory m n) :
    KeepsClear m n := by
  obtain ⟨k, before, after⟩ := spawned
  exact before.trans ((processes _ k.live k.currPCB).trans after)

theorem perform {act : MemoryAct} (done : m.perform act = .ok n) : KeepsClear m n := by
  have heap := steadyHeap
  have start : ∀ mode, KeepsClear m { m with mode := mode } := heap.mode m
  cases act with
  | fork memory currKctxt =>
      refine (start .kernel).trans ?_
      rcases heap.kernelFork trivial done with kept | made | ⟨l, made, ran⟩
      · exact kept
      · exact spawned made
      · exact (spawned made).trans ((processes l.pcbs _ l.currPCB).trans (switched ran))
  | exec request => exact (start .kernel).trans (heap.kernelExec done)
  | brk addr =>
      obtain ⟨⟨_, k⟩, moved, done⟩ := Outcome.bind_eq_ok.mp done
      cases done
      exact (start .kernel).trans (heap.kernelBrk moved)
  | memoryTrap addr => exact (start .kernel).trans (heap.handleTrapMemory done)
  | exit =>
      cases done
      exact start .exiting
  | userStore vpn page =>
      obtain ⟨_, _, ticked⟩ := m.toMmu.tick_eq
      have hardware : KeepsClear m { m with toMmu := m.toMmu.tick } := by
        refine mmu _ ?_
        rw [ticked]
      exact hardware.trans (heap.writePage done)
  | ttyReceive page => exact (start .kernel).trans (heap.writePage done)
  | allocate => exact (start .kernel).trans (heap.free done)
  | switch currKctxt nextPCB =>
      obtain ⟨⟨_, l⟩, ran, done⟩ := Outcome.bind_eq_ok.mp done
      cases done
      exact (start .kernel).trans (switched (heap.switchBetween ran))
  | kernelExit freedTable nextPCB =>
      obtain ⟨l, exited, done⟩ := Outcome.bind_eq_ok.mp done
      cases done
      unfold KernelMemory.kernelExit at exited
      split at exited
      · cases exited
      · obtain ⟨k, before, ran⟩ := heap.exitProcess trivial exited
        exact before.trans ((processes k.pcbs _ k.currPCB).trans
          ((switched ran).trans (heap.mode l _)))
  | returnToUser =>
      cases done
      exact start .user

/-- `KernelStart` keeps the heap clear after virtual memory is enabled. -/
theorem startProcesses {boot : MemoryBoot} (done : m.startProcesses boot = .ok n) :
    KeepsClear m n := by
  obtain ⟨j, k, l, f, made, second, -, third, last⟩ := steadyHeap.startProcesses trivial done
  exact (spawned made).trans ((processes j.pcbs _ j.currPCB).trans (second.trans
    ((processes _ _ k.currPCB).trans (third.trans ((processes l.pcbs l.live _).trans last)))))

end KeepsClear

/-- Virtual memory starts with the final break and with the rest of the answers. -/
theorem enableMemory_heap {boot : MemoryBoot} (done : enableMemory boot = .ok m) :
    m.regVmEnable = true ∧ m.kernelDataEnd = boot.kernelDataEnd ∧ m.library = boot.library ∧
      m.breakWritten = [] := by
  obtain ⟨filled, wrote, rfl⟩ := enableMemory_filled done
  obtain ⟨mmu, rfl, -⟩ := fillR0PageTable_region0 wrote
  exact ⟨rfl, rfl, rfl, rfl⟩

end KernelMemory

/-- The break at the start of virtual memory and the breaks of the rest of `KernelStart` fit. -/
structure MemoryBoot.StartsClear (boot : MemoryBoot) : Prop where
  finalBreak : boot.finalBreak ≤ ttyBufferVpn * pageSize
  library : (KernelMemory.beforeStart boot).BreaksFit boot.library

/-- The memory of the kernel starts from a boot whose breaks fit. -/
def clearMemory : Machine KernelMemory MemoryInput :=
  memoryMachine fun m =>
    ∃ boot : MemoryBoot, boot.StartsClear ∧ KernelMemory.boot boot = .ok m

/-- While all breaks fit, the heap stays clear of the reserved pages. -/
theorem clearMemory_heapClear {m : KernelMemory}
    (run : clearMemory.Run (fun m i => m.BreaksFit i.library) m) : m.HeapClear := by
  have first : ∀ m, clearMemory.start m → m.regVmEnable = true ∧ m.HeapClear := by
    rintro m ⟨boot, clear, booted⟩
    obtain ⟨start, enabled, done⟩ := Outcome.bind_eq_ok.mp booted
    obtain ⟨enable, dataEnd, library, none⟩ := KernelMemory.enableMemory_heap enabled
    obtain ⟨brk, -⟩ := KernelMemory.enableMemory_eq_ok enabled
    have starts : start.Clear := by
      refine ⟨⟨brk ▸ clear.finalBreak, ?_⟩, enable, ?_⟩
      · rw [none]
        exact nofun
      · unfold KernelMemory.BreaksFit KernelMemory.BreakFits
        rw [library, dataEnd]
        exact clear.library
    have ends := (KernelMemory.KeepsClear.startProcesses done).clear starts
    exact ⟨ends.enabled, ends.toHeapClear⟩
  refine (run.invariant first fun m i n inv fits step => ?_).2
  have before : KernelMemory.Clear { m with fills := i.fills, library := i.library } :=
    ⟨⟨inv.2.brk, inv.2.written⟩, inv.1, fits⟩
  have after := (KernelMemory.KeepsClear.perform step.2).clear before
  exact ⟨after.enabled, after.toHeapClear⟩

end

section
attribute [local instance] smallHardware

/-- The heap grows up to the page of the read buffers, and then `init` forks. -/
theorem smallMemory_heapClear : ∃ m,
    clearMemory.Run (fun m i => m.BreaksFit i.library) m ∧ m.currKernelBrk = 80 ∧
      m.breakWritten.length = 3 ∧ m.HeapClear := by
  obtain ⟨m, run, tested⟩ := exists_memoryRun
    (fun m => ∃ boot : MemoryBoot, boot.StartsClear ∧ KernelMemory.boot boot = .ok m)
    (fun m i => m.BreaksFit i.library)
    (fun m => decide (m.currKernelBrk = 80 ∧ m.breakWritten.length = 3)) (smallMemoryBoot 32)
    (fun _ booted => ⟨_, ⟨by decide, by decide⟩, booted⟩)
    [⟨.returnToUser, [], []⟩, ⟨.allocate, [], [⟨[70, 80], true⟩]⟩, ⟨.returnToUser, [], []⟩,
      ⟨.fork (smallProcess 2 3) [], [], []⟩] (by decide +kernel)
  obtain ⟨brk, written⟩ := of_decide_eq_true tested
  exact ⟨m, run, brk, written, clearMemory_heapClear run⟩

/-- A break above the temporary page maps that page and the page of the read buffers again. -/
theorem bootedMemory_heapClear_false : ¬ ∀ m, bootedMemory.Reachable m → m.HeapClear := by
  intro clear
  obtain ⟨m, run, tested⟩ := exists_memoryReachable
    (fun m => (m.breakWritten.map PtePtr.index).contains 6) (smallMemoryBoot 32)
    [⟨.returnToUser, [], []⟩, ⟨.allocate, [], [⟨[97], true⟩]⟩] (by decide +kernel)
  obtain ⟨ptep, listed, index⟩ := List.mem_map.mp (List.contains_iff_mem.mp tested)
  have below := (clear m run).written ptep listed
  rw [index] at below
  exact absurd below (by decide)

end

end Yallnix

import Yallnix.Proof.BufferCheck
import Yallnix.Proof.ImageHeap
import Yallnix.Proof.SiteLoops

namespace Yallnix

section
variable [Hardware]

namespace KernelMemory

variable {m n k : KernelMemory} {procs : Set Addr} {slots : Set (Addr × Fin kernelStackPages)}
  {p : Addr}

/-- Kernel code for one process keeps its sites sole and its heap mapped and spares the rest. -/
structure WorksFor (p : Addr) (procs : Set Addr) (slots : Set (Addr × Fin kernelStackPages))
    (m n : KernelMemory) : Prop extends Reworks {p} p procs slots m n where
  heap : HeapMapped p n

theorem le_pageCeil {addr : Nat} (above : vmem1Base ≤ addr) : maxPtLen ≤ pageCeil addr :=
  (pageCeil_mul maxPtLen).ge.trans (pageCeil_mono above)

/-- The fields of a PCB that name no frame do not matter. -/
theorem Sole.updatePcb {f : MemoryPcb → MemoryPcb} (sole : Sole procs slots m)
    (table : (f (m.pcbs p)).r1PageTable = (m.pcbs p).r1PageTable)
    (stack : (f (m.pcbs p)).stackPfns = (m.pcbs p).stackPfns) :
    Sole procs slots (m.updatePcb p f) := by
  have tables : ∀ q, ((m.updatePcb p f).pcbs q).r1PageTable = (m.pcbs q).r1PageTable :=
    (SameSpaces.updatePcb m p table).tables
  have frames : ∀ q, ((m.updatePcb p f).pcbs q).stackPfns = (m.pcbs q).stackPfns := by
    intro q
    by_cases same : q = p
    · subst same
      simpa only [KernelMemory.updatePcb, Function.update_self] using stack
    · simp only [KernelMemory.updatePcb, Function.update_of_ne same]
  have references : (m.updatePcb p f).references = m.references := by
    funext a
    cases a with
    | page q i => rw [KernelMemory.references, KernelMemory.references, tables]; rfl
    | slot q i => rw [KernelMemory.references, KernelMemory.references, frames]
    | kernelPage i => rfl
  refine ⟨?_, sole.order, fun q inside => ?_, fun q first r second same => ?_⟩
  · rw [references]
    exact sole.exclusive
  · rw [tables]
    exact sole.kernel q inside
  · rw [tables, tables] at same
    exact sole.apart q first r second same

/-- The code may write those fields of its process too. -/
theorem Reworks.updatePcb {f : MemoryPcb → MemoryPcb} (reworks : Reworks {p} p procs slots m k)
    (table : (f (k.pcbs p)).r1PageTable = (k.pcbs p).r1PageTable)
    (stack : (f (k.pcbs p)).stackPfns = (k.pcbs p).stackPfns) :
    Reworks {p} p procs slots m (k.updatePcb p f) :=
  ⟨reworks.toSpares.trans (.updatePcb k p f),
    ((SameSpaces.updatePcb k p table).tables p).trans reworks.table,
    reworks.sole.updatePcb table stack⟩

/-- A process gets a new break below which all pages are valid. -/
theorem Reworks.setBrk {addr : Nat} (reworks : Reworks {p} p procs slots m k)
    (limit : addr ≤ vmem1Limit) (mapped : ∀ i, maxPtLen + i < pageCeil addr →
      (k.tables (m.pcbs p).r1PageTable).maps i = true) :
    WorksFor p procs slots m (k.updatePcb p fun pcb => { pcb with brk := addr }) := by
  refine ⟨reworks.updatePcb rfl rfl, .setBrk limit ?_⟩
  rw [reworks.table]
  exact mapped

theorem WorksFor.leaves (works : WorksFor p procs slots m k) (leaves : LeavesSites k n)
    (kernel : (k.pcbs p).r1PageTable ≠ k.regPtbr0) : WorksFor p procs slots m n :=
  ⟨works.toReworks.leaves leaves,
    works.heap.of_spares leaves.toSpares (Set.notMem_empty p) (Set.notMem_empty _) kernel⟩

/-- `KernelBrk` frees only frames of valid pages. -/
theorem Sole.kernelBrk {addr : Nat} {code : Int} (sole : Sole procs slots m)
    (member : m.currPCB ∈ procs) (heap : HeapMapped m.currPCB m)
    (done : m.kernelBrk addr = .ok (code, n)) (fed : n.frameList.starved = false) :
    WorksFor m.currPCB procs slots m n := by
  unfold KernelMemory.kernelBrk at done
  split at done
  · cases done
    exact ⟨.refl sole, heap⟩
  rename_i inside
  obtain ⟨low, high⟩ := getAddressRegion_eq_one.mp (not_not.mp inside)
  have first : maxPtLen ≤ pageCeil addr :=
    le_pageCeil ((Nat.le_div_iff_mul_le pageSize_pos).mp low)
  have limit : addr ≤ vmem1Limit := ((Nat.div_lt_iff_lt_mul pageSize_pos).mp high).le
  obtain ⟨⟨moved, k⟩, pages, done⟩ := Outcome.bind_eq_ok.mp done
  obtain ⟨⟨mmu, frames, same⟩, -, -⟩ := brkPages_rest pages
  rw [brkPages_eq] at pages
  dsimp only at done
  have runs : k.currPCB = m.currPCB := by rw [same]
  split at pages
  · rename_i shrinks
    obtain ⟨l, unmapped, pages⟩ := Outcome.bind_eq_ok.mp pages
    cases pages
    cases done
    have writes := Writes.unmapPages unmapped
    have reworks : Reworks {m.currPCB} m.currPCB procs slots m k := by
      have start : (pagePtep m.curr.r1PageTable userBaseVpn (pageCeil addr)).index =
          ((pageCeil addr - maxPtLen : Nat) : Int) := by
        simp only [pagePtep, userBaseVpn_eq]
        omega
      refine sole.unmapPages member rfl start (fun i above below => heap.mapped i ?_) unmapped
      change maxPtLen + i < pageCeil m.curr.brk
      omega
    rw [runs]
    refine reworks.setBrk limit fun i below => ?_
    rw [PageTable.maps, writes.entries _ i fun _ => Or.inl ?_]
    · exact heap.mapped i (below.trans_le (pageCeil_mono shrinks.le))
    · simp only [pagePtep, userBaseVpn_eq]
      omega
  · have calls : CallsFrames k n := by
      split at done
      · cases done
        exact .refl _
      · cases done
        exact CallsFrames.steady.updatePcb k _ rfl
    have reworks : Reworks {m.currPCB} m.currPCB procs slots m k :=
      sole.mapPages member rfl pages (calls.fed fed)
    obtain ⟨kept, new⟩ := mapPages_valid pages
    split at new
    · rename_i all
      subst all
      cases done
      rw [runs]
      refine reworks.setBrk limit fun i below => ?_
      by_cases old : maxPtLen + i < pageCeil m.curr.brk
      · exact kept i (heap.mapped i old)
      · refine new i ?_ ?_
        all_goals
          simp only [pagePtep, userBaseVpn_eq]
          omega
    · rw [calls.fed fed] at new
      cases new

/-- The memory trap grows the stack with new frames. -/
theorem Sole.handleTrapMemory {addr : Nat} (sole : Sole procs slots m)
    (member : m.currPCB ∈ procs) (heap : HeapMapped m.currPCB m)
    (done : m.handleTrapMemory addr = .ok n) (fed : n.frameList.starved = false) :
    WorksFor m.currPCB procs slots m n := by
  unfold KernelMemory.handleTrapMemory at done
  dsimp only at done
  split at done
  · cases done
    exact WorksFor.leaves ⟨.refl sole, heap⟩ (.mode m _) (sole.kernel _ member)
  obtain ⟨⟨mapped, k⟩, grown, done⟩ := Outcome.bind_eq_ok.mp done
  dsimp only at done
  have calls : CallsFrames k n := by
    split at done
    · cases done
      exact CallsFrames.steadyHeap.mode _ _
    · cases done
      exact .refl _
  obtain ⟨kept, starved⟩ := growStack_valid grown
  cases mapped with
  | true =>
      have spares : Reworks ∅ m.currPCB procs slots m k :=
        sole.growStack member rfl grown (calls.fed fed)
      cases done
      exact ⟨sole.growStack member rfl grown fed,
        heap.of_keepsValid spares.toSpares (Set.notMem_empty _) kept⟩
  | false =>
      have never := starved rfl
      rw [calls.fed fed] at never
      cases never

/-- Code that misses no frame goes on with code that misses no frame. -/
theorem Reworks.next {own : Set Addr}
    (before : k.frameList.starved = false → Reworks own p procs slots m k)
    (calls : CallsFrames k n) (after : Reworks own p procs slots m k →
      n.frameList.starved = false → Reworks own p procs slots k n)
    (fed : n.frameList.starved = false) : Reworks own p procs slots m n :=
  have first := before (calls.fed fed)
  first.trans (after first fed)

theorem Reworks.leaving {own : Set Addr}
    (before : k.frameList.starved = false → Reworks own p procs slots m k)
    (leaves : LeavesSites k n) (fed : n.frameList.starved = false) :
    Reworks own p procs slots m n :=
  (before (leaves.frameList ▸ fed)).leaves leaves

/-- `LoadProgram` gives the old frames of a process back and takes new frames. -/
theorem Sole.loadImage {li : LoadInfo} {request : ImageRequest} {code : Int}
    (sole : Sole procs slots m) (quiet : m.Quiet) (member : p ∈ procs)
    (done : m.loadImage li request p = .ok (code, n)) :
    n.frameList.starved = false → Reworks {p} p procs slots m n := by
  obtain ⟨⟨found, first⟩, allocated, done⟩ := Outcome.bind_eq_ok.mp done
  have started : Reworks {p} p procs slots m first := (Reworks.refl sole).leaves (.malloc quiet allocated)
  dsimp only at done
  split at done
  · cases done
    exact fun _ => started
  have table : ∀ l, Reworks {p} p procs slots m l →
      (first.pcbs p).r1PageTable = (l.pcbs p).r1PageTable := fun l works =>
    started.table.trans works.table.symm
  obtain ⟨second, freed, done⟩ := Outcome.bind_eq_ok.mp done
  have cleared : Reworks {p} p procs slots m second :=
    started.trans (started.sole.freeValidPages member freed)
  obtain ⟨⟨textMapped, third⟩, mappedText, done⟩ := Outcome.bind_eq_ok.mp done
  have text : third.frameList.starved = false → Reworks {p} p procs slots m third := fun fed =>
    cleared.trans (cleared.sole.mapPages member (table _ cleared) mappedText fed)
  dsimp only at done
  split at done
  · cases done
    exact text
  obtain ⟨⟨dataMapped, fourth⟩, mappedData, done⟩ := Outcome.bind_eq_ok.mp done
  have data : fourth.frameList.starved = false → Reworks {p} p procs slots m fourth :=
    Reworks.next text (CallsFrames.steady.mapPages mappedData) fun works fed =>
      works.sole.mapPages member (table _ works) mappedData fed
  dsimp only at done
  split at done
  · cases done
    exact data
  obtain ⟨⟨stackMapped, fifth⟩, mappedStack, done⟩ := Outcome.bind_eq_ok.mp done
  let broken := fourth.updatePcb p fun pcb =>
    { pcb with brk := vmem1Base + (li.idNpg + li.udNpg + li.tNpg) * pageSize }
  have moved : broken.frameList.starved = false → Reworks {p} p procs slots m broken := fun fed =>
    (data fed).updatePcb rfl rfl
  have stack : fifth.frameList.starved = false → Reworks {p} p procs slots m fifth :=
    Reworks.next moved (CallsFrames.steady.mapPages mappedStack) fun works fed =>
      works.sole.mapPages member (table _ works) mappedStack fed
  dsimp only at done
  split at done
  · cases done
    exact stack
  split at done
  · cases done
    exact stack
  obtain ⟨sixth, readText, done⟩ := Outcome.bind_eq_ok.mp done
  have filled : sixth.frameList.starved = false → Reworks {p} p procs slots m sixth :=
    Reworks.leaving stack (.fillPages readText)
  split at done
  · cases done
    exact filled
  obtain ⟨seventh, readData, done⟩ := Outcome.bind_eq_ok.mp done
  obtain ⟨eighth, protectedText, done⟩ := Outcome.bind_eq_ok.mp done
  obtain ⟨ninth, zeroed, done⟩ := Outcome.bind_eq_ok.mp done
  obtain ⟨tenth, built, done⟩ := Outcome.bind_eq_ok.mp done
  obtain ⟨last, freedBuffer, done⟩ := Outcome.bind_eq_ok.mp done
  cases done
  have final : eighth.frameList.starved = false → Reworks {p} p procs slots m eighth :=
    Reworks.next (Reworks.leaving filled (.fillPages readData))
      (CallsFrames.steady.protectText protectedText) fun works _ =>
      works.sole.protectText member (table _ works ▸ protectedText)
  have args : tenth.frameList.starved = false → Reworks {p} p procs slots m tenth :=
    Reworks.leaving final ((LeavesSites.fillPages zeroed).trans (.fillPages built))
  intro fed
  have works := args ((CallsFrames.steadyHeap.free freedBuffer).fed fed)
  exact works.leaves (.free (works.quiet quiet) freedBuffer)

/-- An accepted image is contiguous, so the heap stays mapped. -/
theorem Sole.loadProgram {request : ImageRequest} {code : Int} (sole : Sole procs slots m)
    (quiet : m.Quiet) (member : p ∈ procs) (heap : HeapMapped p m)
    (contiguous : ∀ li, request.file = some li → li.Contiguous)
    (done : m.loadProgram request p = .ok (code, n)) (fed : n.frameList.starved = false) :
    WorksFor p procs slots m n := by
  have kernel := sole.kernel p member
  refine ⟨?_, ?_⟩
  · unfold KernelMemory.loadProgram at done
    split at done
    · cases done
      exact .refl sole
    split at done
    · cases done
      exact .refl sole
    split at done
    · cases done
      exact .refl sole
    exact sole.loadImage quiet member done fed
  · rcases loadProgram_heap contiguous kernel done with mapped | ⟨-, spares | starved⟩
    · exact mapped
    · exact heap.of_spares spares (Set.notMem_empty p) kernel kernel
    · rw [fed] at starved
      cases starved

/-- `KernelExec` works for the current process. -/
theorem Sole.kernelExec {request : ImageRequest} (sole : Sole procs slots m) (quiet : m.Quiet)
    (member : m.currPCB ∈ procs) (heap : HeapMapped m.currPCB m)
    (contiguous : ∀ li, request.file = some li → li.Contiguous)
    (done : m.kernelExec request = .ok n) (fed : n.frameList.starved = false) :
    WorksFor m.currPCB procs slots m n := by
  unfold KernelMemory.kernelExec at done
  split at done
  · cases done
    exact ⟨.refl sole, heap⟩
  obtain ⟨⟨status, loaded⟩, load, done⟩ := Outcome.bind_eq_ok.mp done
  have finishes : LeavesSites loaded n := by
    dsimp only at done
    split at done
    · cases done
      exact .mode _ _
    split at done
    · cases done
      exact .refl _
    obtain ⟨⟨_, last⟩, started, done⟩ := Outcome.bind_eq_ok.mp done
    cases done
    exact .execTo started
  have works := sole.loadProgram quiet member heap contiguous load (finishes.frameList ▸ fed)
  exact works.leaves finishes (works.sole.kernel _ member)

end KernelMemory

end

end Yallnix

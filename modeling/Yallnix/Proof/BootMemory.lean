import Yallnix.Construction.SmallMemory
import Yallnix.Proof.MmuStep

namespace Yallnix

section
variable [Hardware]

/-- Before virtual memory `SetKernelBrk` takes an address between the data and the stack. -/
def earlyBreak (dataEnd brk addr : Nat) : Nat :=
  if kernelStackBase ≤ addr ∨ addr < dataEnd then brk else addr

namespace MemoryBoot

/-- `initFrameList` is called with this break. -/
def tableBreak (boot : MemoryBoot) : Nat :=
  (boot.r0Answer.breaks ++ boot.initR1Answer.breaks).foldl (earlyBreak boot.kernelDataEnd)
    boot.currKernelBrk

/-- The loop of `KernelStart` reads this break. -/
def finalBreak (boot : MemoryBoot) : Nat :=
  boot.frameListAnswer.breaks.foldl (earlyBreak boot.kernelDataEnd) boot.tableBreak

def numFrames (boot : MemoryBoot) : Nat := boot.pmemSize.toNat / pageSize

/-- The text, the data and the heap end here. -/
def mappedLimit (boot : MemoryBoot) : Nat :=
  (max (intAddr boot.kernelDataStart) boot.finalBreak).toNat

/-- These pages lie wholly below the limit and below the stack, and memory has a frame for them. -/
def heapPages (boot : MemoryBoot) : Nat :=
  min (min boot.numFrames r0StackBase) (boot.mappedLimit / pageSize)

end MemoryBoot

theorem earlyBreak_lt {dataEnd brk addr : Nat} (below : brk < kernelStackBase) :
    earlyBreak dataEnd brk addr < kernelStackBase := by
  unfold earlyBreak
  split <;> omega

theorem foldl_earlyBreak_lt {dataEnd brk : Nat} (addrs : List Nat)
    (below : brk < kernelStackBase) :
    addrs.foldl (earlyBreak dataEnd) brk < kernelStackBase := by
  induction addrs generalizing brk with
  | nil => exact below
  | cons addr rest ih => exact ih (earlyBreak_lt below)

omit [Hardware] in
theorem intAddr_of_lt {addr : Nat} (small : addr < 2 ^ 31) : intAddr addr = addr :=
  if_pos small

/-- Region 0 ends where region 1 starts, and its addresses are `int` values. -/
theorem vmem1Base_lt : vmem1Base < 2 ^ 31 := by
  have range := Hardware.intRange
  have expand : 2 * maxPtLen * 2 ^ pageShift = 2 * (maxPtLen * 2 ^ pageShift) :=
    Nat.mul_assoc _ _ _
  unfold vmem1Base pageSize
  omega

theorem kernelStackBase_le : kernelStackBase ≤ vmem1Base :=
  Nat.mul_le_mul_right _ (Nat.sub_le _ _)

namespace KernelMemory

theorem setKernelBrk_early {m : KernelMemory} (off : m.regVmEnable = false) (addr : Nat) :
    ∃ code, m.setKernelBrk addr = .ok (code, { m with
      currKernelBrk := earlyBreak m.kernelDataEnd m.currKernelBrk addr }) := by
  unfold setKernelBrk earlyBreak
  by_cases high : kernelStackBase ≤ addr
  · rw [if_pos high, if_pos (Or.inl high)]
    exact ⟨errorCode, rfl⟩
  · by_cases low : addr < m.kernelDataEnd
    · rw [if_neg high, if_pos low, if_pos (Or.inr low)]
      exact ⟨errorCode, rfl⟩
    · rw [if_neg high, if_neg low, off, if_neg (not_or.mpr ⟨high, low⟩)]
      exact ⟨successCode, rfl⟩

theorem moveBreaks_early {m : KernelMemory} (off : m.regVmEnable = false) (addrs : List Nat) :
    m.moveBreaks addrs = .ok { m with
      currKernelBrk := addrs.foldl (earlyBreak m.kernelDataEnd) m.currKernelBrk } := by
  induction addrs generalizing m with
  | nil => rfl
  | cons addr rest ih =>
      obtain ⟨code, moved⟩ := setKernelBrk_early off addr
      rw [moveBreaks, moved, Outcome.ok_bind]
      exact ih off

theorem malloc_early {m : KernelMemory} {answer : LibraryAnswer} {library : List LibraryAnswer}
    (off : m.regVmEnable = false) (answers : m.library = answer :: library) :
    m.malloc = .ok (answer.found, { m with
      library := library
      currKernelBrk := answer.breaks.foldl (earlyBreak m.kernelDataEnd) m.currKernelBrk }) := by
  rw [malloc, answers]
  dsimp only
  rw [moveBreaks_early (m := { m with library := library }) off]
  rfl

/-- The entry of a page without a protection stays. -/
theorem fillR0Entry_eq_ok {m n : KernelMemory} {table : Addr} {index : Nat}
    (done : m.fillR0Entry (index * pageSize) ⟨table, index⟩ = .ok n) :
    ∃ mmu : Mmu, n = { m with toMmu := mmu } ∧ ∀ p, (mmu.tables table)[p]? =
      if p = index then
        match r0Prot m.kernelDataStart m.currKernelBrk (p * pageSize) with
        | some prot => some ⟨true, prot, p⟩
        | none => (m.tables table)[p]?
      else (m.tables table)[p]? := by
  unfold fillR0Entry at done
  cases chosen : r0Prot m.kernelDataStart m.currKernelBrk (index * pageSize) with
  | none =>
      rw [chosen] at done
      cases done
      refine ⟨m.toMmu, rfl, fun p => ?_⟩
      by_cases same : p = index
      · rw [if_pos same, same, chosen]
      · rw [if_neg same]
  | some prot =>
      rw [chosen] at done
      obtain ⟨inside, tlb, fills, rfl⟩ := setPageTableEntryNoFlush_eq_ok done
      refine ⟨_, rfl, fun p => ?_⟩
      have pages : index * pageSize / pageSize = index := Nat.mul_div_cancel _ pageSize_pos
      have short : index < (m.tables table).length := by simpa using inside.2
      simp only [Mmu.store, Function.update_self, Int.toNat_natCast, pages]
      by_cases same : p = index
      · rw [if_pos same, same, chosen, List.getElem?_set_self short]
      · rw [if_neg same, List.getElem?_set_ne (Ne.symm same)]

/-- The fill loop writes the entries of the pages that have a protection. -/
theorem fillR0PageTable_eq_ok {m n : KernelMemory} {table : Addr} {count start : Nat}
    (done : m.fillR0PageTable count (start * pageSize) ⟨table, start⟩ = .ok n) :
    ∃ mmu : Mmu, n = { m with toMmu := mmu } ∧ ∀ p, (mmu.tables table)[p]? =
      if start ≤ p ∧ p < start + count then
        match r0Prot m.kernelDataStart m.currKernelBrk (p * pageSize) with
        | some prot => some ⟨true, prot, p⟩
        | none => (m.tables table)[p]?
      else (m.tables table)[p]? := by
  induction count generalizing m start with
  | zero =>
      cases done
      refine ⟨n.toMmu, rfl, fun p => ?_⟩
      rw [if_neg (by omega)]
  | succ count ih =>
      obtain ⟨filled, wrote, done⟩ := Outcome.bind_eq_ok.mp done
      obtain ⟨mmu, rfl, first⟩ := fillR0Entry_eq_ok wrote
      have advance : start * pageSize + pageSize = (start + 1) * pageSize :=
        (Nat.succ_mul start pageSize).symm
      rw [advance] at done
      obtain ⟨mmu, rfl, rest⟩ := ih done
      refine ⟨mmu, rfl, fun p => ?_⟩
      rw [rest p, first p]
      by_cases same : p = start
      · rw [if_neg (by omega), if_pos same, if_pos (by omega)]
      · have range : (start + 1 ≤ p ∧ p < start + 1 + count) ↔
            (start ≤ p ∧ p < start + (count + 1)) := by omega
        simp only [range, if_neg same]

/-- `KernelStart` allocates a table of invalid entries before virtual memory. -/
theorem initializeRegionPageTable_early {m n : KernelMemory} {answer : LibraryAnswer}
    {library : List LibraryAnswer} {table : Addr} (off : m.regVmEnable = false)
    (answers : m.library = answer :: library)
    (done : m.initializeRegionPageTable table = .ok (true, n)) :
    n = { m with
      library := library
      currKernelBrk := answer.breaks.foldl (earlyBreak m.kernelDataEnd) m.currKernelBrk
      tables := Function.update m.tables table Yallnix.initializeRegionPageTable } := by
  rw [initializeRegionPageTable, malloc_early off answers, Outcome.ok_bind] at done
  cases found : answer.found with
  | false =>
      rw [found] at done
      cases done
  | true =>
      rw [found] at done
      cases done
      rfl

theorem initFrameList_early {m n : KernelMemory} {answer : LibraryAnswer}
    {library : List LibraryAnswer} {numFrames brk : Nat} (off : m.regVmEnable = false)
    (answers : m.library = answer :: library)
    (done : m.initFrameList numFrames brk = .ok (true, n)) :
    n = { m with
      library := library
      currKernelBrk := answer.breaks.foldl (earlyBreak m.kernelDataEnd) m.currKernelBrk
      frameList := { m.frameList with frames := (List.range numFrames).map (frameAt brk) } } := by
  rw [initFrameList, malloc_early off answers, Outcome.ok_bind] at done
  cases found : answer.found with
  | false =>
      rw [found] at done
      cases done
  | true =>
      rw [found] at done
      cases done
      rfl

/-- The loop of `KernelStart` leaves this entry for a page. -/
def startEntry (kernelDataStart currKernelBrk p : Nat) : Pte :=
  match r0Prot kernelDataStart currKernelBrk (p * pageSize) with
  | some prot => ⟨true, prot, p⟩
  | none => ⟨false, protNone, 0⟩

theorem some_startEntry {kernelDataStart currKernelBrk p : Nat} {old : Option Pte}
    (fresh : old = some ⟨false, protNone, 0⟩) :
    (match r0Prot kernelDataStart currKernelBrk (p * pageSize) with
      | some prot => some ⟨true, prot, p⟩
      | none => old) = some (startEntry kernelDataStart currKernelBrk p) := by
  unfold startEntry
  cases r0Prot kernelDataStart currKernelBrk (p * pageSize) with
  | none => exact fresh
  | some prot => rfl

/-- The three allocations of `KernelStart` leave this memory for the loop. -/
def beforeFill (boot : MemoryBoot) : KernelMemory :=
  { beforeStart boot with
    library := boot.library
    currKernelBrk := boot.finalBreak
    tables := Function.update (Function.update boot.tables boot.r0PageTable
      Yallnix.initializeRegionPageTable) boot.initR1PageTable Yallnix.initializeRegionPageTable
    frameList :=
      ⟨(List.range boot.numFrames).map (frameAt boot.tableBreak), boot.pastFrames, false⟩ }

/-- Virtual memory is enabled right after the loop. -/
theorem enableMemory_filled {boot : MemoryBoot} {m : KernelMemory}
    (done : enableMemory boot = .ok m) :
    ∃ filled, (beforeFill boot).fillR0PageTable maxPtLen 0 ⟨boot.r0PageTable, 0⟩ = .ok filled ∧
      m = filled.enableVm boot := by
  obtain ⟨first, allocated, done⟩ := Outcome.bind_eq_ok.mp done
  have firstEq := initializeRegionPageTable_early rfl rfl (orElse_eq_ok.mp allocated)
  subst firstEq
  obtain ⟨second, allocated, done⟩ := Outcome.bind_eq_ok.mp done
  have secondEq := initializeRegionPageTable_early rfl rfl (orElse_eq_ok.mp allocated)
  subst secondEq
  obtain ⟨third, allocated, done⟩ := Outcome.bind_eq_ok.mp done
  have thirdEq := initFrameList_early rfl rfl (orElse_eq_ok.mp allocated)
  have tableBreak : boot.tableBreak =
      boot.initR1Answer.breaks.foldl (earlyBreak boot.kernelDataEnd)
        (boot.r0Answer.breaks.foldl (earlyBreak boot.kernelDataEnd) boot.currKernelBrk) :=
    List.foldl_append
  have before : third = beforeFill boot := by
    rw [beforeFill, MemoryBoot.finalBreak, tableBreak]
    exact thirdEq
  subst before
  obtain ⟨filled, wrote, done⟩ := Outcome.bind_eq_ok.mp done
  cases done
  exact ⟨filled, wrote, rfl⟩

/-- The loop of `KernelStart` changes what the memory management unit sees. -/
theorem fillR0PageTable_region0 {m n : KernelMemory} {table : Addr}
    (done : m.fillR0PageTable maxPtLen 0 ⟨table, 0⟩ = .ok n) :
    ∃ mmu : Mmu, n = { m with toMmu := mmu } ∧ ∀ p < maxPtLen, (mmu.tables table)[p]? =
      match r0Prot m.kernelDataStart m.currKernelBrk (p * pageSize) with
      | some prot => some ⟨true, prot, p⟩
      | none => (m.tables table)[p]? := by
  have origin : (0 : Nat) = 0 * pageSize := (Nat.zero_mul _).symm
  rw [origin] at done
  obtain ⟨mmu, rfl, entries⟩ := fillR0PageTable_eq_ok done
  refine ⟨mmu, rfl, fun p low => (entries p).trans ?_⟩
  rw [if_pos ⟨Nat.zero_le p, by omega⟩]

/-- Virtual memory starts with these entries, these frames and this break. -/
theorem enableMemory_eq_ok {boot : MemoryBoot} {m : KernelMemory}
    (done : enableMemory boot = .ok m) :
    m.currKernelBrk = boot.finalBreak ∧
      m.frameList.frames = (List.range boot.numFrames).map (frameAt boot.tableBreak) ∧
      ∀ p < maxPtLen,
        m.entryOf p = some (startEntry boot.kernelDataStart boot.finalBreak p) := by
  obtain ⟨filled, wrote, rfl⟩ := enableMemory_filled done
  obtain ⟨mmu, rfl, entries⟩ := fillR0PageTable_region0 wrote
  refine ⟨rfl, rfl, fun p low => ?_⟩
  rw [Mmu.entryOf, if_pos low]
  refine (entries p low).trans ?_
  have others : boot.r0PageTable ≠ boot.initR1PageTable := by
    intro same
    simpa [same] using boot.distinctTables
  have fresh : ((beforeFill boot).tables boot.r0PageTable)[p]? = some ⟨false, protNone, 0⟩ := by
    dsimp only [beforeFill]
    rw [Function.update_of_ne others, Function.update_self, Yallnix.initializeRegionPageTable,
      List.getElem?_replicate, if_pos low]
  exact some_startEntry fresh

/-- The loop maps the pages below a cutoff and the pages of the stack. -/
theorem startEntry_valid {kernelDataStart currKernelBrk p : Nat}
    (below : currKernelBrk < kernelStackBase) :
    (startEntry kernelDataStart currKernelBrk p).valid = true ↔
      (((p + 1) * pageSize : Nat) : Int) ≤ intAddr kernelDataStart ∨
        (p + 1) * pageSize ≤ currKernelBrk ∨ kernelStackBase < (p + 1) * pageSize := by
  have small := kernelStackBase_le.trans_lt vmem1Base_lt
  have advance : p * pageSize + pageSize = (p + 1) * pageSize := (Nat.succ_mul p pageSize).symm
  unfold startEntry r0Prot
  simp only [advance, intAddr_of_lt (below.trans small), Int.ofNat_le]
  by_cases text : (((p + 1) * pageSize : Nat) : Int) ≤ intAddr kernelDataStart
  · rw [if_pos text]
    exact iff_of_true rfl (Or.inl text)
  · by_cases heap : (p + 1) * pageSize ≤ currKernelBrk
    · rw [if_neg text, if_pos heap]
      exact iff_of_true rfl (Or.inr (Or.inl heap))
    · by_cases stack : kernelStackBase < (p + 1) * pageSize
      · rw [if_neg text, if_neg heap, if_pos stack]
        exact iff_of_true rfl (Or.inr (Or.inr stack))
      · rw [if_neg text, if_neg heap, if_neg stack]
        exact iff_of_false nofun (not_or.mpr ⟨text, not_or.mpr ⟨heap, stack⟩⟩)

theorem startEntry_pfn {kernelDataStart currKernelBrk p : Nat}
    (valid : (startEntry kernelDataStart currKernelBrk p).valid = true) :
    (startEntry kernelDataStart currKernelBrk p).pfn = p := by
  unfold startEntry at valid ⊢
  cases chosen : r0Prot kernelDataStart currKernelBrk (p * pageSize) with
  | none =>
      rw [chosen] at valid
      cases valid
  | some prot => rfl

/-- The kernel uses the bytes below its break and the bytes of its stack. -/
def UsesByte (m : KernelMemory) (addr : Nat) : Prop :=
  addr < m.currKernelBrk ∨ kernelStackBase ≤ addr

/-- Every region 0 page with a used byte is mapped to the frame of the same number. -/
def MapsUsed (m : KernelMemory) : Prop :=
  ∀ addr < vmem1Base, m.UsesByte addr → ∃ pte, m.entryOf (addr / pageSize) = some pte ∧
    pte.valid = true ∧ pte.pfn = addr / pageSize

/-- Every frame that a valid region 0 entry maps is marked not free. -/
def HoldsMapped (m : KernelMemory) : Prop :=
  ∀ p < maxPtLen, ∀ pte, m.entryOf p = some pte → pte.valid = true →
    ∀ frame ∈ m.frameList.frames, frame.pfn = pte.pfn → frame.isFree = false

end KernelMemory

/-- The frame list and the table agree when the breaks fit the pages in this way. -/
structure MemoryBoot.Fits (boot : MemoryBoot) : Prop where
  /-- The final break splits no page, or the text ends above that page. -/
  wholePages : pageSize ∣ boot.finalBreak ∨
    (((boot.finalBreak / pageSize + 1) * pageSize : Nat) : Int) ≤ intAddr boot.kernelDataStart
  /-- The last page below the limit starts below the break of `initFrameList`. -/
  framesHeld : boot.heapPages * pageSize < boot.tableBreak + pageSize

namespace MemoryBoot

variable {boot : MemoryBoot}

theorem tableBreak_lt (below : boot.currKernelBrk < kernelStackBase) :
    boot.tableBreak < kernelStackBase :=
  foldl_earlyBreak_lt _ below

theorem finalBreak_lt (below : boot.currKernelBrk < kernelStackBase) :
    boot.finalBreak < kernelStackBase :=
  foldl_earlyBreak_lt _ (tableBreak_lt below)

/-- The pages below the final break are mapped if and only if it splits no page. -/
theorem wholePages_iff (below : boot.currKernelBrk < kernelStackBase) :
    (∀ addr < boot.finalBreak,
      (KernelMemory.startEntry boot.kernelDataStart boot.finalBreak (addr / pageSize)).valid
        = true) ↔
      (pageSize ∣ boot.finalBreak ∨
        (((boot.finalBreak / pageSize + 1) * pageSize : Nat) : Int) ≤
          intAddr boot.kernelDataStart) := by
  have last := finalBreak_lt below
  have fraction : boot.finalBreak % pageSize < pageSize := Nat.mod_lt _ pageSize_pos
  have split := Nat.div_add_mod' boot.finalBreak pageSize
  have advance : (boot.finalBreak / pageSize + 1) * pageSize =
      boot.finalBreak / pageSize * pageSize + pageSize := Nat.succ_mul _ _
  constructor
  · intro mapped
    by_cases whole : pageSize ∣ boot.finalBreak
    · exact Or.inl whole
    · have partial' : boot.finalBreak % pageSize ≠ 0 :=
        fun zero => whole (Nat.dvd_of_mod_eq_zero zero)
      have valid := mapped (boot.finalBreak / pageSize * pageSize) (by omega)
      rw [Nat.mul_div_cancel _ pageSize_pos, KernelMemory.startEntry_valid last] at valid
      have inside : boot.finalBreak / pageSize < r0StackBase :=
        (Nat.div_lt_iff_lt_mul pageSize_pos).mpr last
      have room : (boot.finalBreak / pageSize + 1) * pageSize ≤ kernelStackBase :=
        Nat.mul_le_mul_right _ inside
      rcases valid with text | heap | stack
      · exact Or.inr text
      · omega
      · omega
  · intro fits addr low
    rw [KernelMemory.startEntry_valid last]
    by_cases heap : (addr / pageSize + 1) * pageSize ≤ boot.finalBreak
    · exact Or.inr (Or.inl heap)
    · have lower : addr / pageSize ≤ boot.finalBreak / pageSize := Nat.div_le_div_right low.le
      have upper : boot.finalBreak / pageSize < addr / pageSize + 1 :=
        (Nat.div_lt_iff_lt_mul pageSize_pos).mpr (Nat.lt_of_not_le heap)
      have same : addr / pageSize = boot.finalBreak / pageSize := by omega
      rw [same] at heap ⊢
      rcases fits with whole | text
      · have between : boot.finalBreak / pageSize * pageSize = boot.finalBreak :=
          Nat.div_mul_cancel whole
        have under : addr < (addr / pageSize + 1) * pageSize :=
          (Nat.div_lt_iff_lt_mul pageSize_pos).mp (Nat.lt_succ_self _)
        have above : addr / pageSize * pageSize ≤ addr := Nat.div_mul_le_self _ _
        rw [same] at above
        omega
      · exact Or.inl text

/-- A page lies below the limit if it lies below one of the two cutoffs. -/
theorem le_mappedLimit (bytes : Nat) :
    bytes ≤ boot.mappedLimit ↔
      (bytes : Int) ≤ intAddr boot.kernelDataStart ∨ bytes ≤ boot.finalBreak := by
  unfold mappedLimit
  omega

/-- A frame is free when it lies above the break and outside the kernel stack. -/
theorem frameAt_isFree {brk i : Nat} (below : brk < 2 ^ 31) (inside : i * pageSize < 2 ^ 32) :
    (KernelMemory.frameAt brk i).isFree = true ↔
      i * pageSize < 2 ^ 31 ∧ brk ≤ i * pageSize ∧
        ¬ (kernelStackBase ≤ i * pageSize ∧ i * pageSize < vmem1Base) := by
  by_cases small : i * pageSize < 2 ^ 31
  · simp only [KernelMemory.frameAt, intAddr_of_lt below, intAddr_of_lt small, Bool.not_eq_true',
      Bool.or_eq_false_iff, decide_eq_false_iff_not, Bool.and_eq_false_imp, decide_eq_true_eq]
    omega
  · have negative : intAddr (i * pageSize) = (i * pageSize : Nat) - 2 ^ 32 := if_neg small
    simp only [KernelMemory.frameAt, intAddr_of_lt below, negative, Bool.not_eq_true',
      Bool.or_eq_false_iff, decide_eq_false_iff_not, Bool.and_eq_false_imp, decide_eq_true_eq]
    omega

theorem frameAt_pfn {brk i : Nat} (small : i * pageSize < 2 ^ 31) :
    (KernelMemory.frameAt brk i).pfn = i := by
  have pages : i * pageSize / pageSize = i := Nat.mul_div_cancel _ pageSize_pos
  simp only [KernelMemory.frameAt, intAddr_of_lt small]
  rw [← Int.natCast_ediv, pages, Int.toNat_natCast]

theorem frame_lt {i : Nat} (inside : i < boot.numFrames) : i * pageSize < 2 ^ 32 := by
  have whole : boot.numFrames * pageSize ≤ boot.pmemSize.toNat := Nat.div_mul_le_self _ _
  have size : boot.pmemSize.toNat < 2 ^ 32 := boot.pmemSize.toNat_lt
  have before : i * pageSize ≤ boot.numFrames * pageSize := Nat.mul_le_mul_right _ inside.le
  have positive := pageSize_pos
  have strict : (i + 1) * pageSize ≤ boot.numFrames * pageSize := Nat.mul_le_mul_right _ inside
  rw [Nat.succ_mul] at strict
  omega

/-- The frames of the mapped pages are held if and only if the last heap page starts in time. -/
theorem framesHeld_iff (below : boot.currKernelBrk < kernelStackBase) :
    (∀ p < maxPtLen,
      (KernelMemory.startEntry boot.kernelDataStart boot.finalBreak p).valid = true →
        ∀ i < boot.numFrames, (KernelMemory.frameAt boot.tableBreak i).pfn = p →
          (KernelMemory.frameAt boot.tableBreak i).isFree = false) ↔
      boot.heapPages * pageSize < boot.tableBreak + pageSize := by
  have last := finalBreak_lt below
  have first := tableBreak_lt below
  have region := kernelStackBase_le
  have small := vmem1Base_lt
  have positive := pageSize_pos
  constructor
  · intro held
    by_contra late
    obtain ⟨p, pages⟩ : ∃ p, boot.heapPages = p + 1 := by
      refine Nat.exists_eq_succ_of_ne_zero fun none => ?_
      rw [none] at late
      omega
    have advance : (p + 1) * pageSize = p * pageSize + pageSize := Nat.succ_mul _ _
    have bounds : p + 1 ≤ boot.numFrames ∧ p + 1 ≤ r0StackBase ∧
        p + 1 ≤ boot.mappedLimit / pageSize := by
      unfold heapPages at pages
      omega
    have stack : (p + 1) * pageSize ≤ kernelStackBase := Nat.mul_le_mul_right _ bounds.2.1
    have limit := (le_mappedLimit _).mp ((Nat.le_div_iff_mul_le positive).mp bounds.2.2)
    have valid : (KernelMemory.startEntry boot.kernelDataStart boot.finalBreak p).valid = true :=
      (KernelMemory.startEntry_valid last).mpr (limit.imp_right Or.inl)
    rw [pages] at late
    have free : (KernelMemory.frameAt boot.tableBreak p).isFree = true :=
      (frameAt_isFree (by omega) (by omega)).mpr (by omega)
    have low : p < maxPtLen := lt_of_lt_of_le bounds.2.1 (Nat.sub_le _ _)
    rw [held p low valid p bounds.1 (frameAt_pfn (by omega))] at free
    cases free
  · intro fits p low valid i inside found
    by_contra free
    rw [Bool.not_eq_false] at free
    obtain ⟨range, above, outside⟩ := (frameAt_isFree (by omega) (frame_lt inside)).mp free
    rw [frameAt_pfn range] at found
    subst found
    have advance : (i + 1) * pageSize = i * pageSize + pageSize := Nat.succ_mul _ _
    have region : i * pageSize + pageSize ≤ vmem1Base := by
      rw [← advance]
      exact Nat.mul_le_mul_right _ low
    have stack : i < r0StackBase := by
      refine Nat.lt_of_mul_lt_mul_right (a := pageSize) ?_
      change i * pageSize < kernelStackBase
      omega
    have room : (i + 1) * pageSize ≤ kernelStackBase := Nat.mul_le_mul_right _ stack
    have limit : (i + 1) * pageSize ≤ boot.mappedLimit := by
      rw [le_mappedLimit]
      rcases (KernelMemory.startEntry_valid last).mp valid with text | heap | high
      · exact Or.inl text
      · exact Or.inr heap
      · omega
    have pages : i + 1 ≤ boot.heapPages :=
      le_min (le_min inside stack) ((Nat.le_div_iff_mul_le positive).mpr limit)
    have covered : (i + 1) * pageSize ≤ boot.heapPages * pageSize := Nat.mul_le_mul_right _ pages
    omega

end MemoryBoot

/-- Virtual memory starts consistently if and only if the breaks fit the pages. -/
theorem enableMemory_consistent {boot : MemoryBoot} {m : KernelMemory}
    (below : boot.currKernelBrk + pageSize < kernelStackBase)
    (done : KernelMemory.enableMemory boot = .ok m) :
    m.MapsUsed ∧ m.HoldsMapped ↔ boot.Fits := by
  obtain ⟨brk, frames, entries⟩ := KernelMemory.enableMemory_eq_ok done
  have low : boot.currKernelBrk < kernelStackBase := by omega
  have last := MemoryBoot.finalBreak_lt low
  have region := kernelStackBase_le
  have page : ∀ addr < vmem1Base, addr / pageSize < maxPtLen := fun addr inside =>
    (Nat.div_lt_iff_lt_mul pageSize_pos).mpr inside
  have mapped : m.MapsUsed ↔ ∀ addr < boot.finalBreak,
      (KernelMemory.startEntry boot.kernelDataStart boot.finalBreak (addr / pageSize)).valid
        = true := by
    constructor
    · intro maps addr used
      obtain ⟨pte, found, valid, -⟩ := maps addr (by omega) (Or.inl (brk ▸ used))
      rw [entries _ (page addr (by omega)), Option.some.injEq] at found
      rw [found]
      exact valid
    · intro valid addr inside used
      have here : (KernelMemory.startEntry boot.kernelDataStart boot.finalBreak
          (addr / pageSize)).valid = true := by
        rcases used with heap | stack
        · exact valid addr (brk ▸ heap)
        · have under : addr < (addr / pageSize + 1) * pageSize :=
            (Nat.div_lt_iff_lt_mul pageSize_pos).mp (Nat.lt_succ_self _)
          exact (KernelMemory.startEntry_valid last).mpr (Or.inr (Or.inr (by omega)))
      exact ⟨_, entries _ (page addr inside), here, KernelMemory.startEntry_pfn here⟩
  have held : m.HoldsMapped ↔ ∀ p < maxPtLen,
      (KernelMemory.startEntry boot.kernelDataStart boot.finalBreak p).valid = true →
        ∀ i < boot.numFrames, (KernelMemory.frameAt boot.tableBreak i).pfn = p →
          (KernelMemory.frameAt boot.tableBreak i).isFree = false := by
    constructor
    · intro holds p small valid i listed same
      refine holds p small _ (entries p small) valid _ ?_ ?_
      · rw [frames]
        exact List.mem_map_of_mem (List.mem_range.mpr listed)
      · rw [same, KernelMemory.startEntry_pfn valid]
    · intro holds p small pte found valid frame listed same
      rw [entries p small, Option.some.injEq] at found
      subst found
      rw [frames] at listed
      obtain ⟨i, number, rfl⟩ := List.mem_map.mp listed
      rw [KernelMemory.startEntry_pfn valid] at same
      exact holds p small valid i (List.mem_range.mp number) same
  rw [mapped, held, MemoryBoot.wholePages_iff low, MemoryBoot.framesHeld_iff low]
  exact ⟨fun both => ⟨both.1, both.2⟩, fun fits => ⟨fits.wholePages, fits.framesHeld⟩⟩

end

section
attribute [local instance] smallHardware

/-- The small memory starts with a break at the end of a page. -/
theorem smallMemory_consistent : ∃ m, KernelMemory.enableMemory (smallMemoryBoot 32) = .ok m ∧
    m.MapsUsed ∧ m.HoldsMapped := by
  obtain ⟨m, done, -⟩ := @leaves_eq_true (fun _ => true)
    (KernelMemory.enableMemory (smallMemoryBoot 32)) (by decide +kernel)
  exact ⟨m, done, (enableMemory_consistent (by decide) done).mpr ⟨by decide, by decide⟩⟩

/-- A break inside a page leaves the bytes below it in an unmapped page. -/
theorem enableMemory_consistent_false : ¬ ∀ (boot : MemoryBoot) (m : KernelMemory),
    boot.currKernelBrk + pageSize < kernelStackBase →
      KernelMemory.enableMemory boot = .ok m → m.MapsUsed ∧ m.HoldsMapped := by
  intro consistent
  obtain ⟨m, done, tested⟩ := @leaves_eq_true
    (fun m => m.currKernelBrk == 36 && (m.entryOf 2).all fun pte => !pte.valid)
    (KernelMemory.enableMemory (smallMemoryBoot 36)) (by decide +kernel)
  rw [Bool.and_eq_true, beq_iff_eq] at tested
  obtain ⟨maps, -⟩ := consistent _ m (by decide) done
  obtain ⟨pte, found, valid, -⟩ := maps 32 (by decide) (Or.inl (by rw [tested.1]; decide))
  have invalid := tested.2
  rw [show 2 = 32 / pageSize from rfl, found, Option.all_some, valid] at invalid
  cases invalid

end

end Yallnix

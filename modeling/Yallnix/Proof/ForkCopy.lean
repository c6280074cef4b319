import Yallnix.Proof.PageCopy

namespace Yallnix

section
variable [Hardware]

namespace KernelMemory

variable {memory : ProcessMemory} {m n k : KernelMemory} {pfns : List Nat} {need : Nat}

/-- With enough free frames each slot of the kernel stack gets one. -/
theorem takeStackFrames_takes (newPCB : Addr) {slots : List (Fin kernelStackPages)}
    (nodup : slots.Nodup) (enough : slots.length ≤ m.frameList.freeNumbers.length) :
    ∃ frames stackPfns, m.takeStackFrames newPCB slots =
        (true, { m with frameList := frames }.updatePcb newPCB fun pcb =>
          { pcb with stackPfns := stackPfns }) ∧
      Takes (slots.map stackPfns) m.frameList frames ∧
      (∀ i ∉ slots, stackPfns i = (m.pcbs newPCB).stackPfns i) ∧
      frames.freeNumbers.length + slots.length = m.frameList.freeNumbers.length := by
  induction slots generalizing m with
  | nil =>
      refine ⟨m.frameList, (m.pcbs newPCB).stackPfns, ?_, .refl _, fun _ _ => rfl, rfl⟩
      rw [takeStackFrames, updatePcb, Function.update_eq_self]
  | cons i rest ih =>
      obtain ⟨fresh, nodup⟩ := List.nodup_cons.mp nodup
      rw [List.length_cons] at enough
      obtain ⟨pfn, free, numbers⟩ := List.exists_cons_of_length_pos (Nat.lt_of_lt_of_le
        (Nat.succ_pos _) enough)
      obtain ⟨frames, took, takes, left⟩ := getFrame_takes numbers
      have length := congrArg List.length numbers
      rw [← left, List.length_cons] at length
      obtain ⟨last, stackPfns, all, later, others, count⟩ := ih
        (m := { m with frameList := frames }.updatePcb newPCB fun pcb =>
          { pcb with stackPfns := Function.update pcb.stackPfns i pfn }) nodup
        (by
          change _ ≤ frames.freeNumbers.length
          omega)
      have first : stackPfns i = pfn := by
        rw [others i fresh]
        simp only [updatePcb, Function.update_self]
      refine ⟨last, stackPfns, ?_, ?_, fun j away => ?_, ?_⟩
      · rw [takeStackFrames, took]
        refine all.trans ?_
        simp only [updatePcb, Function.update_self, Function.update_idem]
      · rw [List.map_cons, first]
        exact takes.trans later
      · obtain ⟨other, away⟩ := not_or.mp (mt List.mem_cons.mpr away)
        rw [others j away]
        simp only [updatePcb, Function.update_self, Function.update_of_ne other]
      · rw [List.length_cons]
        change last.freeNumbers.length + _ = frames.freeNumbers.length at count
        omega

/-- `initPCB` gives the child an empty page table and new frames for its kernel stack. -/
structure Begins (memory : ProcessMemory) (need : Nat) (m n : KernelMemory) : Prop where
  builds : Builds memory ((List.finRange kernelStackPages).map (n.pcbs memory.pcb).stackPfns) m n
  table : n.tables memory.r1PageTable = Yallnix.initializeRegionPageTable
  r1PageTable : (n.pcbs memory.pcb).r1PageTable = memory.r1PageTable
  allocates : n.Allocates need

theorem Grows.begins {frames : FrameList} {stackPfns : Fin kernelStackPages → Nat}
    (grown : Grows m k) (forkable : m.Forkable memory)
    (allocates : k.Allocates (kernelStackPages + need))
    (takes : Takes ((List.finRange kernelStackPages).map stackPfns) k.frameList frames)
    (left : frames.freeNumbers.length + kernelStackPages = k.frameList.freeNumbers.length) :
    Begins memory need m { k with
      tables := Function.update k.tables memory.r1PageTable Yallnix.initializeRegionPageTable
      frameList := frames
      pcbs := Function.update k.pcbs memory.pcb { memory.junk with
        kctxt := none
        r1PageTable := memory.r1PageTable
        stackPfns := stackPfns } } where
  builds := by
    dsimp only
    rw [Function.update_self]
    exact (Grows.builds grown).trans {
      regPtbr0 := rfl
      regPtbr1 := rfl
      currPCB := rfl
      live := rfl
      pcbs := fun p other => Function.update_of_ne other _ _
      tables := fun table other _ => Function.update_of_ne other _ _
      frames := takes
      pages := fun _ _ => rfl }
  table := Function.update_self _ _ _
  r1PageTable := by
    dsimp only
    rw [Function.update_self]
  allocates := by
    obtain ⟨found, temp, rises, enough⟩ := allocates
    refine ⟨found, ?_, rises, ?_⟩
    · dsimp only
      rw [Function.update_of_ne]
      · exact temp
      · rw [grown.regPtbr0]
        exact forkable.childNotKernel.symm
    · dsimp only
      omega

theorem initPCB_begins (positive : 0 < r0StackBase) (forkable : m.Forkable memory)
    (allocates : m.Allocates (kernelStackPages + need)) :
    ∃ n, m.initPCB memory = .ok (true, n) ∧ Begins memory need m n := by
  have small := tempIndex_lt positive
  obtain ⟨k₁, first, grows₁, allocates⟩ := malloc_grows small allocates
  obtain ⟨k₂, second, grows₂, allocates⟩ := malloc_grows small allocates
  obtain ⟨k₃, third, grows₃, allocates⟩ := malloc_grows small allocates
  let k : KernelMemory := { k₃ with
    tables := Function.update k₃.tables memory.r1PageTable Yallnix.initializeRegionPageTable }
  have enough : kernelStackPages ≤ k₃.frameList.freeNumbers.length := by
    have supplied := allocates.supplied.enough
    omega
  rw [← List.length_finRange (n := kernelStackPages)] at enough
  obtain ⟨frames, stackPfns, took, takes, -, left⟩ := takeStackFrames_takes
    (m := k.updatePcb memory.pcb fun _ =>
      { memory.junk with kctxt := none, r1PageTable := memory.r1PageTable })
    memory.pcb (List.nodup_finRange kernelStackPages) enough
  rw [List.length_finRange] at left
  refine ⟨_, ?_, ((grows₁.trans grows₂).trans grows₃).begins forkable allocates takes left⟩
  rw [initPCB, first, Outcome.ok_bind]
  dsimp only
  rw [if_neg (by decide), second]
  dsimp only [orElse]
  rw [Outcome.ok_bind, KernelMemory.initializeRegionPageTable, third, Outcome.ok_bind]
  dsimp only
  rw [if_neg (by decide)]
  rw [Outcome.pure_eq_ok]
  dsimp only
  rw [Outcome.ok_bind, took]
  simp only [updatePcb, Function.update_self, Function.update_idem]
  rfl

/-- No step writes the frames of the parent. -/
theorem Builds.contents (builds : Builds memory pfns m n) (forkable : m.Forkable memory) {pte : Pte}
    (listed : pte ∈ m.tables m.curr.r1PageTable) (valid : pte.valid = true) :
    n.pages pte.pfn = m.pages pte.pfn :=
  builds.pages _ fun taken => forkable.used pte listed valid
    (builds.frames.order.subset (List.mem_append_left _ taken))

theorem Builds.updatePcb (f : MemoryPcb → MemoryPcb) :
    Builds memory [] m (m.updatePcb memory.pcb f) where
  regPtbr0 := rfl
  regPtbr1 := rfl
  currPCB := rfl
  live := rfl
  pcbs _ other := Function.update_of_ne other _ _
  tables _ _ _ := rfl
  frames := .refl _
  pages _ _ := rfl

/-- A write of the temporary entry keeps all other tables. -/
theorem Builds.setTemp {pte : Pte} {tlb : Nat → Option Translation} {fills : List (List Nat)}
    {written : List PtePtr} : Builds memory [] m { m with
      tables := Function.update m.tables m.regPtbr0 ((m.tables m.regPtbr0).set tempIndex pte)
      tlb := tlb
      fills := fills
      written := written } where
  regPtbr0 := rfl
  regPtbr1 := rfl
  currPCB := rfl
  live := rfl
  pcbs _ _ := rfl
  tables _ _ away := Function.update_of_ne away _ _
  frames := .refl _
  pages _ _ := rfl

/-- The child holds a copy of each page of the parent. -/
structure ChildBuilt (memory : ProcessMemory) (m n : KernelMemory) : Prop where
  builds : Builds memory ((List.finRange kernelStackPages).map (n.pcbs memory.pcb).stackPfns ++
    PageTable.heldPages (n.tables memory.r1PageTable)) m n
  copied : ∀ (i : Nat) pte, (m.tables m.curr.r1PageTable)[i]? = some pte →
    ∃ pte', (n.tables memory.r1PageTable)[i]? = some pte' ∧ CopyOf m n pte pte'
  r1PageTable : (n.pcbs memory.pcb).r1PageTable = memory.r1PageTable
  brk : (n.pcbs memory.pcb).brk = m.curr.brk
  temp : (n.tables n.regPtbr0)[tempIndex]? = some ⟨false, protNone, 0⟩

/-- The reset of the temporary entry and the last `malloc` keep the copy. -/
theorem CopiesFrom.childBuilt {l : KernelMemory} {tlb : Nat → Option Translation}
    {fills : List (List Nat)} {written : List PtePtr} (forkable : m.Forkable memory)
    (before : Builds memory ((List.finRange kernelStackPages).map (l.pcbs memory.pcb).stackPfns) m l)
    (r1PageTable : (l.pcbs memory.pcb).r1PageTable = memory.r1PageTable)
    (brk : (l.pcbs memory.pcb).brk = m.curr.brk) (copies : CopiesFrom memory 0 pfns l k)
    (temp : tempIndex < (k.tables k.regPtbr0).length)
    (grows : Grows { k with
      tables := Function.update k.tables k.regPtbr0
        ((k.tables k.regPtbr0).set tempIndex ⟨false, protNone, 0⟩)
      tlb := tlb
      fills := fills
      written := written } n) : ChildBuilt memory m n := by
  have region0 : memory.r1PageTable ≠ k.regPtbr0 := by
    rw [copies.regPtbr0]
    exact (before.forkable forkable).childNotKernel
  have child : n.tables memory.r1PageTable = k.tables memory.r1PageTable :=
    (grows.table region0).trans (Function.update_of_ne region0 _ _)
  have pcbs : n.pcbs = l.pcbs := by
    obtain ⟨_, _, _, _, _, rfl⟩ := grows.rest
    obtain ⟨_, _, _, _, _, _, rfl⟩ := copies.rest
    rfl
  have held : PageTable.heldPages (n.tables memory.r1PageTable) = pfns := by
    rw [child]
    exact copies.held
  have all := ((before.trans copies.toBuilds).trans Builds.setTemp).trans grows.builds
  rw [List.append_nil, List.append_nil] at all
  refine ⟨?_, fun i pte found => ?_, ?_, ?_, ?_⟩
  · rw [held, pcbs]
    exact all
  · rw [← before.parent forkable] at found
    obtain ⟨pte', here, valid, copy⟩ := copies.copied i (Nat.zero_le i) pte found
    refine ⟨pte', by rw [child, here], valid, fun holds => ?_⟩
    obtain ⟨prot, contents⟩ := copy holds
    rw [before.parent forkable] at found
    rw [before.contents forkable (List.mem_of_getElem? found) holds] at contents
    refine ⟨prot, Eq.trans ?_ contents⟩
    obtain ⟨_, _, _, _, _, rfl⟩ := grows.rest
    rfl
  · rw [pcbs, r1PageTable]
  · rw [pcbs, brk]
  · rw [grows.regPtbr0, grows.entries _ tempIndex fun _ => le_refl _]
    dsimp only
    rw [Function.update_self, List.getElem?_set_self temp]

/-- The rest of `KernelFork` copies the pages of the parent into the begun child. -/
theorem Begins.built (positive : 0 < r0StackBase) (forkable : m.Forkable memory)
    (begins : Begins memory (PageTable.heldPages (m.tables m.curr.r1PageTable)).length m k) :
    ∃ k₁ l k₂ k₃ n, k.malloc = .ok (true, k₁) ∧
      (k₁.updatePcb memory.pcb fun pcb => { pcb with
        kctxt := some memory.kctxt
        brk := k₁.curr.brk }) = l ∧
      l.copyPages l.curr.r1PageTable memory.r1PageTable maxPtLen 0 = .ok (true, k₂) ∧
      k₂.setPageTableEntry k₂.tempPtep ⟨false, protNone, 0⟩ = .ok k₃ ∧
      k₃.malloc = .ok (true, n) ∧ ChildBuilt memory m n := by
  have small := tempIndex_lt positive
  obtain ⟨k₁, first, grows₁, allocates⟩ := malloc_grows small begins.allocates
  let l := k₁.updatePcb memory.pcb fun pcb => { pcb with
    kctxt := some memory.kctxt
    brk := k₁.curr.brk }
  have grown : Builds memory _ m k₁ := begins.builds.trans grows₁.builds
  have updated : Builds memory [] k₁ l := .updatePcb _
  have before := grown.trans updated
  rw [List.append_nil, List.append_nil] at before
  have pcb : l.pcbs memory.pcb = { k.pcbs memory.pcb with
      kctxt := some memory.kctxt
      brk := m.curr.brk } := by
    refine (Function.update_self _ _ _).trans ?_
    dsimp only
    rw [grown.curr forkable]
    obtain ⟨_, _, _, _, _, rfl⟩ := grows₁.rest
    rfl
  have region0 : memory.r1PageTable ≠ k.regPtbr0 := by
    rw [begins.builds.regPtbr0]
    exact forkable.childNotKernel
  have table : l.tables memory.r1PageTable = Yallnix.initializeRegionPageTable :=
    (grows₁.table region0).trans begins.table
  have parent := before.parent forkable
  obtain ⟨found, temp, rises, enough⟩ := allocates
  obtain ⟨k₂, pfns, copied, copies⟩ := copyPages_copies (m := l) positive
    (before.forkable forkable) temp (by rw [table]; exact List.length_replicate) (Nat.zero_add _)
    (by
      rw [table]
      intro pte listed
      rw [List.eq_of_mem_replicate listed])
    (by
      rw [List.drop_zero, parent]
      exact le_trans (Nat.le_add_right _ _) enough)
  have inside : tempIndex < (k₂.tables k₂.regPtbr0).length := by
    rw [copies.lengths, copies.regPtbr0]
    exact temp
  obtain ⟨tlb, fills, written, reset⟩ := setTemp_ok positive inside ⟨false, protNone, 0⟩
  have ready : Allocates { k₂ with
      tables := Function.update k₂.tables k₂.regPtbr0
        ((k₂.tables k₂.regPtbr0).set tempIndex ⟨false, protNone, 0⟩)
      tlb := tlb
      fills := fills
      written := written } 0 := by
    have count := copies.count
    have left := copies.left
    rw [List.drop_zero, parent] at count
    obtain ⟨_, _, _, _, _, _, rfl⟩ := copies.rest
    refine ⟨found, ?_, rises, ?_⟩
    · dsimp only
      rw [Function.update_self, List.length_set]
      exact inside
    · change _ = k₁.frameList.freeNumbers.length at left
      rw [← left, count] at enough
      dsimp only [l, updatePcb] at enough ⊢
      omega
  obtain ⟨n, last, grows₂, -⟩ := malloc_grows small ready
  refine ⟨k₁, l, k₂, _, n, first, rfl, copied, reset, last, ?_⟩
  refine copies.childBuilt forkable ?_ ?_ ?_ inside grows₂
  · rw [pcb]
    exact before
  · rw [pcb]
    exact begins.r1PageTable
  · rw [pcb]

/-- The frames of a process hold its kernel stack and its pages. -/
def childFrames (pcbp : Addr) (m : KernelMemory) : List Nat :=
  (List.finRange kernelStackPages).map (m.pcbs pcbp).stackPfns ++
    PageTable.heldPages (m.tables (m.pcbs pcbp).r1PageTable)

end KernelMemory

namespace ForkState

variable {memory : ProcessMemory} {s t : ForkState}

/-- The child is a copy of the parent in new frames, and the kernel changed nothing else. -/
structure Copied (memory : ProcessMemory) (s t : ForkState) : Prop where
  pages : ∀ i < maxPtLen, ∃ pte pte',
    (s.tables s.curr.r1PageTable)[i]? = some pte ∧
    (t.tables (t.pcbs memory.pcb).r1PageTable)[i]? = some pte' ∧
    KernelMemory.CopyOf s.toKernelMemory t.toKernelMemory pte pte'
  distinct : (t.childFrames memory.pcb).Nodup
  wereFree : ∀ pfn ∈ t.childFrames memory.pcb, s.frameList.Marks pfn true
  areUsed : ∀ pfn ∈ t.childFrames memory.pcb, t.frameList.Marks pfn false
  brk : (t.pcbs memory.pcb).brk = s.curr.brk
  uctxt : (t.books memory.pcb).uctxt = (s.books s.currPCB).uctxt
  tables : ∀ table, table ≠ memory.r1PageTable → table ≠ s.regPtbr0 →
    t.tables table = s.tables table
  contents : ∀ pfn, s.frameList.Marks pfn false → t.pages pfn = s.pages pfn
  pcbs : ∀ p, p ≠ memory.pcb → t.pcbs p = s.pcbs p
  books : ∀ p, p ≠ memory.pcb → p ≠ s.currPCB → t.books p = s.books p
  parentBook : ∃ childrenMap, t.books s.currPCB = { s.books s.currPCB with
    childrenMap := childrenMap
    numChildren := (s.books s.currPCB).numChildren + 1 }
  temp : (t.tables t.regPtbr0)[tempIndex]? = some ⟨false, protNone, 0⟩

/-- The child gets this book. -/
def childBook (junk : PcbBook) (s : ForkState) : PcbBook :=
  { junk with
    pid := s.nextPid
    uctxt := (s.books s.currPCB).uctxt
    childrenMap := hashMapNew childrenMapHashBuckets childrenMapHashBuckets_pos
    parent := some s.currPCB
    zombieQ := none
    numRemainingDelayTicks := 0
    numChildren := 0 }

/-- The parent counts the child. -/
def parentBook (inserted : Option (HashMap Addr)) (s : ForkState) : PcbBook :=
  { s.books s.currPCB with
    childrenMap := inserted.getD (s.books s.currPCB).childrenMap
    numChildren := (s.books s.currPCB).numChildren + 1 }

/-- The memory of a built child gives the copy. -/
theorem copied_of_childBuilt {n : KernelMemory} (junk : PcbBook)
    (inserted : Option (HashMap Addr)) (forkable : s.Forkable memory)
    (built : KernelMemory.ChildBuilt memory s.toKernelMemory n) :
    Copied memory s { n with
      books := Function.update (Function.update s.books memory.pcb (s.childBook junk)) s.currPCB
        (s.parentBook inserted)
      nextPid := s.nextPid + 1 } := by
  have builds := built.builds
  rw [← built.r1PageTable] at builds
  have takes : Takes (n.childFrames memory.pcb) s.frameList n.frameList := builds.frames
  have taken := fun pfn (listed : pfn ∈ n.childFrames memory.pcb) =>
    takes.taken forkable.numbers listed
  exact {
    pages := fun i low => by
      have inside : i < (s.tables s.curr.r1PageTable).length := by
        rw [forkable.length]
        exact low
      obtain ⟨pte', found, copy⟩ := built.copied i _ (List.getElem?_eq_getElem inside)
      refine ⟨_, pte', List.getElem?_eq_getElem inside, ?_, copy⟩
      rw [built.r1PageTable, found]
    distinct := takes.nodup forkable.numbers
    wereFree := fun pfn listed => FrameList.mem_freeNumbers.mp (taken pfn listed).1
    areUsed := fun pfn listed => by
      refine FrameList.marks_used ?_ (taken pfn listed).2
      rw [takes.numbers]
      exact (FrameList.freeNumbers_sublist _).subset (taken pfn listed).1
    brk := built.brk
    uctxt := by
      dsimp only
      rw [Function.update_of_ne forkable.pcb, Function.update_self]
      rfl
    tables := built.builds.tables
    contents := fun pfn used => builds.pages pfn fun listed =>
      FrameList.notMem_freeNumbers forkable.numbers used (taken pfn listed).1
    pcbs := built.builds.pcbs
    books := fun p notChild notParent => by
      dsimp only
      rw [Function.update_of_ne notParent, Function.update_of_ne notChild]
    parentBook := ⟨_, Function.update_self _ _ _⟩
    temp := built.temp }

/-- `KernelFork` runs the child that it built. -/
theorem kernelFork_of_buildChild {junk : PcbBook} (currKctxt : KernelContext)
    (built : s.buildChild memory junk = .ok (true, t)) :
    s.toKernelMemory.kernelFork memory currKctxt =
      ({ t.toKernelMemory with live := insert memory.pcb t.live }.forkTo currKctxt memory.pcb >>=
        fun entered => .ok entered.2) := by
  obtain ⟨⟨made, k⟩, init, built⟩ := Outcome.bind_eq_ok.mp built
  dsimp only at built
  split at built
  · cases built
  rename_i begun
  obtain ⟨⟨found, k₁⟩, first, built⟩ := Outcome.bind_eq_ok.mp built
  obtain ⟨⟨copied, k₂⟩, copy, built⟩ := Outcome.bind_eq_ok.mp built
  dsimp only at built
  split at built
  · cases built
  rename_i all
  obtain ⟨k₃, reset, built⟩ := Outcome.bind_eq_ok.mp built
  obtain ⟨⟨node, n⟩, last, built⟩ := Outcome.bind_eq_ok.mp built
  obtain ⟨inserted, -, built⟩ := Outcome.bind_eq_ok.mp built
  cases built
  rw [KernelMemory.kernelFork, init, Outcome.ok_bind]
  dsimp only
  rw [if_neg begun, first, Outcome.ok_bind]
  dsimp only at copy ⊢
  rw [copy, Outcome.ok_bind]
  dsimp only
  rw [if_neg all, reset, Outcome.ok_bind, last, Outcome.ok_bind]
  rfl

/-- With enough free frames `KernelFork` builds an exact copy of the parent. -/
theorem buildChild_copied (junk : PcbBook) (positive : 0 < r0StackBase)
    (forkable : s.Forkable memory) (pids : 0 ≤ s.nextPid)
    (allocates : s.Allocates (kernelStackPages +
      (PageTable.heldPages (s.tables s.curr.r1PageTable)).length)) :
    ∃ t, s.buildChild memory junk = .ok (true, t) ∧ Copied memory s t := by
  have finds : s.findsPcb = true := by
    unfold findsPcb
    split
    · rfl
    · rename_i answer rest answers
      refine allocates.found answer ?_
      rw [answers]
      exact List.mem_cons_self
  obtain ⟨k, made, begins⟩ := KernelMemory.initPCB_begins positive forkable allocates
  obtain ⟨k₁, l, k₂, k₃, n, first, updated, copied, reset, last, built⟩ :=
    begins.built positive forkable
  have away := forkable.pcb
  obtain ⟨inserted, insertion⟩ := HashMap.insert_of_fits
    ((s.books s.currPCB).childrenMap.fits_of_nonneg pids) memory.pcb
  refine ⟨_, ?_, copied_of_childBuilt junk inserted forkable built⟩
  rw [buildChild, made, Outcome.ok_bind]
  dsimp only
  rw [if_neg (by decide), first, Outcome.ok_bind]
  dsimp only
  rw [if_pos rfl, updated, copied, Outcome.ok_bind]
  dsimp only
  rw [if_neg (by decide), reset, Outcome.ok_bind, last, Outcome.ok_bind, beginBook, if_pos finds]
  simp only [withMemory, updateBook, hashMapInsertWith, if_true, Function.update_self,
    Function.update_idem, Function.update_of_ne away.symm, insertion, Outcome.ok_bind]
  rfl

end ForkState

end

section
attribute [local instance] smallHardware

/-- `init` of the small memory forks, and the first `malloc` moves the kernel break. -/
theorem buildChild_copied_small : ∃ (m : KernelMemory) (junk : PcbBook) (t : ForkState),
    bootedMemory.Reachable m ∧ (PageTable.heldPages (m.tables m.curr.r1PageTable)).length = 4 ∧
    ForkState.Copied (smallProcess 2 3)
      { m with library := [⟨[40], true⟩], books := fun _ => junk, nextPid := 2 } t := by
  let junk : PcbBook := ⟨0, ⟨0, 0, 0⟩,
    hashMapNew childrenMapHashBuckets childrenMapHashBuckets_pos, 0, none, none, 0⟩
  obtain ⟨m, reached, tested⟩ := exists_memoryReachable
    (fun m => decide (KernelMemory.Forkable (smallProcess 2 3) { m with library := [⟨[40], true⟩] } ∧
      (PageTable.heldPages (m.tables m.curr.r1PageTable)).length = 4 ∧
      KernelMemory.Allocates { m with library := [⟨[40], true⟩] } (kernelStackPages + 4)))
    (smallMemoryBoot 32) [] (by decide +kernel)
  obtain ⟨forkable, four, allocates⟩ := of_decide_eq_true tested
  rw [← four] at allocates
  have pids : (0 : Int) ≤ 2 := by decide
  obtain ⟨t, -, copied⟩ := ForkState.buildChild_copied
    (s := { m with library := [⟨[40], true⟩], books := fun _ => junk, nextPid := 2 }) junk
    (by decide) forkable pids allocates
  exact ⟨m, junk, t, reached, four, copied⟩

end

end Yallnix

import Yallnix.ToMathlib.ExclusivePlaces
import Yallnix.Proof.HeapMove
import Yallnix.Proof.ImageFrames
import Yallnix.Proof.MemoryFrame

namespace Yallnix

/-- A valid entry references its frame. -/
def PageTable.reference (table : PageTable) (i : Nat) : Option Nat :=
  (table[i]?.filter Pte.valid).map Pte.pfn

theorem PageTable.reference_of_getElem? {table : PageTable} {i : Nat} {pte : Pte}
    (found : table[i]? = some pte) :
    table.reference i = if pte.valid then some pte.pfn else none := by
  rw [reference, found]
  cases valid : pte.valid <;> simp [Option.filter, valid]

theorem PageTable.reference_congr {table other : PageTable} {i : Nat}
    (same : other[i]? = table[i]?) : other.reference i = table.reference i := by
  rw [reference, same, reference]

section
variable [Hardware]

/-- A new table references no frame. -/
theorem initializeRegionPageTable_reference (i : Nat) :
    initializeRegionPageTable.reference i = none := by
  cases found : initializeRegionPageTable[i]? with
  | none =>
      rw [PageTable.reference, found]
      rfl
  | some pte =>
      have invalid := List.eq_of_mem_replicate (List.mem_of_getElem? found)
      rw [PageTable.reference_of_getElem? found, invalid]
      rfl

/-- A frame may be referenced from these sites. -/
inductive Site where
  | page (pcbp : Addr) (i : Nat)
  | slot (pcbp : Addr) (i : Fin kernelStackPages)
  | kernelPage (i : Nat)
  deriving DecidableEq

/-- A site belongs to one of these processes, to one of these slots, or to the kernel. -/
def Site.among (procs : Set Addr) (slots : Set (Addr × Fin kernelStackPages)) : Site → Prop
  | .page pcbp _ => pcbp ∈ procs
  | .slot pcbp i => (pcbp, i) ∈ slots
  | .kernelPage _ => True

/-- The pages of these processes, these slots and the pages of the kernel. -/
def sites (procs : Set Addr) (slots : Set (Addr × Fin kernelStackPages)) : Set Site :=
  {a | a.among procs slots}

theorem sites_mono {procs fewer : Set Addr} {slots less : Set (Addr × Fin kernelStackPages)}
    (first : fewer ⊆ procs) (second : less ⊆ slots) : sites fewer less ⊆ sites procs slots := by
  intro a inside
  cases a with
  | page pcbp i => exact first inside
  | slot pcbp i => exact second inside
  | kernelPage i => trivial

namespace KernelMemory

/-- The pages of the kernel stack and the temporary page of region 0 do not count. -/
def references (m : KernelMemory) : Site → Option Nat
  | .page pcbp i => (m.tables (m.pcbs pcbp).r1PageTable).reference i
  | .slot pcbp i => some ((m.pcbs pcbp).stackPfns i)
  | .kernelPage i => if i + 1 < r0StackBase then (m.tables m.regPtbr0).reference i else none

/-- All slots of the live processes. -/
def liveSlots (m : KernelMemory) : Set (Addr × Fin kernelStackPages) := {slot | slot.1 ∈ m.live}

/-- All sites of the live processes and of the kernel. -/
def liveSites (m : KernelMemory) : Set Site := sites ↑m.live m.liveSlots

/-- No two sites reference one frame, and every referenced frame is marked not free. -/
structure Unshared (m : KernelMemory) : Prop where
  alone : ∀ a ∈ m.liveSites, ∀ b ∈ m.liveSites, ∀ pfn,
    m.references a = some pfn → m.references b = some pfn → a = b
  used : ∀ a ∈ m.liveSites, ∀ pfn, m.references a = some pfn →
    ∀ frame ∈ m.frameList.frames, frame.pfn = pfn → frame.isFree = false

/-- The next answers of the C library move no break. -/
def Quiet (m : KernelMemory) : Prop := ∀ answer ∈ m.library, answer.breaks = []

/-- Kernel code keeps all processes but these and all tables but these. -/
structure Spares (own written : Set Addr) (m n : KernelMemory) : Prop where
  regPtbr0 : n.regPtbr0 = m.regPtbr0
  live : n.live = m.live
  idlePCB : n.idlePCB = m.idlePCB
  r1PageTable : ∀ p ∉ own, (n.pcbs p).r1PageTable = (m.pcbs p).r1PageTable
  stackPfns : ∀ p ∉ own, (n.pcbs p).stackPfns = (m.pcbs p).stackPfns
  brk : ∀ p ∉ own, (n.pcbs p).brk = (m.pcbs p).brk
  entries : ∀ table ∉ written, ∀ i, (table = m.regPtbr0 → i + 1 < r0StackBase) →
    (n.tables table)[i]? = (m.tables table)[i]?
  quiet : m.Quiet → n.Quiet

/-- Different sites of these processes and of the kernel reference different used frames. -/
structure Sole (procs : Set Addr) (slots : Set (Addr × Fin kernelStackPages)) (m : KernelMemory) :
    Prop where
  exclusive : Exclusive (sites procs slots) m.references fun pfn => pfn ∈ m.frameList.freeNumbers
  order : FreeFirst m.frameList.frames
  kernel : ∀ p ∈ procs, (m.pcbs p).r1PageTable ≠ m.regPtbr0
  apart : ∀ p ∈ procs, ∀ q ∈ procs, (m.pcbs p).r1PageTable = (m.pcbs q).r1PageTable → p = q

variable {m n k : KernelMemory} {own written more : Set Addr}
  {procs : Set Addr} {slots : Set (Addr × Fin kernelStackPages)}

theorem unshared_iff : m.Unshared ↔ Exclusive m.liveSites m.references
    fun pfn => pfn ∈ m.frameList.freeNumbers := by
  constructor
  · rintro ⟨alone, used⟩
    refine ⟨alone, fun a inside pfn held free => ?_⟩
    obtain ⟨frame, listed, number, isFree⟩ := FrameList.mem_freeNumbers.mp free
    rw [used a inside pfn held frame listed number] at isFree
    cases isFree
  · rintro ⟨alone, used⟩
    refine ⟨alone, fun a inside pfn held frame listed number => ?_⟩
    refine (Bool.not_eq_true _).mp fun isFree => used a inside pfn held ?_
    exact FrameList.mem_freeNumbers.mpr ⟨frame, listed, number, isFree⟩

namespace Spares

theorem refl (own written : Set Addr) (m : KernelMemory) : Spares own written m m :=
  ⟨rfl, rfl, rfl, fun _ _ => rfl, fun _ _ => rfl, fun _ _ => rfl, fun _ _ _ _ => rfl, id⟩

theorem trans (first : Spares own written m k) (second : Spares own written k n) :
    Spares own written m n where
  regPtbr0 := second.regPtbr0.trans first.regPtbr0
  live := second.live.trans first.live
  idlePCB := second.idlePCB.trans first.idlePCB
  r1PageTable p other := (second.r1PageTable p other).trans (first.r1PageTable p other)
  stackPfns p other := (second.stackPfns p other).trans (first.stackPfns p other)
  brk p other := (second.brk p other).trans (first.brk p other)
  entries table other i low :=
    (second.entries table other i (by rwa [first.regPtbr0])).trans (first.entries table other i low)
  quiet quiet := second.quiet (first.quiet quiet)

theorem mono {own' written' : Set Addr} (spares : Spares own written m n) (first : own ⊆ own')
    (second : written ⊆ written') : Spares own' written' m n where
  regPtbr0 := spares.regPtbr0
  live := spares.live
  idlePCB := spares.idlePCB
  r1PageTable p other := spares.r1PageTable p fun inside => other (first inside)
  stackPfns p other := spares.stackPfns p fun inside => other (first inside)
  brk p other := spares.brk p fun inside => other (first inside)
  entries table other := spares.entries table fun inside => other (second inside)
  quiet := spares.quiet

/-- The frame list belongs to no process. -/
theorem frames (m : KernelMemory) (frames : FrameList) :
    Spares own written m { m with frameList := frames } :=
  ⟨rfl, rfl, rfl, fun _ _ => rfl, fun _ _ => rfl, fun _ _ => rfl, fun _ _ _ _ => rfl, id⟩

/-- A table that is filled anew may change. -/
theorem setTable (m : KernelMemory) (table : Addr) (entries : PageTable) :
    Spares own {table} m { m with tables := Function.update m.tables table entries } :=
  ⟨rfl, rfl, rfl, fun _ _ => rfl, fun _ _ => rfl, fun _ _ => rfl,
    fun _ other i _ => congrArg (·[i]?) (Function.update_of_ne other _ _), id⟩

/-- A change of one PCB spares all others. -/
theorem updatePcb (m : KernelMemory) (pcbp : Addr) (f : MemoryPcb → MemoryPcb) :
    Spares {pcbp} written m (m.updatePcb pcbp f) where
  regPtbr0 := rfl
  live := rfl
  idlePCB := rfl
  r1PageTable _ other := congrArg MemoryPcb.r1PageTable (Function.update_of_ne other _ _)
  stackPfns _ other := congrArg MemoryPcb.stackPfns (Function.update_of_ne other _ _)
  brk _ other := congrArg MemoryPcb.brk (Function.update_of_ne other _ _)
  entries _ _ _ _ := rfl
  quiet := id

/-- A stored entry spares all other tables. -/
theorem store {ptep : PtePtr} {pte : Pte} {tlb : Nat → Option Translation}
    {fills : List (List Nat)} {frames : FrameList} (inside : m.Holds ptep) :
    Spares own {ptep.table} m { m with
      toMmu := { m.toMmu.store ptep pte with tlb := tlb, fills := fills }
      frameList := frames } where
  regPtbr0 := rfl
  live := rfl
  idlePCB := rfl
  r1PageTable _ _ := rfl
  stackPfns _ _ := rfl
  brk _ _ := rfl
  entries table other i _ :=
    (m.toMmu.store_tables pte inside table i).trans (if_neg fun both => other both.1)
  quiet := id

/-- The sites of spared processes reference the same frames as before. -/
theorem references (spares : Spares own written m n) (spared : ∀ p ∈ procs, p ∉ own)
    (kept : ∀ slot ∈ slots, slot.1 ∉ own)
    (tables : ∀ p ∈ procs, (m.pcbs p).r1PageTable ∉ insert m.regPtbr0 written)
    (kernel : m.regPtbr0 ∉ written) {a : Site} (inside : a ∈ sites procs slots) :
    n.references a = m.references a := by
  cases a with
  | page p i =>
      obtain ⟨notKernel, away⟩ := not_or.mp (tables p inside)
      rw [KernelMemory.references, KernelMemory.references, spares.r1PageTable p (spared p inside)]
      exact PageTable.reference_congr (spares.entries _ away i fun same => absurd same notKernel)
  | slot p i =>
      rw [KernelMemory.references, KernelMemory.references, spares.stackPfns p (kept _ inside)]
  | kernelPage i =>
      rw [KernelMemory.references, KernelMemory.references, spares.regPtbr0]
      split
      · rename_i low
        exact PageTable.reference_congr (spares.entries _ kernel i fun _ => low)
      · rfl

end Spares

namespace Sole

/-- Spared processes keep what they reference while no frame becomes free. -/
theorem of_spares (sole : Sole procs slots m) (spares : Spares own written m n)
    (spared : ∀ p ∈ procs, p ∉ own) (kept : ∀ slot ∈ slots, slot.1 ∉ own)
    (tables : ∀ p ∈ procs, (m.pcbs p).r1PageTable ∉ written) (kernel : m.regPtbr0 ∉ written)
    (order : FreeFirst n.frameList.frames)
    (stays : ∀ pfn, pfn ∈ n.frameList.freeNumbers → pfn ∈ m.frameList.freeNumbers) :
    Sole procs slots n where
  exclusive := sole.exclusive.mono subset_rfl (fun _ inside => spares.references spared kept
    (fun p member => not_or.mpr ⟨sole.kernel p member, tables p member⟩) kernel inside) stays
  order := order
  kernel p member := by
    rw [spares.r1PageTable p (spared p member), spares.regPtbr0]
    exact sole.kernel p member
  apart p first q second same := by
    rw [spares.r1PageTable p (spared p first), spares.r1PageTable q (spared q second)] at same
    exact sole.apart p first q second same

/-- Fewer sites are sole too. -/
theorem mono {fewer : Set Addr} {less : Set (Addr × Fin kernelStackPages)}
    (sole : Sole procs slots m) (first : fewer ⊆ procs) (second : less ⊆ slots) :
    Sole fewer less m where
  exclusive := sole.exclusive.mono (sites_mono first second) (fun _ _ => rfl) fun _ => id
  order := sole.order
  kernel p member := sole.kernel p (first member)
  apart p member q other := sole.apart p (first member) q (first other)

/-- A store into the table of a process changes what one page references. -/
theorem references_store {p : Addr} {index : Int} (sole : Sole procs slots m) (member : p ∈ procs)
    (inside : m.Holds ⟨(m.pcbs p).r1PageTable, index⟩) (pte : Pte)
    (tlb : Nat → Option Translation) (fills : List (List Nat)) (frames : FrameList) :
    KernelMemory.references { m with
        toMmu := { m.toMmu.store ⟨(m.pcbs p).r1PageTable, index⟩ pte with tlb := tlb, fills := fills }
        frameList := frames } (.page p index.toNat) = (if pte.valid then some pte.pfn else none) ∧
      ∀ a ∈ sites procs slots, a ≠ .page p index.toNat → KernelMemory.references { m with
        toMmu := { m.toMmu.store ⟨(m.pcbs p).r1PageTable, index⟩ pte with tlb := tlb, fills := fills }
        frameList := frames } a = m.references a := by
  have stored := m.toMmu.store_tables pte inside
  refine ⟨?_, fun a here other => ?_⟩
  · exact PageTable.reference_of_getElem? ((stored _ _).trans (if_pos ⟨rfl, rfl⟩))
  · cases a with
    | page q i =>
        refine PageTable.reference_congr ((stored _ i).trans (if_neg ?_))
        rintro ⟨same, rfl⟩
        exact other (congrArg (Site.page · index.toNat) (sole.apart q here p member same))
    | slot q i => rfl
    | kernelPage i =>
        rw [KernelMemory.references, KernelMemory.references]
        split
        · refine PageTable.reference_congr ((stored _ i).trans (if_neg ?_))
          rintro ⟨same, -⟩
          exact sole.kernel p member same.symm
        · rfl

/-- A page of a process gets a frame that was free. -/
theorem mapEntry {p : Addr} {index : Int} {prot : Prot} {pfn : Nat} {frames : FrameList}
    {tlb : Nat → Option Translation} {fills : List (List Nat)} (sole : Sole procs slots m)
    (member : p ∈ procs) (inside : m.Holds ⟨(m.pcbs p).r1PageTable, index⟩)
    (got : getFrame m.frameList = (some pfn, frames)) (fed : frames.starved = false) :
    Sole procs slots { m with
      toMmu := { m.toMmu.store ⟨(m.pcbs p).r1PageTable, index⟩ ⟨true, prot, pfn⟩ with
        tlb := tlb
        fills := fills }
      frameList := frames } := by
  obtain ⟨here, others⟩ := sole.references_store member inside ⟨true, prot, pfn⟩ tlb fills frames
  obtain ⟨_, same, was, stays⟩ := getFrame_fresh got fed sole.order
  cases same
  refine ⟨(sole.exclusive.take was here others stays).mono (Set.subset_insert _ _)
    (fun _ _ => rfl) fun _ => id, getFrame_order got sole.order, sole.kernel, sole.apart⟩

/-- A page of a process gives its frame back and becomes invalid. -/
theorem unmapEntry {p : Addr} {index : Int} {pte : Pte} {tlb : Nat → Option Translation}
    {fills : List (List Nat)} (sole : Sole procs slots m) (member : p ∈ procs)
    (inside : m.Holds ⟨(m.pcbs p).r1PageTable, index⟩)
    (found : (m.tables (m.pcbs p).r1PageTable)[index.toNat]? = some pte)
    (valid : pte.valid = true) :
    Sole procs slots { m with
      toMmu := { m.toMmu.store ⟨(m.pcbs p).r1PageTable, index⟩ { pte with valid := false } with
        tlb := tlb
        fills := fills }
      frameList := freeFrame m.frameList pte.pfn } := by
  obtain ⟨here, others⟩ := sole.references_store member inside { pte with valid := false } tlb
    fills (freeFrame m.frameList pte.pfn)
  have held : m.references (.page p index.toNat) = some pte.pfn :=
    (PageTable.reference_of_getElem? found).trans (if_pos valid)
  refine ⟨sole.exclusive.give member held here others fun s free => ?_,
    freeFrame_order _ sole.order, sole.kernel, sole.apart⟩
  exact (mem_freeFrame.mp free).imp_right And.left

/-- A page keeps its frame when its entry changes only the protection. -/
theorem keepEntry {p : Addr} {index : Int} {pte old : Pte} {tlb : Nat → Option Translation}
    {fills : List (List Nat)} (sole : Sole procs slots m) (member : p ∈ procs)
    (inside : m.Holds ⟨(m.pcbs p).r1PageTable, index⟩)
    (found : (m.tables (m.pcbs p).r1PageTable)[index.toNat]? = some old)
    (valid : pte.valid = old.valid) (pfn : pte.pfn = old.pfn) :
    Sole procs slots { m with
      toMmu := { m.toMmu.store ⟨(m.pcbs p).r1PageTable, index⟩ pte with
        tlb := tlb
        fills := fills } } := by
  obtain ⟨here, others⟩ := sole.references_store member inside pte tlb fills m.frameList
  refine ⟨sole.exclusive.mono subset_rfl (fun a listed => ?_) fun _ => id, sole.order, sole.kernel,
    sole.apart⟩
  by_cases same : a = .page p index.toNat
  · subst same
    refine here.trans ?_
    rw [valid, pfn]
    exact (PageTable.reference_of_getElem? found).symm
  · exact others a listed same

/-- A slot of a kernel stack gets a frame that was free. -/
theorem takeSlot {p : Addr} {i : Fin kernelStackPages} {pfn : Nat} {frames : FrameList}
    (sole : Sole procs slots m) (got : getFrame m.frameList = (some pfn, frames))
    (fed : frames.starved = false) :
    Sole procs (insert (p, i) slots) ({ m with frameList := frames }.updatePcb p fun pcb =>
      { pcb with stackPfns := Function.update pcb.stackPfns i pfn }) := by
  obtain ⟨_, same, was, stays⟩ := getFrame_fresh got fed sole.order
  cases same
  let n := { m with frameList := frames }.updatePcb p fun pcb =>
    { pcb with stackPfns := Function.update pcb.stackPfns i pfn }
  have own : n.pcbs p = { m.pcbs p with
      stackPfns := Function.update (m.pcbs p).stackPfns i pfn } := Function.update_self _ _ _
  have rest : ∀ q, q ≠ p → n.pcbs q = m.pcbs q := fun q other => Function.update_of_ne other _ _
  have tables : ∀ q, (n.pcbs q).r1PageTable = (m.pcbs q).r1PageTable := by
    intro q
    by_cases same : q = p
    · rw [same, own]
    · rw [rest q same]
  have here : n.references (.slot p i) = some pfn := by
    rw [KernelMemory.references, own]
    exact congrArg some (Function.update_self _ _ _)
  have others : ∀ a ∈ sites procs slots, a ≠ .slot p i → n.references a = m.references a := by
    intro a _ other
    cases a with
    | page q j =>
        rw [KernelMemory.references, tables]
        rfl
    | slot q j =>
        rw [KernelMemory.references, KernelMemory.references]
        by_cases same : q = p
        · subst same
          rw [own]
          refine congrArg some (Function.update_of_ne ?_ _ _)
          exact fun equal => other (congrArg (Site.slot q) equal)
        · rw [rest q same]
    | kernelPage j => rfl
  have more : sites procs (insert (p, i) slots) ⊆ insert (.slot p i) (sites procs slots) := by
    intro a inside
    cases a with
    | page q j => exact Or.inr inside
    | slot q j =>
        rcases inside with same | inside
        · cases same
          exact Or.inl rfl
        · exact Or.inr inside
    | kernelPage j => exact Or.inr trivial
  refine ⟨(sole.exclusive.take was here others stays).mono more (fun _ _ => rfl) fun _ => id,
    getFrame_order got sole.order, fun q member => ?_, fun q first r second same => ?_⟩
  · rw [tables]
    exact sole.kernel q member
  · rw [tables, tables] at same
    exact sole.apart q first r second same

/-- The frames that no site references may be freed. -/
theorem freeUnheld {pfns : List Nat} (sole : Sole procs slots m)
    (away : ∀ pfn ∈ pfns, ∀ a ∈ sites procs slots, m.references a ≠ some pfn) :
    Sole procs slots { m with frameList := pfns.foldl freeFrame m.frameList } := by
  refine ⟨⟨sole.exclusive.alone, fun a inside pfn held free => ?_⟩,
    (FrameCalls.foldl _ _).order sole.order, sole.kernel, sole.apart⟩
  rcases mem_foldl_freeFrame.mp free with before | ⟨listed, -⟩
  · exact sole.exclusive.used a inside pfn held before
  · exact away pfn listed a inside held

end Sole

end KernelMemory

end

end Yallnix

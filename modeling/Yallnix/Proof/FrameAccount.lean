import Yallnix.ToMathlib.AccountedPlaces
import Yallnix.Proof.UnsharedFrames

namespace Yallnix

/-- A call of `getFrame` that finds a free frame takes the first one. -/
theorem getFrame_first {list next : FrameList} {found : Option Nat}
    (got : getFrame list = (found, next)) (fed : next.starved = false) :
    ∃ pfn, found = some pfn ∧ next.numbers = list.numbers ∧
      list.freeNumbers = pfn :: next.freeNumbers := by
  cases free : list.freeNumbers with
  | nil =>
      have starved := getFrame_starved list
      have full : list.frames.all (fun frame => !frame.isFree) = true := by
        refine List.all_eq_true.mpr fun frame listed => ?_
        rw [FrameList.used_of_freeNumbers free frame listed]
        rfl
      rw [got, full, Bool.or_true] at starved
      rw [starved] at fed
      cases fed
  | cons pfn rest =>
      obtain ⟨after, taken, takes, left⟩ := getFrame_takes free
      cases got.symm.trans taken
      exact ⟨pfn, rfl, takes.numbers, by rw [left]⟩

/-- An entry references a frame if and only if its page is valid. -/
theorem PageTable.reference_eq_none {table : PageTable} {i : Nat} :
    table.reference i = none ↔ table.maps i = false := by
  cases found : table[i]? with
  | none => simp [reference, maps, found]
  | some pte =>
      rw [reference_of_getElem? found, maps_of_getElem? found]
      cases pte.valid <;> simp

section
variable [Hardware]

namespace KernelMemory

variable {m n k : KernelMemory} {procs fewer : Set Addr}
  {slots less : Set (Addr × Fin kernelStackPages)} {p : Addr}

/-- These processes have tables of their own. -/
structure Tabled (procs : Set Addr) (m : KernelMemory) : Prop where
  kernel : ∀ p ∈ procs, (m.pcbs p).r1PageTable ≠ m.regPtbr0
  apart : ∀ p ∈ procs, ∀ q ∈ procs, (m.pcbs p).r1PageTable = (m.pcbs q).r1PageTable → p = q

theorem Sole.tabled (sole : Sole procs slots m) : Tabled procs m := ⟨sole.kernel, sole.apart⟩

theorem Tabled.calls (tabled : Tabled procs m) (calls : CallsFrames m n) : Tabled procs n where
  kernel p member := by
    rw [calls.tables, calls.regPtbr0]
    exact tabled.kernel p member
  apart p first q second same := by
    rw [calls.tables, calls.tables] at same
    exact tabled.apart p first q second same

theorem Tabled.leaves (tabled : Tabled procs m) (leaves : LeavesSites m n) : Tabled procs n where
  kernel p member := by
    rw [leaves.r1PageTable p (Set.notMem_empty p), leaves.regPtbr0]
    exact tabled.kernel p member
  apart p first q second same := by
    rw [leaves.r1PageTable p (Set.notMem_empty p), leaves.r1PageTable q (Set.notMem_empty q)] at same
    exact tabled.apart p first q second same

/-- Each frame is free, or one of these sites references it. -/
def Accounts (procs : Set Addr) (slots : Set (Addr × Fin kernelStackPages)) (m : KernelMemory) :
    Prop :=
  Accounted (sites procs slots) m.references (· ∈ m.frameList.numbers)
    (· ∈ m.frameList.freeNumbers)

/-- Each frame is free, or the kernel or a live process references it. -/
def AllAccounted (m : KernelMemory) : Prop := Accounts ↑m.live m.liveSlots m

namespace Accounts

/-- Spared processes keep their frames. -/
theorem of_spares {own written : Set Addr} (accounts : Accounts procs slots m)
    (tabled : Tabled procs m) (spares : Spares own written m n) (spared : ∀ p ∈ procs, p ∉ own)
    (kept : ∀ slot ∈ slots, slot.1 ∉ own)
    (tables : ∀ p ∈ procs, (m.pcbs p).r1PageTable ∉ written) (kernel : m.regPtbr0 ∉ written)
    (frames : n.frameList = m.frameList) : Accounts procs slots n := by
  rw [Accounts, frames]
  exact Accounted.mono accounts subset_rfl (fun _ inside => spares.references spared kept
    (fun p member => not_or.mpr ⟨tabled.kernel p member, tables p member⟩) kernel inside)
    fun _ => id

theorem of_leaves (accounts : Accounts procs slots m) (tabled : Tabled procs m)
    (leaves : LeavesSites m n) : Accounts procs slots n :=
  accounts.of_spares tabled leaves.toSpares (fun _ _ => Set.notMem_empty _)
    (fun _ _ => Set.notMem_empty _) (fun _ _ => Set.notMem_empty _) (Set.notMem_empty _)
    leaves.frameList

/-- The fields of a PCB that name no frame do not matter. -/
theorem updatePcb {f : MemoryPcb → MemoryPcb} (accounts : Accounts procs slots m)
    (table : (f (m.pcbs p)).r1PageTable = (m.pcbs p).r1PageTable)
    (stack : (f (m.pcbs p)).stackPfns = (m.pcbs p).stackPfns) :
    Accounts procs slots (m.updatePcb p f) := by
  refine Accounted.mono accounts subset_rfl (fun a _ => ?_) fun _ => id
  cases a with
  | page q i =>
      rw [KernelMemory.references, (SameSpaces.updatePcb m p table).tables, KernelMemory.references]
      rfl
  | slot q i =>
      rw [KernelMemory.references, KernelMemory.references]
      by_cases same : q = p
      · subst same
        simp only [KernelMemory.updatePcb, Function.update_self, stack]
      · simp only [KernelMemory.updatePcb, Function.update_of_ne same]
  | kernelPage i => rfl

/-- A store into the table of a process gives the old frame back and takes the new one. -/
theorem store {index : Int} {pte : Pte} {frames : FrameList} {tlb : Nat → Option Translation}
    {fills : List (List Nat)} (accounts : Accounts procs slots m) (tabled : Tabled procs m)
    (member : p ∈ procs) (inside : m.Holds ⟨(m.pcbs p).r1PageTable, index⟩)
    (numbers : frames.numbers = m.frameList.numbers)
    (stays : ∀ pfn ∈ m.frameList.freeNumbers,
      pfn ∈ frames.freeNumbers ∨ pte.valid = true ∧ pte.pfn = pfn)
    (gives : ∀ pfn ∈ m.frameList.numbers, m.references (.page p index.toNat) = some pfn →
      pfn ∈ frames.freeNumbers ∨ pte.valid = true ∧ pte.pfn = pfn) :
    Accounts procs slots { m with
      toMmu := { m.toMmu.store ⟨(m.pcbs p).r1PageTable, index⟩ pte with tlb := tlb, fills := fills }
      frameList := frames } := by
  have stored := m.toMmu.store_tables pte inside
  have here : KernelMemory.references { m with
      toMmu := { m.toMmu.store ⟨(m.pcbs p).r1PageTable, index⟩ pte with tlb := tlb, fills := fills }
      frameList := frames } (.page p index.toNat) = if pte.valid then some pte.pfn else none :=
    PageTable.reference_of_getElem? ((stored _ _).trans (if_pos ⟨rfl, rfl⟩))
  have holds : ∀ pfn, pfn ∈ frames.freeNumbers ∨ pte.valid = true ∧ pte.pfn = pfn →
      pfn ∈ frames.freeNumbers ∨ KernelMemory.references { m with
        toMmu := { m.toMmu.store ⟨(m.pcbs p).r1PageTable, index⟩ pte with tlb := tlb, fills := fills }
        frameList := frames } (.page p index.toNat) = some pfn := by
    rintro pfn (free | ⟨valid, rfl⟩)
    · exact Or.inl free
    · exact Or.inr (here.trans (if_pos valid))
  rw [Accounts, numbers]
  refine Accounted.change accounts (a := .page p index.toNat) member (fun a listed other => ?_)
    (fun pfn free => holds pfn (stays pfn free))
    fun _ pfn known held => holds pfn (gives pfn known held)
  refine ⟨listed, ?_⟩
  cases a with
  | page q i =>
      refine PageTable.reference_congr ((stored _ i).trans (if_neg ?_))
      rintro ⟨same, rfl⟩
      exact other (congrArg (Site.page · index.toNat) (tabled.apart q listed p member same))
  | slot q i => rfl
  | kernelPage i =>
      rw [KernelMemory.references, KernelMemory.references]
      split
      · refine PageTable.reference_congr ((stored _ i).trans (if_neg ?_))
        rintro ⟨same, -⟩
        exact tabled.kernel p member same.symm
      · rfl

/-- An invalid page of a process gets the first free frame. -/
theorem mapEntry {index : Int} {prot : Prot} {pfn : Nat} {frames : FrameList}
    {tlb : Nat → Option Translation} {fills : List (List Nat)}
    (accounts : Accounts procs slots m) (tabled : Tabled procs m) (member : p ∈ procs)
    (inside : m.Holds ⟨(m.pcbs p).r1PageTable, index⟩)
    (invalid : (m.tables (m.pcbs p).r1PageTable).maps index.toNat = false)
    (got : getFrame m.frameList = (some pfn, frames)) (fed : frames.starved = false) :
    Accounts procs slots { m with
      toMmu := { m.toMmu.store ⟨(m.pcbs p).r1PageTable, index⟩ ⟨true, prot, pfn⟩ with
        tlb := tlb
        fills := fills }
      frameList := frames } := by
  obtain ⟨_, same, numbers, free⟩ := getFrame_first got fed
  cases same
  refine accounts.store tabled member inside numbers (fun other listed => ?_)
    fun other _ held => ?_
  · rw [free] at listed
    rcases List.mem_cons.mp listed with rfl | listed
    · exact Or.inr ⟨rfl, rfl⟩
    · exact Or.inl listed
  · rw [KernelMemory.references, PageTable.reference_eq_none.mpr invalid] at held
    cases held

/-- A page of a process gives its frame back. -/
theorem unmapEntry {index : Int} {pte : Pte} {tlb : Nat → Option Translation}
    {fills : List (List Nat)} (accounts : Accounts procs slots m) (tabled : Tabled procs m)
    (member : p ∈ procs) (inside : m.Holds ⟨(m.pcbs p).r1PageTable, index⟩)
    (found : (m.tables (m.pcbs p).r1PageTable)[index.toNat]? = some pte) :
    Accounts procs slots { m with
      toMmu := { m.toMmu.store ⟨(m.pcbs p).r1PageTable, index⟩ { pte with valid := false } with
        tlb := tlb
        fills := fills }
      frameList := freeFrame m.frameList pte.pfn } := by
  refine accounts.store tabled member inside (freeFrame_numbers _ _)
    (fun other listed => Or.inl (mem_freeFrame.mpr (Or.inl listed))) fun other known held => ?_
  rw [KernelMemory.references, PageTable.reference_of_getElem? found] at held
  split at held
  · cases held
    exact Or.inl (mem_freeFrame.mpr (Or.inr ⟨rfl, known⟩))
  · cases held

/-- A page keeps its frame when its entry changes only the protection. -/
theorem keepEntry {index : Int} {pte : Pte} {prot : Prot} {tlb : Nat → Option Translation}
    {fills : List (List Nat)} (accounts : Accounts procs slots m) (tabled : Tabled procs m)
    (member : p ∈ procs) (inside : m.Holds ⟨(m.pcbs p).r1PageTable, index⟩)
    (found : (m.tables (m.pcbs p).r1PageTable)[index.toNat]? = some pte) :
    Accounts procs slots { m with
      toMmu := { m.toMmu.store ⟨(m.pcbs p).r1PageTable, index⟩ { pte with prot := prot } with
        tlb := tlb
        fills := fills } } := by
  refine accounts.store tabled member inside rfl (fun other => Or.inl) fun other _ held => ?_
  rw [KernelMemory.references, PageTable.reference_of_getElem? found] at held
  split at held
  · rename_i valid
    exact Or.inr ⟨valid, Option.some.inj held⟩
  · cases held

end Accounts

end KernelMemory

end

end Yallnix

import Yallnix.Construction.ForkBuild
import Yallnix.Proof.HeapGrowth
import Yallnix.Proof.StackMemory

namespace Yallnix

/-- The frames that the valid entries name. -/
def PageTable.heldPages (table : PageTable) : List Nat := (table.filter Pte.valid).map Pte.pfn

theorem heldPages_cons (pte : Pte) (table : PageTable) :
    PageTable.heldPages (pte :: table) =
      if pte.valid then pte.pfn :: PageTable.heldPages table else PageTable.heldPages table := by
  unfold PageTable.heldPages
  cases valid : pte.valid <;> simp [valid]

theorem drop_of_getElem? {table : PageTable} {index : Nat} {pte : Pte}
    (found : table[index]? = some pte) : table.drop index = pte :: table.drop (index + 1) := by
  obtain ⟨inside, rfl⟩ := List.getElem?_eq_some_iff.mp found
  exact List.drop_eq_getElem_cons inside

section
variable [Hardware]

namespace KernelMemory

variable {memory : ProcessMemory} {m n k : KernelMemory} {pfns more : List Nat} {need : Nat}

/-- The kernel takes these frames for a child and keeps what belongs to others. -/
structure Builds (memory : ProcessMemory) (pfns : List Nat) (m n : KernelMemory) : Prop where
  regPtbr0 : n.regPtbr0 = m.regPtbr0
  regPtbr1 : n.regPtbr1 = m.regPtbr1
  currPCB : n.currPCB = m.currPCB
  live : n.live = m.live
  pcbs : ∀ p, p ≠ memory.pcb → n.pcbs p = m.pcbs p
  tables : ∀ table, table ≠ memory.r1PageTable → table ≠ m.regPtbr0 → n.tables table = m.tables table
  frames : Takes pfns m.frameList n.frameList
  pages : ∀ pfn ∉ pfns, n.pages pfn = m.pages pfn

namespace Builds

theorem trans (first : Builds memory pfns m k) (second : Builds memory more k n) :
    Builds memory (pfns ++ more) m n where
  regPtbr0 := second.regPtbr0.trans first.regPtbr0
  regPtbr1 := second.regPtbr1.trans first.regPtbr1
  currPCB := second.currPCB.trans first.currPCB
  live := second.live.trans first.live
  pcbs p other := (second.pcbs p other).trans (first.pcbs p other)
  tables table other away :=
    (second.tables table other (by rwa [first.regPtbr0])).trans (first.tables table other away)
  frames := first.frames.trans second.frames
  pages pfn away := by
    rw [List.mem_append, not_or] at away
    exact (second.pages pfn away.2).trans (first.pages pfn away.1)

theorem refl (m : KernelMemory) : Builds memory [] m m :=
  ⟨rfl, rfl, rfl, rfl, fun _ _ => rfl, fun _ _ _ => rfl, .refl _, fun _ _ => rfl⟩

end Builds

theorem Grows.table {table : Addr} (grows : Grows m n) (away : table ≠ m.regPtbr0) :
    n.tables table = m.tables table :=
  List.ext_getElem? fun i => grows.entries table i fun same => absurd same away

theorem Grows.builds (grows : Grows m n) : Builds memory [] m n where
  regPtbr0 := grows.regPtbr0
  regPtbr1 := grows.regPtbr1
  currPCB := by
    obtain ⟨_, _, _, _, _, rfl⟩ := grows.rest
    rfl
  live := by
    obtain ⟨_, _, _, _, _, rfl⟩ := grows.rest
    rfl
  pcbs p _ := by
    obtain ⟨_, _, _, _, _, rfl⟩ := grows.rest
    rfl
  tables _ _ away := grows.table away
  frames := grows.frames
  pages pfn _ := by
    obtain ⟨_, _, _, _, _, rfl⟩ := grows.rest
    rfl

/-- The parent runs, its valid pages are readable, and none of their frames is free. -/
@[mk_iff] structure Forkable (memory : ProcessMemory) (m : KernelMemory) : Prop where
  pcb : memory.pcb ≠ m.currPCB
  register : m.regPtbr1 = m.curr.r1PageTable
  parentNotKernel : m.curr.r1PageTable ≠ m.regPtbr0
  childNotKernel : memory.r1PageTable ≠ m.regPtbr0
  childNotParent : memory.r1PageTable ≠ m.curr.r1PageTable
  length : (m.tables m.curr.r1PageTable).length = maxPtLen
  readable : ∀ pte ∈ m.tables m.curr.r1PageTable, pte.valid = true → pte.prot.read = true
  numbers : m.frameList.numbers.Nodup
  used : ∀ pte ∈ m.tables m.curr.r1PageTable, pte.valid = true →
    pte.pfn ∉ m.frameList.freeNumbers

instance (memory : ProcessMemory) (m : KernelMemory) : Decidable (m.Forkable memory) :=
  decidable_of_iff _ (forkable_iff memory m).symm

/-- The entry of the child maps a copy of the page of the parent. -/
def CopyOf (m n : KernelMemory) (pte pte' : Pte) : Prop :=
  pte'.valid = pte.valid ∧
    (pte.valid = true → pte'.prot = pte.prot ∧ n.pages pte'.pfn = m.pages pte.pfn)

theorem Builds.curr (builds : Builds memory pfns m n) (forkable : m.Forkable memory) :
    n.curr = m.curr := by
  rw [KernelMemory.curr, builds.currPCB]
  exact builds.pcbs _ forkable.pcb.symm

theorem Builds.parent (builds : Builds memory pfns m n) (forkable : m.Forkable memory) :
    n.tables n.curr.r1PageTable = m.tables m.curr.r1PageTable := by
  rw [builds.curr forkable]
  exact builds.tables _ forkable.childNotParent.symm forkable.parentNotKernel

/-- The parent can still be copied after each step. -/
theorem Builds.forkable (builds : Builds memory pfns m n) (forkable : m.Forkable memory) :
    n.Forkable memory where
  pcb := by
    rw [builds.currPCB]
    exact forkable.pcb
  register := by
    rw [builds.regPtbr1, builds.curr forkable]
    exact forkable.register
  parentNotKernel := by
    rw [builds.curr forkable, builds.regPtbr0]
    exact forkable.parentNotKernel
  childNotKernel := by
    rw [builds.regPtbr0]
    exact forkable.childNotKernel
  childNotParent := by
    rw [builds.curr forkable]
    exact forkable.childNotParent
  length := by
    rw [builds.parent forkable]
    exact forkable.length
  readable := by
    rw [builds.parent forkable]
    exact forkable.readable
  numbers := by
    rw [builds.frames.numbers]
    exact forkable.numbers
  used pte listed valid free := by
    rw [builds.parent forkable] at listed
    exact forkable.used pte listed valid (builds.frames.free free)

theorem tempPtep_eq (positive : 0 < r0StackBase) : m.tempPtep = pagePtep m.regPtbr0 0 tempIndex := by
  simp only [tempPtep, pagePtep, tempIndex, PtePtr.mk.injEq, true_and]
  omega

theorem tempIndex_lt (positive : 0 < r0StackBase) : tempIndex < maxPtLen := by
  unfold tempIndex r0StackBase at *
  omega

/-- The temporary entry can be written. -/
theorem setTemp_ok (positive : 0 < r0StackBase) (temp : tempIndex < (m.tables m.regPtbr0).length)
    (pte : Pte) : ∃ tlb fills written, m.setPageTableEntry m.tempPtep pte = .ok { m with
      tables := Function.update m.tables m.regPtbr0 ((m.tables m.regPtbr0).set tempIndex pte)
      tlb := tlb
      fills := fills
      written := written } := by
  have index : (pagePtep m.regPtbr0 0 tempIndex).index.toNat = tempIndex := by
    simp only [pagePtep]
    omega
  rw [tempPtep_eq positive]
  obtain ⟨addr, named⟩ := named_page (m := m) (tempIndex_lt positive)
  obtain ⟨n, wrote⟩ := setPageTableEntry_ok (holds_page (le_refl tempIndex) temp) named pte
  obtain ⟨-, tlb, fills, rfl⟩ := setPageTableEntry_eq_ok wrote
  rw [Mmu.store, index] at wrote
  exact ⟨tlb, fills, _, wrote⟩

/-- The tables after one turn of the loop in `KernelFork`. -/
def turnTables (childTable : Addr) (index pfn : Nat) (prot : Prot) (m : KernelMemory) :
    Addr → PageTable :=
  let tables := Function.update m.tables m.regPtbr0
    ((m.tables m.regPtbr0).set tempIndex ⟨true, protWrite, pfn⟩)
  Function.update tables childTable ((tables childTable).set index ⟨true, prot, pfn⟩)

theorem turnTables_child {childTable : Addr} {index pfn : Nat} {prot : Prot}
    (away : childTable ≠ m.regPtbr0) : m.turnTables childTable index pfn prot childTable =
      (m.tables childTable).set index ⟨true, prot, pfn⟩ := by
  dsimp only [turnTables]
  rw [Function.update_self, Function.update_of_ne away]

theorem turnTables_other {childTable table : Addr} {index pfn : Nat} {prot : Prot}
    (notChild : table ≠ childTable) (away : table ≠ m.regPtbr0) :
    m.turnTables childTable index pfn prot table = m.tables table := by
  dsimp only [turnTables]
  rw [Function.update_of_ne notChild, Function.update_of_ne away]

theorem turnTables_length (childTable table : Addr) (index pfn : Nat) (prot : Prot) :
    (m.turnTables childTable index pfn prot table).length = (m.tables table).length := by
  dsimp only [turnTables]
  by_cases child : table = childTable
  · rw [child, Function.update_self, List.length_set]
    by_cases kernel : childTable = m.regPtbr0
    · rw [kernel, Function.update_self, List.length_set]
    · rw [Function.update_of_ne kernel]
  · rw [Function.update_of_ne child]
    by_cases kernel : table = m.regPtbr0
    · rw [kernel, Function.update_self, List.length_set]
    · rw [Function.update_of_ne kernel]

/-- One turn of the loop copies one page into a new frame and gives the frame to the child. -/
theorem copyTurn_ok {index : Nat} {pte : Pte} (pfn : Nat) (frames : FrameList)
    (positive : 0 < r0StackBase) (forkable : m.Forkable memory)
    (temp : tempIndex < (m.tables m.regPtbr0).length)
    (inside : index < (m.tables memory.r1PageTable).length)
    (found : (m.tables m.curr.r1PageTable)[index]? = some pte) (valid : pte.valid = true) :
    ∃ k₁ k₂ tlb fills written,
      ({ m with frameList := frames } : KernelMemory).setPageTableEntry m.tempPtep
        ⟨true, protWrite, pfn⟩ = .ok k₁ ∧
      k₁.copyPage tempIndex (maxPtLen + index) = .ok k₂ ∧
      k₂.setPageTableEntryNoFlush ⟨memory.r1PageTable, index⟩ ⟨true, pte.prot, pfn⟩ = .ok { m with
        tables := m.turnTables memory.r1PageTable index pfn pte.prot
        tlb := tlb
        fills := fills
        written := written
        frameList := frames
        pages := Function.update m.pages pfn (m.pages pte.pfn) } := by
  have low : index < maxPtLen := by
    rw [← forkable.length]
    exact (List.getElem?_eq_some_iff.mp found).1
  obtain ⟨tlb, fills, written, wroteTemp⟩ := setTemp_ok (m := { m with frameList := frames })
    positive temp ⟨true, protWrite, pfn⟩
  let k₁ : KernelMemory := { m with
    frameList := frames
    tables := Function.update m.tables m.regPtbr0
      ((m.tables m.regPtbr0).set tempIndex ⟨true, protWrite, pfn⟩)
    tlb := tlb
    fills := fills
    written := written }
  have source : k₁.entryOf (maxPtLen + index) = some pte := by
    rw [Mmu.entryOf, if_neg (by omega), if_pos (by omega), Nat.add_sub_cancel_left]
    change (Function.update m.tables m.regPtbr0 _ m.regPtbr1)[index]? = some pte
    rw [forkable.register, Function.update_of_ne forkable.parentNotKernel, found]
  have target : k₁.entryOf tempIndex = some ⟨true, protWrite, pfn⟩ := by
    rw [Mmu.entryOf, if_pos (tempIndex_lt positive)]
    change (Function.update m.tables m.regPtbr0 _ m.regPtbr0)[tempIndex]? = _
    rw [Function.update_self, List.getElem?_set_self temp]
  have copied : k₁.copyPage tempIndex (maxPtLen + index) =
      .ok { k₁ with pages := Function.update m.pages pfn (m.pages pte.pfn) } := by
    have readable := forkable.readable pte (List.mem_of_getElem? found) valid
    have read : k₁.readPage (maxPtLen + index) = .ok (m.pages pte.pfn) := by
      rw [readPage, source]
      dsimp only
      rw [valid, readable]
      rfl
    rw [copyPage, read, Outcome.ok_bind, writePage, target]
    rfl
  let k₂ : KernelMemory := { k₁ with pages := Function.update m.pages pfn (m.pages pte.pfn) }
  have holds : k₂.Holds ⟨memory.r1PageTable, index⟩ := by
    refine ⟨Int.natCast_nonneg _, ?_⟩
    change index < (Function.update m.tables m.regPtbr0 _ memory.r1PageTable).length
    rw [Function.update_of_ne forkable.childNotKernel]
    exact inside
  obtain ⟨n, wrote⟩ := setPageTableEntryNoFlush_ok holds ⟨true, pte.prot, pfn⟩
  obtain ⟨-, tlb', fills', rfl⟩ := setPageTableEntryNoFlush_eq_ok wrote
  exact ⟨k₁, k₂, tlb', fills', _, wroteTemp, copied, wrote⟩

/-- The loop copies the pages from one index on into these frames. -/
structure CopiesFrom (memory : ProcessMemory) (index : Nat) (pfns : List Nat)
    (m n : KernelMemory) : Prop extends Builds memory pfns m n where
  rest : ∃ tables tlb fills written frames pages, n = { m with
    tables := tables
    tlb := tlb
    fills := fills
    written := written
    frameList := frames
    pages := pages }
  lengths : ∀ table, (n.tables table).length = (m.tables table).length
  before : ∀ i < index, (n.tables memory.r1PageTable)[i]? = (m.tables memory.r1PageTable)[i]?
  copied : ∀ i, index ≤ i → ∀ pte, (m.tables m.curr.r1PageTable)[i]? = some pte →
    ∃ pte', (n.tables memory.r1PageTable)[i]? = some pte' ∧ CopyOf m n pte pte'
  held : PageTable.heldPages ((n.tables memory.r1PageTable).drop index) = pfns
  count : pfns.length = (PageTable.heldPages ((m.tables m.curr.r1PageTable).drop index)).length
  left : n.frameList.freeNumbers.length + pfns.length = m.frameList.freeNumbers.length

/-- A turn at an invalid entry changes nothing. -/
theorem CopiesFrom.skip {index : Nat} {pte old : Pte}
    (found : (m.tables m.curr.r1PageTable)[index]? = some pte) (invalid : pte.valid = false)
    (here : (m.tables memory.r1PageTable)[index]? = some old) (fresh : old.valid = false)
    (rest : CopiesFrom memory (index + 1) pfns m n) : CopiesFrom memory index pfns m n where
  toBuilds := rest.toBuilds
  rest := rest.rest
  lengths := rest.lengths
  before i low := rest.before i (by omega)
  copied i high pte' found' := by
    by_cases later : index + 1 ≤ i
    · exact rest.copied i later pte' found'
    · obtain rfl : i = index := by omega
      obtain rfl : pte = pte' := Option.some.inj (found.symm.trans found')
      refine ⟨old, (rest.before i (by omega)).trans here, fresh.trans invalid.symm, fun valid => ?_⟩
      rw [invalid] at valid
      cases valid
  held := by
    rw [drop_of_getElem? ((rest.before index (by omega)).trans here), heldPages_cons, fresh,
      if_neg Bool.false_ne_true]
    exact rest.held
  count := by
    rw [drop_of_getElem? found, heldPages_cons, invalid, if_neg Bool.false_ne_true]
    exact rest.count
  left := rest.left

/-- A turn at a valid entry takes one frame for the child. -/
theorem turn_builds {pfn : Nat} {frames : FrameList} (memory : ProcessMemory) (index : Nat)
    (prot : Prot) (page : Page)
    (tlb : Nat → Option Translation) (fills : List (List Nat)) (written : List PtePtr)
    (takes : Takes [pfn] m.frameList frames) : Builds memory [pfn] m { m with
      tables := m.turnTables memory.r1PageTable index pfn prot
      tlb := tlb
      fills := fills
      written := written
      frameList := frames
      pages := Function.update m.pages pfn page } where
  regPtbr0 := rfl
  regPtbr1 := rfl
  currPCB := rfl
  live := rfl
  pcbs _ _ := rfl
  tables _ notChild away := turnTables_other notChild away
  frames := takes
  pages _ away := Function.update_of_ne (fun same => away (List.mem_singleton.mpr same)) _ _

/-- A turn at a valid entry comes before the turns at the later entries. -/
theorem CopiesFrom.turn {index pfn : Nat} {pte : Pte}
    (forkable : m.Forkable memory) (inside : index < (m.tables memory.r1PageTable).length)
    (found : (m.tables m.curr.r1PageTable)[index]? = some pte) (valid : pte.valid = true)
    (turn : Builds memory [pfn] m k)
    (same : ∃ tables tlb fills written frames pages, k = { m with
      tables := tables
      tlb := tlb
      fills := fills
      written := written
      frameList := frames
      pages := pages })
    (table : k.tables = m.turnTables memory.r1PageTable index pfn pte.prot)
    (page : k.pages pfn = m.pages pte.pfn)
    (left : k.frameList.freeNumbers.length + 1 = m.frameList.freeNumbers.length)
    (rest : CopiesFrom memory (index + 1) pfns k n) :
    CopiesFrom memory index (pfn :: pfns) m n where
  toBuilds := turn.trans rest.toBuilds
  rest := by
    obtain ⟨_, _, _, _, _, _, rfl⟩ := same
    obtain ⟨tables, tlb, fills, written, frames, pages, rfl⟩ := rest.rest
    exact ⟨tables, tlb, fills, written, frames, pages, rfl⟩
  lengths _ := by
    rw [rest.lengths, table, turnTables_length]
  before i low := by
    rw [rest.before i (by omega), table, turnTables_child forkable.childNotKernel,
      List.getElem?_set_ne (by omega)]
  copied i high pte' found' := by
    have parent := turn.parent forkable
    by_cases later : index + 1 ≤ i
    · obtain ⟨entry, there, same, copy⟩ := rest.copied i later pte' (by rwa [parent])
      refine ⟨entry, there, same, fun valid' => ?_⟩
      obtain ⟨prot, contents⟩ := copy valid'
      refine ⟨prot, contents.trans (turn.pages _ fun taken => ?_)⟩
      refine forkable.used pte' (List.mem_of_getElem? found') valid' ?_
      exact turn.frames.order.subset (List.mem_append_left _ taken)
    · obtain rfl : i = index := by omega
      obtain rfl : pte = pte' := Option.some.inj (found.symm.trans found')
      refine ⟨⟨true, pte.prot, pfn⟩, ?_, valid.symm, fun _ => ⟨rfl, ?_⟩⟩
      · rw [rest.before i (by omega), table, turnTables_child forkable.childNotKernel,
          List.getElem?_set_self inside]
      · refine (rest.pages pfn fun again => ?_).trans page
        have taken := turn.frames.taken forkable.numbers List.mem_cons_self
        exact taken.2 (rest.frames.order.subset (List.mem_append_left _ again))
  held := by
    have here : (n.tables memory.r1PageTable)[index]? = some ⟨true, pte.prot, pfn⟩ := by
      rw [rest.before index (by omega), table, turnTables_child forkable.childNotKernel,
        List.getElem?_set_self inside]
    rw [drop_of_getElem? here, heldPages_cons, if_pos rfl, rest.held]
  count := by
    rw [drop_of_getElem? found, heldPages_cons, if_pos valid, List.length_cons, List.length_cons,
      rest.count, turn.parent forkable]
  left := by
    rw [List.length_cons, ← left, ← rest.left]
    omega

/-- With enough free frames the loop copies all pages from one index on. -/
theorem copyPages_copies {count index : Nat} (positive : 0 < r0StackBase)
    (forkable : m.Forkable memory) (temp : tempIndex < (m.tables m.regPtbr0).length)
    (length : (m.tables memory.r1PageTable).length = maxPtLen)
    (all : index + count = maxPtLen)
    (fresh : ∀ pte ∈ (m.tables memory.r1PageTable).drop index, pte.valid = false)
    (enough : (PageTable.heldPages ((m.tables m.curr.r1PageTable).drop index)).length ≤
      m.frameList.freeNumbers.length) :
    ∃ n pfns, m.copyPages m.curr.r1PageTable memory.r1PageTable count index = .ok (true, n) ∧
      CopiesFrom memory index pfns m n := by
  induction count generalizing m index with
  | zero =>
      have ended : ∀ {table : PageTable}, table.length = maxPtLen → table.drop index = [] :=
        fun same => List.drop_eq_nil_of_le (by omega)
      refine ⟨m, [], rfl, Builds.refl m, ⟨_, _, _, _, _, _, rfl⟩, fun _ => rfl, fun _ _ => rfl,
        fun i high pte found => ?_, ?_, ?_, rfl⟩
      · have inside := (List.getElem?_eq_some_iff.mp found).1
        rw [forkable.length] at inside
        omega
      · rw [ended length]
        rfl
      · rw [ended forkable.length]
        rfl
  | succ count ih =>
      have inside : index < (m.tables memory.r1PageTable).length := by omega
      obtain ⟨pte, found⟩ : ∃ pte, (m.tables m.curr.r1PageTable)[index]? = some pte :=
        ⟨_, List.getElem?_eq_getElem (by rw [forkable.length]; omega)⟩
      obtain ⟨old, here⟩ : ∃ old, (m.tables memory.r1PageTable)[index]? = some old :=
        ⟨_, List.getElem?_eq_getElem inside⟩
      have next : index + 1 + count = maxPtLen := by omega
      have read : readEntry (m.tables m.curr.r1PageTable) index = .ok pte :=
        readEntry_eq_ok.mpr ⟨Int.natCast_nonneg _, found⟩
      rw [drop_of_getElem? here] at fresh
      have later : ∀ pte ∈ (m.tables memory.r1PageTable).drop (index + 1), pte.valid = false :=
        fun pte listed => fresh pte (List.mem_cons_of_mem _ listed)
      rw [drop_of_getElem? found, heldPages_cons] at enough
      rw [copyPages, read, Outcome.ok_bind]
      cases valid : pte.valid with
      | false =>
          rw [valid, if_neg Bool.false_ne_true] at enough
          obtain ⟨n, pfns, copied, rest⟩ := ih forkable temp length next later enough
          exact ⟨n, pfns, copied, rest.skip found valid here (fresh old List.mem_cons_self)⟩
      | true =>
          rw [valid, if_pos rfl, List.length_cons] at enough
          obtain ⟨pfn, free, numbers⟩ := List.exists_cons_of_length_pos (Nat.lt_of_lt_of_le
            (Nat.succ_pos _) enough)
          obtain ⟨frames, took, takes, left⟩ := getFrame_takes numbers
          obtain ⟨k₁, k₂, tlb, fills, written, wroteTemp, copy, wrote⟩ :=
            copyTurn_ok pfn frames positive forkable temp inside found valid
          have turn := turn_builds memory index pte.prot (m.pages pte.pfn) tlb fills
            written takes
          have child : m.turnTables memory.r1PageTable index pfn pte.prot memory.r1PageTable = _ :=
            turnTables_child forkable.childNotKernel
          obtain ⟨n, pfns, copied, rest⟩ := ih (turn.forkable forkable)
            (temp.trans_eq (turnTables_length _ _ _ _ _).symm)
            ((turnTables_length _ _ _ _ _).trans length) next
            (fun pte listed => later pte (by
              have dropped := congrArg (List.drop (index + 1)) child
              rw [List.drop_set_of_lt (Nat.lt_succ_self index)] at dropped
              exact dropped ▸ listed))
            (by
              rw [turn.parent forkable]
              change _ ≤ frames.freeNumbers.length
              rw [left]
              rw [numbers, List.length_cons] at enough
              omega)
          refine ⟨n, pfn :: pfns, ?_, rest.turn forkable inside found valid turn
            ⟨_, _, _, _, _, _, rfl⟩ rfl (Function.update_self _ _ _) ?_⟩
          · rw [if_neg (by decide), took]
            dsimp only
            rw [wroteTemp, Outcome.ok_bind, copy, Outcome.ok_bind, wrote, Outcome.ok_bind]
            exact copied
          · rw [numbers, List.length_cons]
            exact congrArg (·.length + 1) left

end KernelMemory

end

end Yallnix

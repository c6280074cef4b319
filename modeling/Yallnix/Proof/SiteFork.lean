import Yallnix.Proof.SiteCalls

namespace Yallnix

section
variable [Hardware]

namespace KernelMemory

variable {m n k : KernelMemory} {procs own : Set Addr} {slots : Set (Addr × Fin kernelStackPages)}
  {p : Addr} {memory : ProcessMemory}

/-- A process with an empty table joins. -/
theorem Sole.join (sole : Sole procs slots m)
    (empty : ∀ i, (m.tables (m.pcbs p).r1PageTable).reference i = none)
    (kernel : (m.pcbs p).r1PageTable ≠ m.regPtbr0)
    (apart : ∀ q ∈ procs, (m.pcbs q).r1PageTable ≠ (m.pcbs p).r1PageTable) :
    Sole (insert p procs) slots m where
  exclusive := by
    have joined := sole.exclusive.join (fun (a : Site) (inside : a ∈ Set.range (Site.page p)) => by
      obtain ⟨i, rfl⟩ := inside
      exact empty i)
    refine joined.mono (fun a inside => ?_) (fun _ _ => rfl) fun _ => id
    cases a with
    | page q i =>
        rcases inside with rfl | inside
        · exact Or.inr ⟨i, rfl⟩
        · exact Or.inl inside
    | slot q i => exact Or.inl inside
    | kernelPage i => exact Or.inl trivial
  order := sole.order
  kernel q member := by
    rcases member with rfl | member
    · exact kernel
    · exact sole.kernel q member
  apart q first r second same := by
    rcases first with rfl | first
    · rcases second with rfl | second
      · rfl
      · exact absurd same.symm (apart r second)
    · rcases second with rfl | second
      · exact absurd same (apart q first)
      · exact sole.apart q first r second same

/-- The loop of `initPCB` fills the slots of the new process. -/
theorem Sole.takeStackFrames {list : List (Fin kernelStackPages)} {taken : Bool}
    (sole : Sole procs slots m) (done : m.takeStackFrames p list = (taken, n))
    (fed : n.frameList.starved = false) : taken = true ∧
      Reworks {p} p procs (slots ∪ {slot | slot.1 = p ∧ slot.2 ∈ list}) m n := by
  induction list generalizing m slots with
  | nil =>
      cases done
      refine ⟨rfl, .refl _ _ _, rfl, sole.mono subset_rfl ?_⟩
      exact Set.union_subset subset_rfl fun slot inside => absurd inside.2 List.not_mem_nil
  | cons i rest ih =>
      rw [KernelMemory.takeStackFrames] at done
      split at done
      · rename_i frames got
        cases done
        rw [getFrame_starves got] at fed
        cases fed
      · rename_i pfn frames got
        have calls := CallsFrames.steady.takeStackFrames done
        let k := { m with frameList := frames }.updatePcb p fun pcb =>
          { pcb with stackPfns := Function.update pcb.stackPfns i pfn }
        have first : Reworks {p} p procs (insert (p, i) slots) m k :=
          ⟨(Spares.frames m frames).trans (.updatePcb _ p _),
            (SameSpaces.updatePcb { m with frameList := frames } p rfl).tables p,
            sole.takeSlot got (calls.fed fed)⟩
        obtain ⟨all, works⟩ := ih first.sole done
        have later := first.trans works
        refine ⟨all, later.toSpares, later.table, later.sole.mono subset_rfl ?_⟩
        rintro ⟨q, j⟩ (inside | ⟨same, listed⟩)
        · exact Or.inl (Or.inr inside)
        · dsimp only at same listed
          subst same
          rcases List.mem_cons.mp listed with rfl | listed
          · exact Or.inl (Or.inl rfl)
          · exact Or.inr ⟨rfl, listed⟩

/-- A process is new among these processes and owns this table. -/
structure Joins (memory : ProcessMemory) (procs : Set Addr)
    (slots : Set (Addr × Fin kernelStackPages)) (m n : KernelMemory) : Prop
    extends Spares {memory.pcb} {memory.r1PageTable} m n where
  own : (n.pcbs memory.pcb).r1PageTable = memory.r1PageTable
  sole : Sole procs slots n

/-- The kernel works for the new process. -/
theorem Joins.works {before : Set Addr} {held : Set (Addr × Fin kernelStackPages)}
    (joins : Joins memory before held m k)
    (works : Reworks {memory.pcb} memory.pcb procs slots k n) : Joins memory procs slots m n := by
  have spares := works.toSpares
  rw [joins.own] at spares
  exact ⟨joins.toSpares.trans spares, works.table.trans joins.own, works.sole⟩

/-- `malloc` gives memory that belongs to no process. -/
structure Unclaimed (memory : ProcessMemory) (procs : Set Addr)
    (slots : Set (Addr × Fin kernelStackPages)) (m : KernelMemory) : Prop where
  pcb : memory.pcb ∉ procs
  stack : ∀ slot ∈ slots, slot.1 ≠ memory.pcb
  kernel : memory.r1PageTable ≠ m.regPtbr0
  apart : ∀ q ∈ procs, (m.pcbs q).r1PageTable ≠ memory.r1PageTable

/-- A new PCB with an empty table joins the processes. -/
theorem Sole.newPcb (sole : Sole procs slots m) (unclaimed : Unclaimed memory procs slots m)
    (leaves : LeavesSites m k) : Joins memory (insert memory.pcb procs) slots m
      ({ k with
        tables := Function.update k.tables memory.r1PageTable
          Yallnix.initializeRegionPageTable }.newPcb memory) := by
  let l := { k with
    tables := Function.update k.tables memory.r1PageTable Yallnix.initializeRegionPageTable }
  let n := l.newPcb memory
  have spares : Spares {memory.pcb} {memory.r1PageTable} m n :=
    (leaves.spares.trans (.setTable k _ _)).trans (.updatePcb l _ _)
  have own : (n.pcbs memory.pcb).r1PageTable = memory.r1PageTable := by
    simp only [n, KernelMemory.newPcb, KernelMemory.updatePcb, Function.update_self]
  have table : n.tables memory.r1PageTable = Yallnix.initializeRegionPageTable :=
    Function.update_self _ _ _
  have frames : n.frameList = m.frameList := leaves.frameList
  have others : ∀ q ∈ procs, q ∉ ({memory.pcb} : Set Addr) := fun q member same =>
    unclaimed.pcb (same ▸ member)
  have kept : Sole procs slots n := by
    refine sole.of_spares spares others (fun slot inside => unclaimed.stack slot inside)
      (fun q member => unclaimed.apart q member) (fun same => unclaimed.kernel same.symm) ?_ ?_
    · rw [frames]
      exact sole.order
    · rw [frames]
      exact fun _ => id
  refine ⟨spares, own, kept.join (fun i => ?_) ?_ (fun q member => ?_)⟩
  · rw [own, table]
    exact initializeRegionPageTable_reference i
  · rw [own, spares.regPtbr0]
    exact unclaimed.kernel
  · rw [own, spares.r1PageTable q (others q member)]
    exact unclaimed.apart q member

/-- `initPCB` joins a process with new stack frames, or the first `malloc` fails. -/
theorem Sole.initPCB {made : Bool} (sole : Sole procs slots m) (quiet : m.Quiet)
    (unclaimed : Unclaimed memory procs slots m) (done : m.initPCB memory = .ok (made, n))
    (fed : n.frameList.starved = false) :
    if made then Joins memory (insert memory.pcb procs) (slots ∪ {slot | slot.1 = memory.pcb}) m n
    else LeavesSites m n := by
  obtain ⟨⟨found, first⟩, allocated, done⟩ := Outcome.bind_eq_ok.mp done
  have one := LeavesSites.malloc quiet allocated
  cases found with
  | false =>
      cases done
      exact one
  | true =>
      obtain ⟨second, allocated, done⟩ := Outcome.bind_eq_ok.mp done
      have two := one.trans (.mallocOrElse (one.quiet quiet) allocated)
      obtain ⟨third, allocated, done⟩ := Outcome.bind_eq_ok.mp done
      obtain ⟨⟨found, k⟩, allocated, stored⟩ :=
        Outcome.bind_eq_ok.mp (orElse_eq_ok.mp allocated)
      have three := two.trans (.malloc (two.quiet quiet) allocated)
      cases found with
      | false => cases stored
      | true =>
          cases stored
          have begun := sole.newPcb unclaimed three
          dsimp only at done
          split at done
          · rename_i took
            cases done
            obtain ⟨-, works⟩ := begun.sole.takeStackFrames took fed
            have joins := begun.works works
            refine ⟨joins.toSpares, joins.own, joins.sole.mono subset_rfl ?_⟩
            rintro ⟨q, i⟩ (inside | same)
            · exact Or.inl inside
            · exact Or.inr ⟨same, List.mem_finRange i⟩
          · rename_i took
            obtain ⟨l, deleted, done⟩ := Outcome.bind_eq_ok.mp done
            cases done
            have calls := CallsFrames.steadyHeap.deleteProcess trivial deleted
            obtain ⟨taken, -⟩ := begun.sole.takeStackFrames took (calls.fed fed)
            cases taken

/-- A turn of the copy loop maps a page of the child to a new frame. -/
theorem Sole.copyTurn {index : Int} {prot : Prot} {pfn : Nat} {frames : FrameList}
    (sole : Sole procs slots m) (member : p ∈ procs)
    (got : getFrame m.frameList = (some pfn, frames)) (fed : k.frameList.starved = false)
    (leaves : LeavesSites { m with frameList := frames } k)
    (wrote : k.setPageTableEntryNoFlush ⟨(k.pcbs p).r1PageTable, index⟩ ⟨true, prot, pfn⟩ = .ok n) :
    Reworks own p procs slots m n := by
  have table : (k.pcbs p).r1PageTable = (m.pcbs p).r1PageTable :=
    leaves.r1PageTable p (Set.notMem_empty p)
  have same : k.frameList = frames := leaves.frameList
  obtain ⟨inside, tlb, fills, rfl⟩ := setPageTableEntryNoFlush_eq_ok wrote
  have back : LeavesSites m { k with frameList := m.frameList } :=
    ⟨((Spares.frames m frames).trans leaves.toSpares).trans (.frames k m.frameList), rfl⟩
  subst same
  refine ⟨?_, table, (sole.of_leaves back).mapEntry member inside got fed⟩
  rw [← table]
  exact ((Spares.frames m k.frameList).trans leaves.spares).trans (.store inside)

/-- The copy loop of `KernelFork` maps the pages of the child to new frames. -/
theorem Sole.copyPages {parentTable childTable : Addr} {count index : Nat} {copied : Bool}
    (sole : Sole procs slots m) (member : p ∈ procs) (table : childTable = (m.pcbs p).r1PageTable)
    (done : m.copyPages parentTable childTable count index = .ok (copied, n))
    (fed : n.frameList.starved = false) : Reworks own p procs slots m n := by
  induction count generalizing m index with
  | zero =>
      cases done
      exact .refl sole
  | succ count ih =>
      obtain ⟨pte, -, done⟩ := Outcome.bind_eq_ok.mp done
      split at done
      · exact ih sole table done
      · split at done
        · rename_i frames got
          cases done
          rw [getFrame_starves got] at fed
          cases fed
        · rename_i pfn frames got
          obtain ⟨mapped, wroteTemp, done⟩ := Outcome.bind_eq_ok.mp done
          obtain ⟨k, wrotePage, done⟩ := Outcome.bind_eq_ok.mp done
          obtain ⟨l, wrote, done⟩ := Outcome.bind_eq_ok.mp done
          have leaves : LeavesSites { m with frameList := frames } k :=
            (LeavesSites.setTemp wroteTemp).trans (.copyPage wrotePage)
          have calls : CallsFrames k n := (CallsFrames.steady.setOther trivial wrote).trans
            (CallsFrames.steady.copyPages trivial done)
          have own' := leaves.r1PageTable p (Set.notMem_empty p)
          rw [table, ← own'] at wrote
          have turn : Reworks own p procs slots m l :=
            sole.copyTurn member got (calls.fed fed) leaves wrote
          exact turn.trans (ih turn.sole (table.trans turn.table.symm) done)

/-- A turn of the copy loop makes a page of the child valid and keeps the parent. -/
theorem copyTurn_valid {parentTable childTable : Addr} {index : Nat} {prot : Prot} {pfn : Nat}
    {frames : FrameList} (apart : parentTable ≠ childTable) (parent : parentTable ≠ m.regPtbr0)
    (child : childTable ≠ m.regPtbr0) (leaves : LeavesSites { m with frameList := frames } k)
    (wrote : k.setPageTableEntryNoFlush ⟨childTable, index⟩ ⟨true, prot, pfn⟩ = .ok n) :
    KeepsValid childTable m n ∧ (n.tables childTable).maps index = true ∧
      (∀ i, (n.tables parentTable).maps i = (m.tables parentTable).maps i) ∧
      n.regPtbr0 = m.regPtbr0 := by
  have before : ∀ table, table ≠ m.regPtbr0 → ∀ i, (k.tables table)[i]? = (m.tables table)[i]? :=
    fun table other i => leaves.entries table (Set.notMem_empty _) i fun same => absurd same other
  obtain ⟨inside, tlb, fills, same⟩ := setPageTableEntryNoFlush_eq_ok wrote
  have stored : n.tables = (k.toMmu.store ⟨childTable, index⟩ ⟨true, prot, pfn⟩).tables := by
    rw [same]
  obtain ⟨kept, -, valid⟩ := store_valid inside rfl stored
  refine ⟨fun i mapped => kept i ?_, valid, fun i => ?_, ?_⟩
  · rw [PageTable.maps, before childTable child]
    exact mapped
  · rw [PageTable.maps, PageTable.maps, ← before parentTable parent, stored,
      k.toMmu.store_tables _ inside, if_neg fun both => apart both.1]
  · rw [same]
    exact leaves.regPtbr0

/-- The copy loop makes each valid page of the parent valid in the child or misses a frame. -/
theorem copyPages_valid {parentTable childTable : Addr} {count index : Nat} {copied : Bool}
    (apart : parentTable ≠ childTable) (parent : parentTable ≠ m.regPtbr0)
    (child : childTable ≠ m.regPtbr0)
    (done : m.copyPages parentTable childTable count index = .ok (copied, n)) :
    KeepsValid childTable m n ∧ if copied then ∀ i, index ≤ i → i < index + count →
      (m.tables parentTable).maps i = true → (n.tables childTable).maps i = true
      else n.frameList.starved = true := by
  induction count generalizing m index with
  | zero =>
      cases done
      exact ⟨fun _ => id, fun i low high => by omega⟩
  | succ count ih =>
      obtain ⟨pte, read, done⟩ := Outcome.bind_eq_ok.mp done
      obtain ⟨-, read⟩ := readEntry_eq_ok.mp read
      rw [Int.toNat_natCast] at read
      split at done
      · rename_i invalid
        obtain ⟨kept, pages⟩ := ih parent child done
        refine ⟨kept, ?_⟩
        split
        · rename_i all
          rw [if_pos all] at pages
          intro i low high mapped
          refine pages i (Nat.lt_of_le_of_ne low ?_) (by omega) mapped
          rintro rfl
          rw [maps_of_getElem? read] at mapped
          rw [mapped] at invalid
          cases invalid
        · rename_i missing
          rwa [if_neg missing] at pages
      · split at done
        · rename_i frames got
          cases done
          exact ⟨fun _ => id, getFrame_starves got⟩
        · rename_i pfn frames got
          obtain ⟨mapped, wroteTemp, done⟩ := Outcome.bind_eq_ok.mp done
          obtain ⟨k, wrotePage, done⟩ := Outcome.bind_eq_ok.mp done
          obtain ⟨l, wrote, done⟩ := Outcome.bind_eq_ok.mp done
          have leaves : LeavesSites { m with frameList := frames } k :=
            (LeavesSites.setTemp wroteTemp).trans (.copyPage wrotePage)
          obtain ⟨first, here, same, region0⟩ := copyTurn_valid apart parent child leaves wrote
          obtain ⟨kept, pages⟩ := ih (region0 ▸ parent) (region0 ▸ child) done
          refine ⟨first.trans kept, ?_⟩
          split
          · rename_i all
            rw [if_pos all] at pages
            intro i low high mapped
            rcases Nat.eq_or_lt_of_le low with rfl | later
            · exact kept _ here
            · exact pages i later (by omega) ((same i).trans mapped)
          · rename_i missing
            rwa [if_neg missing] at pages

/-- A process with the break of another one and all its pages has a mapped heap. -/
theorem HeapMapped.copied {q : Addr} (heap : HeapMapped p m)
    (brk : (n.pcbs q).brk = (m.pcbs p).brk)
    (pages : ∀ i < maxPtLen, (m.tables (m.pcbs p).r1PageTable).maps i = true →
      (n.tables (n.pcbs q).r1PageTable).maps i = true) : HeapMapped q n where
  limit := by
    rw [brk]
    exact heap.limit
  mapped i below := by
    rw [brk] at below
    refine pages i ?_ (heap.mapped i below)
    have limit : pageCeil (m.pcbs p).brk ≤ 2 * maxPtLen := pageCeil_le.mpr heap.limit
    omega

/-- The child gets the break and copies of all pages of its parent. -/
theorem Joins.copyPages {parent : Addr} {kctxt : Option KernelContext} {copied : Bool}
    (joins : Joins memory procs slots m k) (childIn : memory.pcb ∈ procs) (parentIn : parent ∈ procs)
    (other : parent ≠ memory.pcb) (heap : HeapMapped parent k)
    (done : (k.updatePcb memory.pcb fun pcb =>
      { pcb with kctxt := kctxt, brk := (k.pcbs parent).brk }).copyPages
        (k.pcbs parent).r1PageTable memory.r1PageTable maxPtLen 0 = .ok (copied, n))
    (fed : n.frameList.starved = false) :
    copied = true ∧ Joins memory procs slots m n ∧ HeapMapped memory.pcb n := by
  let l := k.updatePcb memory.pcb fun pcb =>
    { pcb with kctxt := kctxt, brk := (k.pcbs parent).brk }
  have filled : Reworks {memory.pcb} memory.pcb procs slots k l :=
    (Reworks.refl joins.sole).updatePcb rfl rfl
  have begun := joins.works filled
  have kernel := begun.sole.kernel _ childIn
  have parentKernel : (k.pcbs parent).r1PageTable ≠ l.regPtbr0 :=
    joins.sole.kernel parent parentIn
  have apart : (k.pcbs parent).r1PageTable ≠ memory.r1PageTable := by
    rw [← joins.own]
    exact fun equal => other (joins.sole.apart parent parentIn _ childIn equal)
  rw [begun.own] at kernel
  have works : Reworks ∅ memory.pcb procs slots l n :=
    begun.sole.copyPages childIn begun.own.symm done fed
  obtain ⟨-, pages⟩ := copyPages_valid apart parentKernel kernel done
  split at pages
  · rename_i all
    refine ⟨all, begun.works (begun.sole.copyPages childIn begun.own.symm done fed), ?_⟩
    have brk : (n.pcbs memory.pcb).brk = (k.pcbs parent).brk := by
      rw [works.brk _ (Set.notMem_empty _)]
      simp only [l, KernelMemory.updatePcb, Function.update_self]
    refine heap.copied brk fun i below mapped => ?_
    rw [works.table, begun.own]
    exact pages i (Nat.zero_le i) (by omega) mapped
  · rw [fed] at pages
    cases pages

/-- `KernelFork` runs a child with its own frames, or the first `malloc` fails. -/
theorem Sole.kernelFork {currKctxt : KernelContext} (sole : Sole procs slots m) (quiet : m.Quiet)
    (member : m.currPCB ∈ procs) (heap : HeapMapped m.currPCB m)
    (unclaimed : Unclaimed memory procs slots m) (done : m.kernelFork memory currKctxt = .ok n)
    (fed : n.frameList.starved = false) : LeavesSites m n ∨ ∃ l,
      Joins memory (insert memory.pcb procs) (slots ∪ {slot | slot.1 = memory.pcb}) m l ∧
        HeapMapped memory.pcb l ∧ LeavesSites { l with live := insert memory.pcb l.live } n := by
  obtain ⟨⟨made, first⟩, initialized, done⟩ := Outcome.bind_eq_ok.mp done
  cases made with
  | false =>
      cases done
      exact Or.inl (sole.initPCB quiet unclaimed initialized fed)
  | true =>
      obtain ⟨⟨found, second⟩, allocated, done⟩ := Outcome.bind_eq_ok.mp done
      obtain ⟨⟨copied, third⟩, wrote, done⟩ := Outcome.bind_eq_ok.mp done
      obtain ⟨k, before, after⟩ :=
        (CallsFrames.steadyHeap.initPCB trivial initialized).resolve_left nofun
      have calls : CallsFrames first second := CallsFrames.steadyHeap.malloc allocated
      have later : CallsFrames first third := (calls.trans
        (CallsFrames.steady.updatePcb second memory.pcb rfl)).trans
          (CallsFrames.steady.copyPages trivial wrote)
      have runs : second.currPCB = m.currPCB :=
        calls.currPCB.trans (after.currPCB.trans before.currPCB)
      have other : m.currPCB ≠ memory.pcb := fun same => unclaimed.pcb (same ▸ member)
      have wrote : (second.updatePcb memory.pcb fun pcb => { pcb with
          kctxt := if found then some memory.kctxt else none
          brk := (second.pcbs m.currPCB).brk }).copyPages (second.pcbs m.currPCB).r1PageTable
            memory.r1PageTable maxPtLen 0 = .ok (copied, third) := by
        simpa only [KernelMemory.curr, KernelMemory.updatePcb, runs, Function.update_of_ne other]
          using wrote
      have copies : third.frameList.starved = false → copied = true ∧
          Joins memory (insert memory.pcb procs) (slots ∪ {slot | slot.1 = memory.pcb}) m third ∧
            HeapMapped memory.pcb third := by
        intro fed
        have joins := sole.initPCB quiet unclaimed initialized (later.fed fed)
        rw [if_pos rfl] at joins
        have next := joins.works ((Reworks.refl joins.sole).leaves
          (.malloc (joins.quiet quiet) allocated))
        have kept : HeapMapped m.currPCB second := by
          refine heap.of_spares next.toSpares other (fun same => unclaimed.apart _ member same)
            (sole.kernel _ member)
        exact next.copyPages (Set.mem_insert _ _) (Set.mem_insert_of_mem _ member) other kept wrote
          fed
      cases copied with
      | false =>
          cases done
          cases (copies fed).1
      | true =>
          obtain ⟨fourth, reset, done⟩ := Outcome.bind_eq_ok.mp done
          obtain ⟨⟨_, fifth⟩, allocated, done⟩ := Outcome.bind_eq_ok.mp done
          obtain ⟨⟨_, last⟩, forked, done⟩ := Outcome.bind_eq_ok.mp done
          cases done
          have ends : LeavesSites { fifth with live := insert memory.pcb fifth.live } n :=
            .forkTo forked
          have calls := (CallsFrames.steady.setEntry reset).trans
            (CallsFrames.steadyHeap.malloc allocated)
          obtain ⟨-, joins, child⟩ := copies (calls.fed (ends.frameList ▸ fed))
          have temp := LeavesSites.setTemp reset
          have leaves := temp.trans (.malloc (temp.quiet (joins.quiet quiet)) allocated)
          refine Or.inr ⟨fifth, joins.works ((Reworks.refl joins.sole).leaves leaves), ?_, ends⟩
          exact child.of_spares leaves.toSpares (Set.notMem_empty _) (Set.notMem_empty _)
            (joins.sole.kernel _ (Set.mem_insert _ _))

end KernelMemory

end

end Yallnix

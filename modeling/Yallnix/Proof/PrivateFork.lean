import Yallnix.Proof.PrivateSwitch

namespace Yallnix

section
variable [Hardware]

namespace KernelMemory

variable {m n k l : KernelMemory} {memory : ProcessMemory} {procs : Set Addr}
  {slots : Set (Addr × Fin kernelStackPages)} {p q : Addr}

/-- The kernel builds a child, and no live process changes. -/
structure Prepares (m n : KernelMemory) : Prop where
  stays : Stays m n
  processes : ∀ p ∈ m.live, n.privateProcess p = m.privateProcess p

theorem Prepares.trans (first : Prepares m k) (second : Prepares k n) : Prepares m n where
  stays := first.stays.trans second.stays
  processes p alive :=
    (second.processes p (first.stays.live ▸ alive)).trans (first.processes p alive)

/-- A child that is not live yet may change. -/
theorem Prepares.spawn {tables : Addr → PageTable} {library : List LibraryAnswer}
    {frames : FrameList} {pcb : MemoryPcb} (new : q ∉ m.live)
    (kernel : tables m.regPtbr0 = m.tables m.regPtbr0)
    (kept : ∀ p ∈ m.live, tables (m.pcbs p).r1PageTable = m.tables (m.pcbs p).r1PageTable) :
    Prepares m { m with
      tables := tables
      library := library
      frameList := frames
      pcbs := Function.update m.pcbs q pcb } := by
  have other : ∀ p ∈ m.live, Function.update m.pcbs q pcb p = m.pcbs p := fun p alive =>
    Function.update_of_ne (fun same : p = q => new (same ▸ alive)) _ _
  refine ⟨⟨rfl, rfl, rfl, fun _ => congrArg (·[_]?) kernel, rfl, rfl, rfl,
    fun p alive => congrArg MemoryPcb.kctxt (other p alive),
    fun p alive => congrArg MemoryPcb.stackPfns (other p alive), rfl, rfl⟩, fun p alive => ?_⟩
  simp only [privateProcess, PrivateProcess.mk.injEq, other p alive, true_and, and_true]
  funext i
  simp only [region1, other p alive, kept p alive]

/-- The temporary entry lies below the kernel stack. -/
theorem Stays.setTemp {frames : FrameList} {pte : Pte} (fits : kernelStackPages ≤ maxPtLen)
    (done : { m with frameList := frames }.setPageTableEntry m.tempPtep pte = .ok n) :
    Stays m n := by
  have positive := (setPageTableEntry_temp (m := { m with frameList := frames }) fits done).1
  obtain ⟨inside, _, _, rfl⟩ := setPageTableEntry_eq_ok done
  refine ⟨rfl, rfl, rfl, fun i => ?_, rfl, rfl, rfl, fun _ _ => rfl, fun _ _ => rfl, rfl, rfl⟩
  refine (m.toMmu.store_tables pte inside m.regPtbr0 _).trans (if_neg ?_)
  rintro ⟨-, same⟩
  dsimp only [tempPtep] at same
  omega

/-- An entry of another table is no entry of the kernel stack. -/
theorem Stays.setOther {ptep : PtePtr} {pte : Pte} (away : ptep.table ≠ m.regPtbr0)
    (done : m.setPageTableEntryNoFlush ptep pte = .ok n) : Stays m n := by
  obtain ⟨inside, _, _, rfl⟩ := setPageTableEntryNoFlush_eq_ok done
  exact ⟨rfl, rfl, rfl, fun i => (m.toMmu.store_tables pte inside m.regPtbr0 _).trans
    (if_neg fun both => away both.1.symm), rfl, rfl, rfl, fun _ _ => rfl, fun _ _ => rfl, rfl, rfl⟩

/-- A read of region 1 goes through the table of the running process. -/
theorem readPage_region1 {index : Nat} {pte : Pte} {page : Page}
    (found : (m.tables m.regPtbr1)[index]? = some pte)
    (done : m.readPage (maxPtLen + index) = .ok page) :
    index < maxPtLen ∧ page = m.pages pte.pfn := by
  by_cases low : index < maxPtLen
  · refine ⟨low, readPage_eq_ok ?_ done⟩
    rw [Mmu.entryOf, if_neg (by omega), if_pos (by omega), Nat.add_sub_cancel_left]
    exact found
  · rw [readPage, Mmu.entryOf, if_neg (by omega), if_neg (by omega)] at done
    cases done

/-- The page of the parent goes into a free frame, which no process sees. -/
theorem Sole.copyTurn_copies {index pfn : Nat} {pte : Pte} {frames : FrameList}
    (sole : Sole procs slots m) (live : ↑m.live ⊆ procs) (held : m.liveSlots ⊆ slots)
    (parent : p ∈ m.live) (child : q ∈ procs) (new : q ∉ m.live)
    (fits : kernelStackPages ≤ maxPtLen) (register : m.regPtbr1 = (m.pcbs p).r1PageTable)
    (found : (m.tables (m.pcbs p).r1PageTable)[index]? = some pte) (valid : pte.valid = true)
    (got : getFrame m.frameList = (some pfn, frames)) (fed : frames.starved = false)
    (wroteTemp : { m with frameList := frames }.setPageTableEntry m.tempPtep
      ⟨true, protWrite, pfn⟩ = .ok k)
    (wrotePage : k.copyPage tempIndex (maxPtLen + index) = .ok l)
    (wrote : l.setPageTableEntryNoFlush ⟨(m.pcbs q).r1PageTable, index⟩ ⟨true, pte.prot, pfn⟩ =
      .ok n) :
    Reworks ∅ q procs slots m n ∧ Prepares m n ∧
      ∀ i, n.region1 q i = if i = index then (m.region1 p i).or (m.region1 q i)
        else m.region1 q i := by
  have mapped : LeavesSites { m with frameList := frames } k := .setTemp wroteTemp
  have leaves := mapped.trans (.copyPage wrotePage)
  have own : (l.pcbs q).r1PageTable = (m.pcbs q).r1PageTable :=
    leaves.r1PageTable q (Set.notMem_empty q)
  have turn : Reworks ∅ q procs slots m n := by
    rw [← own] at wrote
    refine sole.copyTurn child got ?_ leaves wrote
    rw [leaves.frameList]
    exact fed
  obtain ⟨_, same, was, -⟩ := getFrame_fresh got fed sole.order
  cases same
  have unseen : ∀ a ∈ sites procs slots, ∀ other, m.references a = some other → other ≠ pfn := by
    rintro a inside other held rfl
    exact sole.exclusive.used a inside _ held was
  obtain ⟨-, maps⟩ := setPageTableEntry_temp (m := { m with frameList := frames }) fits wroteTemp
  obtain ⟨page, read, wrotePage⟩ := Outcome.bind_eq_ok.mp wrotePage
  have kernel := sole.kernel p (live parent)
  have entry : (k.tables k.regPtbr1)[index]? = some pte := by
    have setTemp := Stays.setTemp fits wroteTemp
    rw [setTemp.regPtbr1, register]
    exact (mapped.entries _ (Set.notMem_empty _) index fun same => absurd same kernel).trans found
  obtain ⟨low, rfl⟩ := readPage_region1 entry read
  have stays : Stays m n := by
    refine (Stays.setTemp fits wroteTemp).trans (Stays.trans ?_ (.setOther ?_ wrote))
    · rw [writePage_eq_ok maps.same wrotePage]
      exact .pages k _
    · rw [leaves.regPtbr0]
      exact sole.kernel q child
  have pages : n.pages = Function.update m.pages pfn (m.pages pte.pfn) := by
    have stored := writePage_eq_ok maps.same wrotePage
    obtain ⟨_, rfl⟩ := maps.rest
    obtain ⟨-, _, _, rfl⟩ := setPageTableEntryNoFlush_eq_ok wrote
    rw [stored]
  have kept : ∀ a ∈ sites procs slots, ∀ other, m.references a = some other →
      n.pages other = m.pages other := by
    intro a inside other held
    rw [pages]
    exact Function.update_of_ne (unseen a inside other held) _ _
  refine ⟨turn, ⟨stays, fun r alive => ?_⟩, fun i => ?_⟩
  · refine privateProcess_congr turn.toSpares (Set.notMem_empty r) (fun same => new ?_)
      (sole.kernel r (live alive)) (stays.kctxt r alive) (fun i => kept (.page r i) (live alive))
      fun i => kept (.slot r i) (held alive) _ rfl
    exact sole.apart r (live alive) q child same ▸ alive
  · obtain ⟨inside, _, _, eq⟩ := setPageTableEntryNoFlush_eq_ok wrote
    have entry : (n.tables (m.pcbs q).r1PageTable)[i]? = if i = index then
        some ⟨true, pte.prot, pfn⟩ else (m.tables (m.pcbs q).r1PageTable)[i]? := by
      have notKernel := sole.kernel q child
      rw [← leaves.entries _ (Set.notMem_empty _) i fun same => absurd same notKernel, eq]
      refine (l.toMmu.store_tables ⟨true, pte.prot, pfn⟩ inside _ i).trans (if_congr ?_ rfl rfl)
      rw [Int.toNat_natCast]
      exact and_iff_right rfl
    by_cases here : i = index
    · subst here
      rw [if_pos rfl] at entry ⊢
      rw [← turn.table] at entry
      rw [region1_of_getElem? low entry, region1_of_getElem? low found, valid, if_pos rfl,
        if_pos rfl, pages, Function.update_self, Option.some_or]
    · rw [if_neg here] at entry ⊢
      rw [← turn.table] at entry
      exact region1_congr (entry.trans (by rw [turn.table])) (kept (.page q i) child)

/-- The child sees a copy of each page of its parent. -/
theorem Sole.copyPages_copies {count index : Nat} {copied : Bool} (sole : Sole procs slots m)
    (live : ↑m.live ⊆ procs) (held : m.liveSlots ⊆ slots) (parent : p ∈ m.live) (child : q ∈ procs)
    (new : q ∉ m.live) (fits : kernelStackPages ≤ maxPtLen)
    (register : m.regPtbr1 = (m.pcbs p).r1PageTable)
    (done : m.copyPages (m.pcbs p).r1PageTable (m.pcbs q).r1PageTable count index =
      .ok (copied, n)) (fed : n.frameList.starved = false) :
    copied = true ∧ Prepares m n ∧
      ∀ i, n.region1 q i = if index ≤ i ∧ i < index + count then
        (m.region1 p i).or (m.region1 q i) else m.region1 q i := by
  induction count generalizing m index with
  | zero =>
      cases done
      refine ⟨rfl, ⟨.refl _, fun _ _ => rfl⟩, fun i => ?_⟩
      rw [if_neg (by omega)]
  | succ count ih =>
      obtain ⟨pte, read, done⟩ := Outcome.bind_eq_ok.mp done
      obtain ⟨-, found⟩ := readEntry_eq_ok.mp read
      rw [Int.toNat_natCast] at found
      split at done
      · rename_i invalid
        obtain ⟨all, prepares, views⟩ := ih sole live held parent new register done
        refine ⟨all, prepares, fun i => (views i).trans ?_⟩
        by_cases here : i = index
        · subst here
          have unseen : m.region1 p i = none := by
            refine region1_of_invalid ?_
            rw [maps_of_getElem? found]
            simpa using invalid
          rw [if_neg (by omega), if_pos (by omega), unseen, Option.none_or]
        · exact if_congr (by omega) rfl rfl
      · rename_i valid
        split at done
        · rename_i frames got
          cases done
          rw [getFrame_starves got] at fed
          cases fed
        · rename_i pfn frames got
          obtain ⟨mapped, wroteTemp, done⟩ := Outcome.bind_eq_ok.mp done
          obtain ⟨k, wrotePage, done⟩ := Outcome.bind_eq_ok.mp done
          obtain ⟨l, wrote, done⟩ := Outcome.bind_eq_ok.mp done
          have calls : CallsFrames { m with frameList := frames } n :=
            (CallsFrames.steady.setEntry wroteTemp).trans
              ((CallsFrames.steady.copyPage wrotePage).trans
                ((CallsFrames.steady.setOther trivial wrote).trans
                  (CallsFrames.steady.copyPages trivial done)))
          have fed' : frames.starved = false := calls.fed fed
          obtain ⟨turn, prepares, views⟩ := sole.copyTurn_copies live held parent child new fits
            register found (by simpa using valid) got fed' wroteTemp wrotePage wrote
          have same : l.live = m.live := prepares.stays.live
          have parentTable : (l.pcbs p).r1PageTable = (m.pcbs p).r1PageTable :=
            turn.r1PageTable p (Set.notMem_empty p)
          rw [← parentTable, ← turn.table] at done
          obtain ⟨all, later, rest⟩ := ih turn.sole (same ▸ live)
            (liveSlots_congr same ▸ held) (same ▸ parent) (same ▸ new)
            (by rw [prepares.stays.regPtbr1, parentTable, register]) done
          have seen : l.region1 p = m.region1 p :=
            congrArg PrivateProcess.region1 (prepares.processes p parent)
          refine ⟨all, prepares.trans later, fun i => ?_⟩
          rw [rest i, views i, seen]
          by_cases here : i = index
          · subst here
            rw [if_neg (by omega), if_pos rfl, if_pos (by omega)]
          · rw [if_neg here]
            exact if_congr (by omega) rfl rfl

/-- The loop of `initPCB` changes the new PCB, and it fails only without a frame. -/
theorem takeStackFrames_rest {list : List (Fin kernelStackPages)} {taken : Bool}
    (done : m.takeStackFrames q list = (taken, n)) :
    (∃ frames pcb, n = { m with frameList := frames, pcbs := Function.update m.pcbs q pcb }) ∧
      (taken = false → n.frameList.starved = true) := by
  induction list generalizing m with
  | nil =>
      cases done
      refine ⟨⟨n.frameList, n.pcbs q, ?_⟩, nofun⟩
      rw [Function.update_eq_self]
  | cons i rest ih =>
      rw [KernelMemory.takeStackFrames] at done
      split at done
      · rename_i frames got
        cases done
        refine ⟨⟨frames, m.pcbs q, ?_⟩, fun _ => getFrame_starves got⟩
        rw [Function.update_eq_self]
      · rename_i pfn frames got
        obtain ⟨⟨frames, pcb, rfl⟩, starves⟩ := ih done
        refine ⟨⟨frames, pcb, ?_⟩, starves⟩
        simp only [updatePcb, Function.update_idem]

/-- A new process gets a PCB and an empty table, or the first `malloc` fails. -/
theorem initPCB_eq_ok {made : Bool} (quiet : m.Quiet) (done : m.initPCB memory = .ok (made, n))
    (fed : n.frameList.starved = false) : ∃ library, if made then ∃ frames pcb, n = { m with
        tables := Function.update m.tables memory.r1PageTable Yallnix.initializeRegionPageTable
        library := library
        frameList := frames
        pcbs := Function.update m.pcbs memory.pcb pcb }
      else n = { m with library := library } := by
  obtain ⟨⟨found, k⟩, allocated, done⟩ := Outcome.bind_eq_ok.mp done
  have one : k.Quiet := (LeavesSites.malloc quiet allocated).quiet quiet
  obtain ⟨first, rfl⟩ := malloc_eq_ok quiet allocated
  cases found with
  | false =>
      cases done
      exact ⟨first, rfl⟩
  | true =>
      obtain ⟨l, allocated, done⟩ := Outcome.bind_eq_ok.mp done
      have two : l.Quiet := (LeavesSites.mallocOrElse (by exact one) allocated).quiet one
      obtain ⟨second, rfl⟩ := malloc_eq_ok (by exact one) (orElse_eq_ok.mp allocated)
      obtain ⟨third, allocated, done⟩ := Outcome.bind_eq_ok.mp done
      obtain ⟨⟨found, k⟩, allocated, stored⟩ :=
        Outcome.bind_eq_ok.mp (orElse_eq_ok.mp allocated)
      obtain ⟨library, rfl⟩ := malloc_eq_ok (by exact two) allocated
      cases found with
      | false => cases stored
      | true =>
          cases stored
          dsimp only at done
          split at done
          · rename_i took
            cases done
            obtain ⟨⟨frames, pcb, rfl⟩, -⟩ := takeStackFrames_rest took
            refine ⟨library, frames, pcb, ?_⟩
            simp only [updatePcb, Function.update_idem]
          · rename_i took
            obtain ⟨l, deleted, done⟩ := Outcome.bind_eq_ok.mp done
            cases done
            have starved := (takeStackFrames_rest took).2 rfl
            rw [(CallsFrames.steadyHeap.deleteProcess trivial deleted).fed fed] at starved
            cases starved

/-- A new table has no valid page. -/
theorem region1_of_empty
    (empty : m.tables (m.pcbs q).r1PageTable = Yallnix.initializeRegionPageTable) (i : Nat) :
    m.region1 q i = none := by
  by_cases low : i < maxPtLen
  · have found : (m.tables (m.pcbs q).r1PageTable)[i]? = some ⟨false, protNone, 0⟩ := by
      rw [empty, Yallnix.initializeRegionPageTable, List.getElem?_replicate, if_pos low]
    rw [region1_of_getElem? low found]
    rfl
  · exact region1_of_le (Nat.le_of_not_lt low)

theorem Unclaimed.initPCB_prepares (unclaimed : Unclaimed memory ↑m.live m.liveSlots m)
    (quiet : m.Quiet) (done : m.initPCB memory = .ok (true, n))
    (own : (n.pcbs memory.pcb).r1PageTable = memory.r1PageTable)
    (fed : n.frameList.starved = false) :
    Prepares m n ∧ ∀ i, n.region1 memory.pcb i = none := by
  obtain ⟨library, frames, pcb, rfl⟩ := initPCB_eq_ok quiet done fed
  refine ⟨.spawn unclaimed.pcb ?_ fun p alive => ?_, region1_of_empty ?_⟩
  · exact Function.update_of_ne unclaimed.kernel.symm _ _
  · exact Function.update_of_ne (unclaimed.apart p alive) _ _
  · rw [own]
    exact Function.update_self _ _ _

theorem Joins.leaves (joins : Joins memory procs slots m k) (leaves : LeavesSites k n) :
    Joins memory procs slots m n :=
  joins.works ((Reworks.refl joins.sole).leaves leaves)

/-- The kernel builds a child with the region 1 and the break of the running process. -/
structure Born (memory : ProcessMemory) (m n : KernelMemory) : Prop extends Prepares m n where
  joins : Joins memory (insert memory.pcb ↑m.live) (m.liveSlots ∪ {slot | slot.1 = memory.pcb}) m n
  region1 : n.region1 memory.pcb = m.region1 m.currPCB
  brk : (n.pcbs memory.pcb).brk = (m.pcbs m.currPCB).brk

/-- The copy loop gives the child the pages of its parent. -/
theorem Joins.copyPages_born {kctxt : Option KernelContext} {copied : Bool}
    (joins : Joins memory (insert memory.pcb ↑m.live)
      (m.liveSlots ∪ {slot | slot.1 = memory.pcb}) m k)
    (prepares : Prepares m k) (empty : ∀ i, k.region1 memory.pcb i = none)
    (new : memory.pcb ∉ m.live) (member : m.currPCB ∈ m.live) (fits : kernelStackPages ≤ maxPtLen)
    (register : m.regPtbr1 = (m.pcbs m.currPCB).r1PageTable)
    (done : (k.updatePcb memory.pcb fun pcb =>
      { pcb with kctxt := kctxt, brk := (k.pcbs m.currPCB).brk }).copyPages
        (k.pcbs m.currPCB).r1PageTable memory.r1PageTable maxPtLen 0 = .ok (copied, n))
    (fed : n.frameList.starved = false) : copied = true ∧ Born memory m n := by
  let l := k.updatePcb memory.pcb fun pcb =>
    { pcb with kctxt := kctxt, brk := (k.pcbs m.currPCB).brk }
  have child : memory.pcb ∈ insert memory.pcb (↑m.live : Set Addr) := Set.mem_insert _ _
  have same : k.live = m.live := prepares.stays.live
  have begun := joins.works ((Reworks.refl joins.sole).updatePcb (k := k)
    (f := fun pcb => { pcb with kctxt := kctxt, brk := (k.pcbs m.currPCB).brk }) rfl rfl)
  have filled : Prepares m l := prepares.trans (.spawn (same ▸ new) rfl fun _ _ => rfl)
  have unseen : ∀ i, l.region1 memory.pcb i = none := fun i => by
    refine (region1_congr (m := k) (n := l) ?_ fun _ _ => rfl).trans (empty i)
    rw [begun.own, joins.own]
    rfl
  have parentTable : (l.pcbs m.currPCB).r1PageTable = (m.pcbs m.currPCB).r1PageTable :=
    begun.r1PageTable _ fun equal => new (equal ▸ member)
  have before : (k.pcbs m.currPCB).r1PageTable = (m.pcbs m.currPCB).r1PageTable :=
    joins.r1PageTable _ fun equal => new (equal ▸ member)
  have works : Reworks ∅ memory.pcb (insert memory.pcb (↑m.live : Set Addr)) _ l n :=
    begun.sole.copyPages child begun.own.symm done fed
  have copying : l.copyPages (l.pcbs m.currPCB).r1PageTable (l.pcbs memory.pcb).r1PageTable
      maxPtLen 0 = .ok (copied, n) := by
    rw [parentTable, begun.own, ← before]
    exact done
  have live : (↑l.live : Set Addr) ⊆ insert memory.pcb ↑m.live := by
    rw [filled.stays.live]
    exact Set.subset_insert _ _
  have held : l.liveSlots ⊆ m.liveSlots ∪ {slot | slot.1 = memory.pcb} := by
    rw [liveSlots_congr filled.stays.live]
    exact Set.subset_union_left
  have loaded : l.regPtbr1 = (l.pcbs m.currPCB).r1PageTable := by
    rw [filled.stays.regPtbr1, parentTable, register]
  obtain ⟨all, copies, views⟩ := begun.sole.copyPages_copies live held
    (filled.stays.live ▸ member) child (filled.stays.live ▸ new) fits loaded copying fed
  refine ⟨all, filled.trans copies,
    begun.works (begun.sole.copyPages child begun.own.symm done fed), ?_, ?_⟩
  · have parent : l.region1 m.currPCB = m.region1 m.currPCB :=
      congrArg PrivateProcess.region1 (filled.processes _ member)
    funext i
    rw [views i, parent, unseen i, Option.or_none]
    split
    · rfl
    · exact (region1_of_le (by omega)).symm
  · rw [works.brk _ (Set.notMem_empty _)]
    simp only [l, KernelMemory.updatePcb, Function.update_self]
    exact joins.brk _ fun equal => new (equal ▸ member)

/-- The reset of the temporary entry changes no process. -/
theorem Born.setTemp {pte : Pte} (born : Born memory m k) (fits : kernelStackPages ≤ maxPtLen)
    (done : k.setPageTableEntry k.tempPtep pte = .ok n) : Born memory m n := by
  have leaves := LeavesSites.setTemp done
  have stays : Stays k n := .setTemp fits done
  have pages : n.pages = k.pages := by
    obtain ⟨-, _, _, rfl⟩ := setPageTableEntry_eq_ok done
    rfl
  have region1 : ∀ p ∈ insert memory.pcb (↑m.live : Set Addr), n.region1 p = k.region1 p :=
    fun p inside => region1_of_spares leaves.toSpares (Set.notMem_empty p) (Set.notMem_empty _)
      (born.joins.sole.kernel p inside) fun _ pfn _ => congrFun pages pfn
  refine ⟨born.toPrepares.trans ⟨stays, fun p alive => ?_⟩,
    born.joins.leaves leaves, ?_, ?_⟩
  · rw [born.stays.live] at alive
    exact privateProcess_congr leaves.toSpares (Set.notMem_empty p) (Set.notMem_empty _)
      (born.joins.sole.kernel p (Set.mem_insert_of_mem _ alive))
      (stays.kctxt p (born.stays.live ▸ alive)) (fun _ pfn _ => congrFun pages pfn)
      fun i => congrFun pages _
  · exact (region1 _ (Set.mem_insert _ _)).trans born.region1
  · exact (leaves.brk _ (Set.notMem_empty _)).trans born.brk

/-- `KernelFork` builds a child and enters it, or the first `malloc` fails. -/
theorem Sole.kernelFork_births {currKctxt : KernelContext} (sole : m.LiveSole) (quiet : m.Quiet)
    (member : m.currPCB ∈ m.live) (fits : kernelStackPages ≤ maxPtLen)
    (register : m.regPtbr1 = (m.pcbs m.currPCB).r1PageTable)
    (unclaimed : Unclaimed memory ↑m.live m.liveSlots m)
    (done : m.kernelFork memory currKctxt = .ok n) (fed : n.frameList.starved = false) :
    (∃ library, n = { m with library := library }) ∨ ∃ l kctxt, Born memory m l ∧
      { l with live := insert memory.pcb l.live }.forkTo currKctxt memory.pcb =
        .ok (kctxt, n) := by
  obtain ⟨⟨made, first⟩, initialized, done⟩ := Outcome.bind_eq_ok.mp done
  cases made with
  | false =>
      cases done
      exact Or.inl (initPCB_eq_ok quiet initialized fed)
  | true =>
      obtain ⟨⟨found, second⟩, allocated, done⟩ := Outcome.bind_eq_ok.mp done
      obtain ⟨⟨copied, third⟩, wrote, done⟩ := Outcome.bind_eq_ok.mp done
      have other : m.currPCB ≠ memory.pcb := fun same => unclaimed.pcb (same ▸ member)
      have calls : CallsFrames first third :=
        ((CallsFrames.steadyHeap.malloc allocated).trans
          (CallsFrames.steady.updatePcb second memory.pcb rfl)).trans
            (CallsFrames.steady.copyPages trivial wrote)
      have births : third.frameList.starved = false → copied = true ∧ Born memory m third := by
        intro fed
        have joins := sole.initPCB quiet unclaimed initialized (calls.fed fed)
        rw [if_pos rfl] at joins
        obtain ⟨prepares, empty⟩ :=
          unclaimed.initPCB_prepares quiet initialized joins.own (calls.fed fed)
        have after := joins.quiet quiet
        have next := joins.leaves (.malloc after allocated)
        obtain ⟨library, eq⟩ := malloc_eq_ok after allocated
        have prepares : Prepares m second := by
          rw [eq]
          exact prepares.trans ⟨.library first library, fun _ _ => rfl⟩
        have empty : ∀ i, second.region1 memory.pcb i = none := by
          rw [eq]
          exact empty
        have wrote : (second.updatePcb memory.pcb fun pcb => { pcb with
            kctxt := if found then some memory.kctxt else none
            brk := (second.pcbs m.currPCB).brk }).copyPages (second.pcbs m.currPCB).r1PageTable
              memory.r1PageTable maxPtLen 0 = .ok (copied, third) := by
          simpa only [KernelMemory.curr, KernelMemory.updatePcb, prepares.stays.currPCB,
            Function.update_of_ne other] using wrote
        exact next.copyPages_born prepares empty unclaimed.pcb member fits register wrote fed
      cases copied with
      | false =>
          cases done
          cases (births fed).1
      | true =>
          obtain ⟨fourth, reset, done⟩ := Outcome.bind_eq_ok.mp done
          obtain ⟨⟨_, fifth⟩, allocated, done⟩ := Outcome.bind_eq_ok.mp done
          obtain ⟨⟨kctxt, last⟩, forked, done⟩ := Outcome.bind_eq_ok.mp done
          cases done
          have calls := (CallsFrames.steady.setEntry reset).trans
            (CallsFrames.steadyHeap.malloc allocated)
          have ends := LeavesSites.forkTo forked
          obtain ⟨-, born⟩ := births (calls.fed (ends.frameList ▸ fed))
          have born := born.setTemp fits reset
          have joins := born.joins.leaves (.malloc (born.joins.quiet quiet) allocated)
          obtain ⟨library, rfl⟩ := malloc_eq_ok (born.joins.quiet quiet) allocated
          exact Or.inr ⟨_, kctxt, ⟨⟨born.stays.trans (.library fourth library), born.processes⟩,
            joins, born.region1, born.brk⟩, forked⟩

/-- The child is live when `forkTo` enters it. -/
theorem Joins.liveSole (joins : Joins memory (insert memory.pcb ↑m.live)
      (m.liveSlots ∪ {slot | slot.1 = memory.pcb}) m l) :
    { l with live := insert memory.pcb l.live }.LiveSole := by
  refine (joins.sole.mono ?_ fun slot inside => ?_).setLive _
  · rw [joins.live, Finset.coe_insert]
  · rcases Finset.mem_insert.mp inside with child | alive
    · exact Or.inr child
    · rw [joins.live] at alive
      exact Or.inl alive

/-- The child goes on with a copy of its parent, and its parent waits with the same context. -/
theorem Born.forkTo_enters {currKctxt kctxt : KernelContext} (born : Born memory m l)
    (new : memory.pcb ∉ m.live) (member : m.currPCB ∈ m.live) (settled : Settled m)
    (done : { l with live := insert memory.pcb l.live }.forkTo currKctxt memory.pcb =
      .ok (kctxt, n)) :
    Settled n ∧ n.mode = m.mode ∧ { n with mode := .kernel }.privateMemory =
      { (m.privateMemory.set m.currPCB
          { m.privateProcess m.currPCB with kctxt := some currKctxt }).set memory.pcb
            { m.privateProcess m.currPCB with kctxt := some currKctxt } with
        running := memory.pcb
        mode := .kernel } := by
  let k := { l with live := insert memory.pcb l.live }
  have mode : n.mode = m.mode := (forkTo_mode done).trans born.stays.mode
  have leaves : LeavesSites k n := .forkTo done
  have sole : k.LiveSole := born.joins.liveSole
  have runs : k.currPCB = m.currPCB := born.stays.currPCB
  have other : m.currPCB ≠ memory.pcb := fun same => new (same ▸ member)
  have child : memory.pcb ∈ k.live := Finset.mem_insert_self _ _
  have lives : ∀ q ∈ m.live, q ∈ k.live := fun q alive =>
    Finset.mem_insert_of_mem (born.stays.live ▸ alive)
  have before := settled.of_stays member born.stays
  have apart : ∀ i j, k.curr.stackPfns i ≠ (k.pcbs memory.pcb).stackPfns j := by
    intro i j same
    have alone := sole.exclusive.alone (.slot k.currPCB i) (runs ▸ lives _ member)
      (.slot memory.pcb j) child (k.curr.stackPfns i) rfl (congrArg some same.symm)
    exact other (runs.symm.trans (Site.slot.inj alone).1)
  obtain ⟨entered, rfl, copies⟩ := forkTo_eq_ok (m := k) (stackPages_le settled.room) before.brk
    before.mapped (sole.stackPfns_injective child) apart done
  have spares : Spares ∅ ∅ (k.setKctxt k.currPCB (some kctxt)) n := leaves.toSpares.of_setKctxt
  have soleSaved : (k.setKctxt k.currPCB (some kctxt)).LiveSole := sole.of_leaves (.setKctxt k _ _)
  have pcb : (k.setKctxt k.currPCB (some kctxt)).pcbs memory.pcb = k.pcbs memory.pcb :=
    Function.update_of_ne (fun same => other (runs.symm.trans same.symm)) _ _
  have parent : l.privateProcess m.currPCB = m.privateProcess m.currPCB :=
    born.processes _ member
  have region1 : n.region1 memory.pcb = m.region1 m.currPCB := by
    refine (entered.region1 spares soleSaved child).trans (Eq.trans ?_ born.region1)
    funext i
    rw [KernelMemory.region1, KernelMemory.region1, pcb]
    rfl
  have stack : ∀ i, n.pages ((n.pcbs memory.pcb).stackPfns i) =
      m.pages ((m.pcbs m.currPCB).stackPfns i) := by
    intro i
    rw [entered.stackPfns, pcb, copies, KernelMemory.curr, runs]
    exact congrFun (congrArg PrivateProcess.stack parent) i
  have brk : (n.pcbs memory.pcb).brk = (m.pcbs m.currPCB).brk := by
    rw [spares.brk _ (Set.notMem_empty _), pcb]
    exact born.brk
  have seen : n.privateProcess memory.pcb =
      { m.privateProcess m.currPCB with kctxt := some kctxt } := by
    rw [privateProcess, privateProcess, region1, brk, entered.running]
    exact congrArg (PrivateProcess.mk _ _ · _) (funext stack)
  refine ⟨entered.settled settled.room, mode, ?_⟩
  refine PrivateMemory.ext entered.currPCB rfl ?_
    (entered.starter.1.trans born.stays.starterKctxt)
    (entered.starter.2.trans born.stays.starterKernelStack)
  funext q
  dsimp only [PrivateMemory.set]
  have view : { n with mode := .kernel }.privateMemory.processes q =
    n.privateMemory.processes q := rfl
  have live : n.live = insert memory.pcb m.live :=
    entered.live.trans (congrArg (insert memory.pcb) born.stays.live)
  rw [view]
  by_cases isChild : q = memory.pcb
  · subst isChild
    rw [Function.update_self, processes_of_mem (live ▸ Finset.mem_insert_self _ _), seen]
  rw [Function.update_of_ne isChild]
  by_cases alive : q ∈ m.live
  · have kept := entered.others spares soleSaved child (lives q alive) isChild
    rw [processes_of_mem (live ▸ Finset.mem_insert_of_mem alive), kept]
    by_cases isParent : q = m.currPCB
    · subst isParent
      rw [Function.update_self, ← runs, privateProcess_setKctxt]
      rw [runs]
      exact congrArg (fun p : PrivateProcess => some { p with kctxt := some kctxt }) parent
    · rw [Function.update_of_ne isParent, processes_of_mem alive, ← born.processes q alive]
      refine congrArg some (privateProcess_updatePcb (m := k) _ ?_)
      rwa [runs]
  · have dead : q ∉ n.live := by
      rw [live, Finset.mem_insert]
      exact not_or.mpr ⟨isChild, alive⟩
    have other : q ≠ m.currPCB := fun same => alive (same ▸ member)
    rw [processes_of_notMem dead, Function.update_of_ne other, processes_of_notMem alive]

end KernelMemory

end

end Yallnix

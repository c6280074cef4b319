import Yallnix.Proof.PrivateView
import Yallnix.Proof.UnsharedFrames

namespace Yallnix

section
variable [Hardware]

namespace KernelMemory

variable {m n k : KernelMemory} {p : Addr}

/-- Different sites of the live processes and of the kernel reference different used frames. -/
abbrev LiveSole (m : KernelMemory) : Prop := Sole ↑m.live m.liveSlots m

/-- Kernel code for one process keeps all others and the kernel stacks as they are. -/
structure Tends (p : Addr) (m n : KernelMemory) : Prop
    extends Reworks {p} p ↑m.live m.liveSlots m n where
  stays : Stays m n
  others : ∀ q ∈ m.live, q ≠ p → n.privateProcess q = m.privateProcess q
  stack : ∀ i, n.pages ((m.pcbs p).stackPfns i) = m.pages ((m.pcbs p).stackPfns i)

namespace Tends

theorem refl (sole : m.LiveSole) : Tends p m m :=
  ⟨.refl sole, .refl m, fun _ _ _ => rfl, fun _ => rfl⟩

theorem liveSole (tends : Tends p m n) : n.LiveSole := by
  rw [LiveSole, tends.live, liveSlots_congr tends.live]
  exact tends.sole

theorem trans (member : p ∈ m.live) (first : Tends p m k) (second : Tends p k n) : Tends p m n where
  toReworks := by
    have later := second.toReworks
    rw [first.live, liveSlots_congr first.live] at later
    exact first.toReworks.trans later
  stays := first.stays.trans second.stays
  others q alive other := by
    rw [← first.others q alive other]
    exact second.others q (first.live ▸ alive) other
  stack i := by
    have later := second.stack i
    rw [first.stays.stackPfns p member] at later
    exact later.trans (first.stack i)

/-- The frames of all sites but the pages of the process must stay. -/
theorem of_pages (sole : m.LiveSole) (member : p ∈ m.live)
    (reworks : Reworks {p} p ↑m.live m.liveSlots m n) (stays : Stays m n)
    (pages : ∀ a ∈ m.liveSites, (∀ i, a ≠ .page p i) → ∀ pfn,
      m.references a = some pfn → n.pages pfn = m.pages pfn) : Tends p m n := by
  have stack : ∀ q ∈ m.live, ∀ i,
      n.pages ((m.pcbs q).stackPfns i) = m.pages ((m.pcbs q).stackPfns i) := fun q alive i =>
    pages (.slot q i) alive (fun _ => nofun) _ rfl
  refine ⟨reworks, stays, fun q alive other => ?_, stack p member⟩
  refine privateProcess_congr reworks.toSpares other (fun same => other ?_) (sole.kernel q alive)
    (stays.kctxt q alive) (fun i pfn held => ?_) (stack q alive)
  · exact sole.apart q alive p member same
  · refine pages (.page q i) alive (fun j same => ?_) pfn held
    cases same
    exact other rfl

/-- Writes into the table of the process keep all frames. -/
theorem of_writes {low high : Int} (sole : m.LiveSole) (member : p ∈ m.live)
    (reworks : Reworks {p} p ↑m.live m.liveSlots m n)
    (writes : Writes (m.pcbs p).r1PageTable low high m n) : Tends p m n := by
  have stays := Stays.of_writes writes (sole.kernel p member)
  obtain ⟨mmu, frames, rfl⟩ := writes.rest
  exact of_pages sole member reworks stays fun _ _ _ _ _ => rfl

/-- A quiet C library keeps all processes. -/
theorem malloc {found : Bool} (sole : m.LiveSole) (member : p ∈ m.live) (quiet : m.Quiet)
    (done : m.malloc = .ok (found, n)) : Tends p m n := by
  have reworks : Reworks {p} p ↑m.live m.liveSlots m n :=
    (Reworks.refl sole).leaves (.malloc quiet done)
  obtain ⟨library, rfl⟩ := malloc_eq_ok quiet done
  exact of_pages sole member reworks (.library m _) fun _ _ _ _ _ => rfl

theorem free (sole : m.LiveSole) (member : p ∈ m.live) (quiet : m.Quiet) (done : m.free = .ok n) :
    Tends p m n := by
  obtain ⟨answer, allocated, done⟩ := Outcome.bind_eq_ok.mp done
  cases done
  exact malloc sole member quiet allocated

/-- The break of the process is no memory of the others. -/
theorem updateBrk {addr : Nat} (tends : Tends p m k) :
    Tends p m (k.updatePcb p fun pcb => { pcb with brk := addr }) where
  toReworks := tends.toReworks.updatePcb rfl rfl
  stays := tends.stays.trans (.updatePcb k p rfl rfl)
  others q alive other := (privateProcess_updatePcb _ other).trans (tends.others q alive other)
  stack := tends.stack

/-- The running process keeps its stack and its context. -/
theorem privateProcess (tends : Tends p m n) (member : p ∈ m.live) :
    n.privateProcess p =
      { m.privateProcess p with brk := (n.pcbs p).brk, region1 := n.region1 p } := by
  rw [KernelMemory.privateProcess, KernelMemory.privateProcess, tends.stays.kctxt p member,
    tends.stays.stackPfns p member]
  exact congrArg (PrivateProcess.mk _ _ · _) (funext tends.stack)

end Tends

/-- The kernel works for its running process, and no other process changes. -/
structure Serves (m n : KernelMemory) : Prop where
  live : n.live = m.live
  currPCB : n.currPCB = m.currPCB
  starterKctxt : n.starterKctxt = m.starterKctxt
  starterKernelStack : n.starterKernelStack = m.starterKernelStack
  settled : Settled n
  others : ∀ q ∈ m.live, q ≠ m.currPCB → n.privateProcess q = m.privateProcess q

theorem Tends.serves (tends : Tends m.currPCB m n) (member : m.currPCB ∈ m.live)
    (settled : Settled m) : Serves m n where
  live := tends.stays.live
  currPCB := tends.stays.currPCB
  starterKctxt := tends.stays.starterKctxt
  starterKernelStack := tends.stays.starterKernelStack
  settled := settled.of_stays member tends.stays
  others := tends.others

theorem Serves.trans (first : Serves m k) (second : Serves k n) : Serves m n where
  live := second.live.trans first.live
  currPCB := second.currPCB.trans first.currPCB
  starterKctxt := second.starterKctxt.trans first.starterKctxt
  starterKernelStack := second.starterKernelStack.trans first.starterKernelStack
  settled := second.settled
  others q alive other :=
    (second.others q (first.live ▸ alive) (first.currPCB ▸ other)).trans
      (first.others q alive other)

/-- The private memory changes its running process only. -/
theorem Serves.privateMemory (serves : Serves m n) (member : m.currPCB ∈ m.live) :
    n.privateMemory = { m.privateMemory.set m.currPCB (n.privateProcess m.currPCB) with
      mode := n.mode } := by
  refine PrivateMemory.ext serves.currPCB rfl ?_ serves.starterKctxt serves.starterKernelStack
  funext q
  dsimp only [PrivateMemory.set]
  by_cases same : q = m.currPCB
  · subst same
    rw [Function.update_self]
    exact processes_of_mem (serves.live ▸ member)
  · rw [Function.update_of_ne same]
    by_cases alive : q ∈ m.live
    · rw [processes_of_mem (serves.live ▸ alive), processes_of_mem alive,
        serves.others q alive same]
    · rw [processes_of_notMem alive, processes_of_notMem (serves.live ▸ alive)]

/-- Pages outside of the written range are seen as before. -/
theorem Writes.region1 {low high : Int} (writes : Writes (m.pcbs p).r1PageTable low high m n)
    {i : Nat} (outside : (i : Int) < low ∨ high ≤ i) : n.region1 p i = m.region1 p i := by
  have entry := writes.entries (m.pcbs p).r1PageTable i fun _ => outside
  obtain ⟨mmu, frames, rfl⟩ := writes.rest
  exact region1_congr entry fun _ _ => rfl

/-- The growth loops leave an entry of their own at each of their pages. -/
theorem mapPages_entries {prot : Prot} {count : Nat} {ptep : PtePtr}
    (done : m.mapPages prot count ptep = .ok (true, n)) (i : Nat) (low : ptep.index ≤ i)
    (high : (i : Int) < ptep.index + count) :
    ∃ pfn, (n.tables ptep.table)[i]? = some ⟨true, prot, pfn⟩ := by
  induction count generalizing m ptep with
  | zero => omega
  | succ count ih =>
      rw [mapPages] at done
      split at done
      · cases done
      · rename_i pfn frames _
        obtain ⟨k, wrote, done⟩ := Outcome.bind_eq_ok.mp done
        by_cases here : (i : Int) = ptep.index
        · obtain ⟨inside, _, _, rfl⟩ := setPageTableEntry_eq_ok wrote
          refine ⟨pfn, ((Writes.mapPages done).entries _ i fun _ => Or.inl ?_).trans ?_⟩
          · dsimp only [PtePtr.next]
            omega
          · refine (Mmu.store_tables ⟨true, prot, pfn⟩ inside _ i).trans (if_pos ⟨rfl, ?_⟩)
            omega
        · have later := ih done
          dsimp only [PtePtr.next] at later
          exact later (by omega) (by omega)

/-- The growth loops map pages with whatever bytes their frames held. -/
theorem Sole.mapPages_tends {count : Nat} {ptep : PtePtr} {mapped : Bool} (sole : m.LiveSole)
    (member : p ∈ m.live) (table : ptep.table = (m.pcbs p).r1PageTable)
    (done : m.mapPages protReadWrite count ptep = .ok (mapped, n))
    (fed : n.frameList.starved = false) : mapped = true ∧ Tends p m n ∧
      ∀ i : Nat, if ptep.index ≤ i ∧ (i : Int) < ptep.index + count then
          i < maxPtLen → PrivateProcess.Fresh (n.region1 p i)
        else n.region1 p i = m.region1 p i := by
  have all : mapped = true := by
    have new := (mapPages_valid done).2
    cases mapped with
    | true => rfl
    | false =>
        rw [if_neg Bool.false_ne_true, fed] at new
        cases new
  subst all
  have writes := Writes.mapPages done
  rw [table] at writes
  have tends := Tends.of_writes sole member (sole.mapPages member table done fed) writes
  refine ⟨rfl, tends, fun i => ?_⟩
  split
  · rename_i inside
    intro low
    obtain ⟨pfn, found⟩ := mapPages_entries done i inside.1 inside.2
    rw [table, ← tends.table] at found
    exact ⟨n.pages pfn, region1_of_getElem? low found⟩
  · exact writes.region1 (by omega)

/-- The shrink loop unmaps its pages. -/
theorem unmapPages_entries {count : Nat} {ptep : PtePtr} (done : m.unmapPages count ptep = .ok n)
    (i : Nat) (low : ptep.index ≤ i) (high : (i : Int) < ptep.index + count) :
    (n.tables ptep.table).maps i = false := by
  induction count generalizing m ptep with
  | zero => omega
  | succ count ih =>
      obtain ⟨pte, -, done⟩ := Outcome.bind_eq_ok.mp done
      obtain ⟨k, wrote, done⟩ := Outcome.bind_eq_ok.mp done
      by_cases here : (i : Int) = ptep.index
      · obtain ⟨inside, old, -, _, _, rfl⟩ := invalidatePageTableEntry_eq_ok wrote
        rw [PageTable.maps, (Writes.unmapPages done).entries _ i fun _ => Or.inl (by
          dsimp only [PtePtr.next]
          omega)]
        refine (maps_store inside { old with valid := false } i).trans (if_pos ?_)
        omega
      · have later := ih done
        dsimp only [PtePtr.next] at later
        exact later (by omega) (by omega)

/-- A call of `KernelBrk` refuses its address or moves the break. -/
theorem kernelBrk_eq_ok {addr : Nat} {code : Int} (done : m.kernelBrk addr = .ok (code, n)) :
    getAddressRegion addr ≠ 1 ∧ n = m ∨ getAddressRegion addr = 1 ∧ ∃ moved k,
      m.brkPages m.curr.r1PageTable userBaseVpn addr m.curr.brk = .ok (moved, k) ∧
        n = if moved then k.updatePcb k.currPCB fun pcb => { pcb with brk := addr } else k := by
  unfold kernelBrk at done
  split at done
  · rename_i outside
    cases done
    exact Or.inl ⟨outside, rfl⟩
  · rename_i inside
    obtain ⟨⟨moved, k⟩, pages, done⟩ := Outcome.bind_eq_ok.mp done
    refine Or.inr ⟨not_not.mp inside, moved, k, pages, ?_⟩
    cases moved with
    | true =>
        cases done
        rfl
    | false =>
        cases done
        rfl

/-- The pages between two breaks are unmapped or mapped, and all others stay. -/
theorem brkPages_region1 {addr brk : Nat} {moved : Bool} (limit : addr ≤ vmem1Limit)
    (done : m.brkPages (m.pcbs p).r1PageTable userBaseVpn addr brk = .ok (moved, n)) :
    (∃ low high, Writes (m.pcbs p).r1PageTable low high m n) ∧
      (moved = false → n.frameList.starved = true) ∧
      (moved = true → ∀ i, (addr ≤ region1Addr i → region1Addr i < brk → n.region1 p i = none) ∧
        (brk ≤ region1Addr i → region1Addr i < addr → PrivateProcess.Fresh (n.region1 p i)) ∧
        ((region1Addr i < addr ↔ region1Addr i < brk) → n.region1 p i = m.region1 p i)) := by
  have bounds : ∀ i, (region1Addr i < addr ↔ maxPtLen + i < pageCeil addr) ∧
      (region1Addr i < brk ↔ maxPtLen + i < pageCeil brk) := fun i =>
    ⟨lt_pageCeil.symm, lt_pageCeil.symm⟩
  have own : ∀ {k}, (∃ low high, Writes (m.pcbs p).r1PageTable low high m k) →
      (k.pcbs p).r1PageTable = (m.pcbs p).r1PageTable := by
    rintro k ⟨low, high, writes⟩
    obtain ⟨mmu, frames, rfl⟩ := writes.rest
    rfl
  rw [brkPages_eq] at done
  split at done
  · rename_i shrinks
    obtain ⟨k, unmapped, done⟩ := Outcome.bind_eq_ok.mp done
    cases done
    have writes := Writes.unmapPages unmapped
    have order := pageCeil_mono shrinks.le
    refine ⟨⟨_, _, writes⟩, nofun, fun _ i => ⟨fun above below => ?_, fun above below => ?_,
      fun same => writes.region1 ?_⟩⟩
    · rw [← Nat.not_lt, (bounds i).1] at above
      rw [(bounds i).2] at below
      refine region1_of_invalid ?_
      rw [own ⟨_, _, writes⟩]
      refine unmapPages_entries unmapped i ?_ ?_
      all_goals
        simp only [pagePtep, userBaseVpn_eq]
        omega
    · omega
    · rw [(bounds i).1, (bounds i).2] at same
      simp only [pagePtep, userBaseVpn_eq]
      omega
  · rename_i grows
    have writes := Writes.mapPages done
    have order := pageCeil_mono (Nat.le_of_not_lt grows)
    refine ⟨⟨_, _, writes⟩, fun missing => ?_, fun all i => ⟨fun above below => ?_,
      fun above below => ?_, fun same => writes.region1 ?_⟩⟩
    · subst missing
      exact (mapPages_valid done).2
    · omega
    · subst all
      rw [← Nat.not_lt, (bounds i).2] at above
      have small : maxPtLen + i < 2 * maxPtLen :=
        Nat.lt_of_mul_lt_mul_right (below.trans_le limit)
      rw [(bounds i).1] at below
      obtain ⟨pfn, found⟩ := mapPages_entries done i (by
        simp only [pagePtep, userBaseVpn_eq]
        omega) (by
        simp only [pagePtep, userBaseVpn_eq]
        omega)
      have found : (n.tables (m.pcbs p).r1PageTable)[i]? = some ⟨true, protReadWrite, pfn⟩ := found
      rw [← own ⟨_, _, writes⟩] at found
      exact ⟨n.pages pfn, region1_of_getElem? (by omega) found⟩
    · rw [(bounds i).1, (bounds i).2] at same
      simp only [pagePtep, userBaseVpn_eq]
      omega

/-- The break of a process is no part of its region 1. -/
theorem region1_updateBrk (m : KernelMemory) (p : Addr) (addr : Nat) :
    (m.updatePcb p fun pcb => { pcb with brk := addr }).region1 p = m.region1 p := by
  funext i
  simp only [region1, updatePcb, Function.update_self]

/-- `KernelBrk` moves the break of the running process. -/
theorem Sole.kernelBrk_tends {addr : Nat} {code : Int} (sole : m.LiveSole)
    (member : m.currPCB ∈ m.live) (heap : HeapMapped m.currPCB m)
    (done : m.kernelBrk addr = .ok (code, n)) (fed : n.frameList.starved = false) :
    Tends m.currPCB m n ∧
      (m.privateProcess m.currPCB).MovesBreak addr (n.privateProcess m.currPCB) := by
  have works := (sole.kernelBrk member heap done fed).toReworks
  rcases kernelBrk_eq_ok done with ⟨outside, rfl⟩ | ⟨inside, moved, k, pages, rfl⟩
  · exact ⟨.refl sole, .refuses outside⟩
  · have limit : addr ≤ vmem1Limit :=
      ((Nat.div_lt_iff_lt_mul pageSize_pos).mp (getAddressRegion_eq_one.mp inside).2).le
    obtain ⟨⟨low, high, writes⟩, starves, views⟩ := brkPages_region1 (p := m.currPCB) limit pages
    have stays := Stays.of_writes writes (sole.kernel _ member)
    cases moved with
    | false =>
        rw [if_neg Bool.false_ne_true, starves rfl] at fed
        cases fed
    | true =>
        rw [if_pos rfl, stays.currPCB] at works ⊢
        have samePages : k.pages = m.pages := by
          obtain ⟨mmu, frames, rfl⟩ := writes.rest
          rfl
        have tends := Tends.of_pages sole member works
          (stays.trans (.updatePcb k m.currPCB rfl rfl)) fun _ _ _ pfn _ => congrFun samePages pfn
        have brk : ((k.updatePcb m.currPCB fun pcb => { pcb with brk := addr }).pcbs
            m.currPCB).brk = addr := by
          simp only [KernelMemory.updatePcb, Function.update_self]
        refine ⟨tends, ?_⟩
        rw [tends.privateProcess member, brk, region1_updateBrk]
        have views := views rfl
        exact .moves inside (fun i => (views i).1) (fun i => (views i).2.1) fun i => (views i).2.2

/-- The loop of the memory trap keeps valid entries and writes all others. -/
theorem growStack_entries {count : Nat} {ptep : PtePtr}
    (done : m.growStack count ptep = .ok (true, n)) :
    Writes ptep.table (ptep.index + 1 - count) (ptep.index + 1) m n ∧
      ∀ i : Nat, ptep.index < i + count → (i : Int) ≤ ptep.index →
        if (m.tables ptep.table).maps i = true then
          (n.tables ptep.table)[i]? = (m.tables ptep.table)[i]?
        else ∃ pfn, (n.tables ptep.table)[i]? = some ⟨true, protReadWrite, pfn⟩ := by
  induction count generalizing m ptep with
  | zero =>
      cases done
      exact ⟨.refl _, fun i low high => by omega⟩
  | succ count ih =>
      obtain ⟨pte, read, done⟩ := Outcome.bind_eq_ok.mp done
      obtain ⟨nonneg, found⟩ := readEntry_eq_ok.mp read
      split at done
      · rename_i valid
        obtain ⟨writes, entries⟩ := ih done
        dsimp only [PtePtr.previous] at writes entries
        refine ⟨writes.mono (by omega) (by omega), fun i low high => ?_⟩
        by_cases here : (i : Int) = ptep.index
        · rw [← here, Int.toNat_natCast] at found
          rw [maps_of_getElem? found, if_pos valid]
          exact writes.entries _ i fun _ => Or.inr (by omega)
        · exact entries i (by omega) (by omega)
      · rename_i invalid
        split at done
        · cases done
        · rename_i pfn frames _
          obtain ⟨k, wrote, done⟩ := Outcome.bind_eq_ok.mp done
          have first := Writes.setPageTableEntry wrote
          obtain ⟨inside, _, _, rfl⟩ := setPageTableEntry_eq_ok wrote
          obtain ⟨writes, entries⟩ := ih done
          dsimp only [PtePtr.previous] at writes entries
          refine ⟨(Writes.frames m frames).trans ((first.mono (by omega) (by omega)).trans
            (writes.mono (by omega) (by omega))), fun i low high => ?_⟩
          have stored := m.toMmu.store_tables ⟨true, protReadWrite, pfn⟩ inside ptep.table
          by_cases here : (i : Int) = ptep.index
          · rw [← here, Int.toNat_natCast] at found
            rw [maps_of_getElem? found, if_neg invalid]
            refine ⟨pfn, (writes.entries _ i fun _ => Or.inr (by omega)).trans ?_⟩
            exact (stored i).trans (if_pos ⟨rfl, by omega⟩)
          · have same := (stored i).trans (if_neg fun both => here (by omega))
            have maps := congrArg (Option.any Pte.valid) same
            have entry := entries i (by omega) (by omega)
            rw [same] at entry
            rw [PageTable.maps, ← maps]
            exact entry

/-- The memory trap grows the stack of the running process or ends it. -/
theorem Sole.handleTrapMemory_serves {addr : Nat} (sole : m.LiveSole) (kernel : m.mode = .kernel)
    (member : m.currPCB ∈ m.live) (settled : Settled m) (heap : HeapMapped m.currPCB m)
    (done : m.handleTrapMemory addr = .ok n) (fed : n.frameList.starved = false) :
    Serves m n ∧
      (m.privateProcess m.currPCB).GrowsStack addr (n.privateProcess m.currPCB) n.mode := by
  have works := (sole.handleTrapMemory member heap done fed).toReworks
  unfold KernelMemory.handleTrapMemory at done
  dsimp only at done
  split at done
  · rename_i low
    cases done
    exact ⟨⟨rfl, rfl, rfl, rfl, ⟨settled.room, settled.brk, settled.mapped⟩, fun _ _ _ => rfl⟩,
      .ends low⟩
  · rename_i high
    obtain ⟨⟨mapped, k⟩, grown, done⟩ := Outcome.bind_eq_ok.mp done
    cases mapped with
    | false =>
        cases done
        have starved := (growStack_valid grown).2 rfl
        rw [fed] at starved
        cases starved
    | true =>
        cases done
        obtain ⟨writes, entries⟩ := growStack_entries grown
        have writes : Writes (m.pcbs m.currPCB).r1PageTable _ _ m k := writes
        have tends := Tends.of_writes sole member works writes
        have same : k.pages = m.pages := by
          obtain ⟨_, _, rfl⟩ := writes.rest
          rfl
        have brk : (k.pcbs m.currPCB).brk = (m.pcbs m.currPCB).brk := by
          obtain ⟨_, _, rfl⟩ := writes.rest
          rfl
        refine ⟨tends.serves member settled, ?_⟩
        rw [tends.privateProcess member, tends.stays.mode, kernel, brk]
        refine .grows (Nat.lt_of_not_le high) (fun i low above unseen => ?_) fun i kept => ?_
        · have entry := entries i (by dsimp only; omega) (by dsimp only; omega)
          rw [if_neg] at entry
          · obtain ⟨pfn, found⟩ := entry
            have found : (k.tables (m.pcbs m.currPCB).r1PageTable)[i]? = _ := found
            rw [← tends.table] at found
            exact ⟨k.pages pfn, region1_of_getElem? low found⟩
          · intro mapped
            have unmapped := mapped.symm.trans ((region1_eq_none low).mp unseen)
            cases unmapped
        · by_cases low : i < maxPtLen
          · by_cases range : addr / pageSize ≤ maxPtLen + i
            · have entry := entries i (by dsimp only; omega) (by dsimp only; omega)
              have seen : m.region1 m.currPCB i ≠ none := kept.resolve_right (by omega)
              rw [if_pos] at entry
              · refine region1_congr ?_ fun pfn _ => congrFun same pfn
                rw [tends.table]
                exact entry
              · refine (Bool.not_eq_false _).mp fun unmapped => seen ?_
                exact (region1_eq_none low).mpr unmapped
            · exact writes.region1 (Or.inl (by dsimp only; omega))
          · have high := Nat.le_of_not_lt low
            exact (region1_of_le high).trans (region1_of_le high).symm

/-- A write of a page of region 1 changes the bytes of one page of the process only. -/
theorem Sole.writeUser {vpn : Nat} {page : Page} (sole : m.LiveSole) (member : p ∈ m.live)
    (register : m.regPtbr1 = (m.pcbs p).r1PageTable) (high : maxPtLen ≤ vpn)
    (done : m.writePage vpn page = .ok n) : Tends p m n ∧
      ∃ old, m.region1 p (vpn - maxPtLen) = some old ∧ old.prot.write = true ∧
        n.region1 p =
          Function.update (m.region1 p) (vpn - maxPtLen) (some { old with bytes := page }) := by
  have leaves := LeavesSites.writePage done
  unfold writePage at done
  split at done
  · cases done
  rename_i pte found
  split at done
  · rename_i writable
    cases done
    obtain ⟨valid, writable⟩ := Bool.and_eq_true_iff.mp writable
    have low : vpn < 2 * maxPtLen := by
      by_contra above
      rw [Mmu.entryOf, if_neg (by omega), if_neg above] at found
      cases found
    rw [Mmu.entryOf, if_neg (by omega), if_pos low, register] at found
    have held : m.references (.page p (vpn - maxPtLen)) = some pte.pfn :=
      (PageTable.reference_of_getElem? found).trans (if_pos valid)
    have others : ∀ a ∈ m.liveSites, a ≠ .page p (vpn - maxPtLen) → ∀ pfn,
        m.references a = some pfn → Function.update m.pages pte.pfn page pfn = m.pages pfn := by
      intro a inside other pfn also
      refine Function.update_of_ne (fun same => other ?_) _ _
      subst same
      exact sole.exclusive.alone a inside _ member _ also held
    have tends : Tends p m _ := .of_pages sole member ((Reworks.refl sole).leaves leaves)
      (.pages m _) fun a inside other => others a inside (other _)
    refine ⟨tends, ⟨pte.prot, m.pages pte.pfn⟩, ?_, writable, ?_⟩
    · rw [region1_of_getElem? (by omega) found, if_pos valid]
    · funext i
      by_cases here : i = vpn - maxPtLen
      · subst here
        rw [Function.update_self]
        refine (region1_of_getElem? (m := { m with pages := Function.update m.pages pte.pfn page })
          (by omega) found).trans ((if_pos valid).trans ?_)
        exact congrArg (fun bytes => some (UserPage.mk pte.prot bytes)) (Function.update_self _ _ _)
      · rw [Function.update_of_ne here]
        refine region1_congr rfl (others (.page p i) member fun same => here ?_)
        cases same
        rfl
  · cases done

/-- A store of a program changes one of its pages. -/
theorem Sole.writeUser_serves {vpn : Nat} {page : Page} (sole : m.LiveSole)
    (member : m.currPCB ∈ m.live) (settled : Settled m)
    (register : m.regPtbr1 = (m.pcbs m.currPCB).r1PageTable) (high : maxPtLen ≤ vpn)
    (done : m.writePage vpn page = .ok n) : Serves m n ∧ n.mode = m.mode ∧
      (m.privateProcess m.currPCB).Stores vpn page (n.privateProcess m.currPCB) := by
  obtain ⟨tends, old, seen, writable, stored⟩ := sole.writeUser member register high done
  refine ⟨tends.serves member settled, tends.stays.mode, ?_⟩
  rw [tends.privateProcess member, stored,
    (LeavesSites.writePage done).brk _ (Set.notMem_empty _)]
  exact .store seen writable

/-- The image of a program goes into pages of its process. -/
theorem Sole.fillPages_tends {image : Nat → Page} {count vpn : Nat} (sole : m.LiveSole)
    (member : p ∈ m.live) (register : m.regPtbr1 = (m.pcbs p).r1PageTable) (high : maxPtLen ≤ vpn)
    (done : m.fillPages image count vpn = .ok n) : Tends p m n ∧
      ∀ i, n.region1 p i = if vpn ≤ maxPtLen + i ∧ maxPtLen + i < vpn + count then
          (m.region1 p i).map fun old => { old with bytes := image (maxPtLen + i) }
        else m.region1 p i := by
  induction count generalizing m vpn with
  | zero =>
      cases done
      refine ⟨.refl sole, fun i => ?_⟩
      rw [if_neg (by omega)]
  | succ count ih =>
      obtain ⟨k, wrote, done⟩ := Outcome.bind_eq_ok.mp done
      obtain ⟨first, old, seen, -, wrote⟩ := sole.writeUser member register high wrote
      have same : k.regPtbr1 = (k.pcbs p).r1PageTable := by
        rw [first.stays.regPtbr1, register, first.table]
      have member' : p ∈ k.live := first.live ▸ member
      obtain ⟨later, pages⟩ := ih first.liveSole member' same (by omega) done
      refine ⟨first.trans member later, fun i => ?_⟩
      rw [pages i, wrote]
      by_cases here : i = vpn - maxPtLen
      · subst here
        rw [if_neg (by omega), if_pos (by omega), Function.update_self, seen, Option.map_some]
        congr 3
        omega
      · rw [Function.update_of_ne here]
        by_cases range : vpn + 1 ≤ maxPtLen + i ∧ maxPtLen + i < vpn + 1 + count
        · rw [if_pos range, if_pos (by omega)]
        · rw [if_neg range, if_neg (by omega)]

end KernelMemory

end

end Yallnix

import Yallnix.Proof.ValidPages

namespace Yallnix

section
variable [Hardware]

namespace KernelMemory

variable {m n k : KernelMemory} {procs : Set Addr} {slots : Set (Addr × Fin kernelStackPages)}
  {own : Set Addr} {p : Addr}

/-- Between two switches kernel code changes the frame list by calls only. -/
structure CallsFrames (m n : KernelMemory) : Prop where
  calls : FrameCalls m.frameList n.frameList
  regPtbr0 : n.regPtbr0 = m.regPtbr0
  live : n.live = m.live
  currPCB : n.currPCB = m.currPCB
  idlePCB : n.idlePCB = m.idlePCB
  tables : ∀ p, (n.pcbs p).r1PageTable = (m.pcbs p).r1PageTable

namespace CallsFrames

theorem refl (m : KernelMemory) : CallsFrames m m := ⟨.refl, rfl, rfl, rfl, rfl, fun _ => rfl⟩

theorem trans (first : CallsFrames m k) (second : CallsFrames k n) : CallsFrames m n where
  calls := Relation.ReflTransGen.trans first.calls second.calls
  regPtbr0 := second.regPtbr0.trans first.regPtbr0
  live := second.live.trans first.live
  currPCB := second.currPCB.trans first.currPCB
  idlePCB := second.idlePCB.trans first.idlePCB
  tables p := (second.tables p).trans (first.tables p)

theorem fed (calls : CallsFrames m n) (fed : n.frameList.starved = false) :
    m.frameList.starved = false :=
  calls.calls.fed fed

theorem steady : Steady CallsFrames (fun _ _ => True) where
  trans := trans
  safe_of _ _ := trivial
  safe_own _ _ := trivial
  safe_curr _ _ := trivial
  setEntry done := by
    obtain ⟨-, _, _, rfl⟩ := setPageTableEntry_eq_ok done
    exact ⟨.refl, rfl, rfl, rfl, rfl, fun _ => rfl⟩
  invalidate done := by
    obtain ⟨-, _, -, _, _, rfl⟩ := invalidatePageTableEntry_eq_ok done
    exact ⟨.refl, rfl, rfl, rfl, rfl, fun _ => rfl⟩
  setOther _ done := by
    obtain ⟨-, _, _, rfl⟩ := setPageTableEntryNoFlush_eq_ok done
    exact ⟨.refl, rfl, rfl, rfl, rfl, fun _ => rfl⟩
  setTable _ _ := ⟨.refl, rfl, rfl, rfl, rfl, fun _ => rfl⟩
  same same := ⟨same.calls, congrArg Mmu.regPtbr0 same.mmu, same.live, same.currPCB, same.idlePCB,
    same.tables⟩

theorem setKernelBrk {addr : Nat} {code : Int} (done : m.setKernelBrk addr = .ok (code, n)) :
    CallsFrames m n := by
  unfold KernelMemory.setKernelBrk at done
  split at done
  · cases done
    exact .refl m
  split at done
  · cases done
    exact .refl m
  split at done
  · cases done
    exact ⟨.refl, rfl, rfl, rfl, rfl, fun _ => rfl⟩
  obtain ⟨⟨moved, next⟩, pages, done⟩ := Outcome.bind_eq_ok.mp done
  have calls : CallsFrames m next := steady.brkPages pages
  dsimp only at done
  split at done
  · cases done
    exact calls
  · cases done
    exact calls.trans ⟨.refl, rfl, rfl, rfl, rfl, fun _ => rfl⟩

theorem moveBreaks {addrs : List Nat} (done : m.moveBreaks addrs = .ok n) : CallsFrames m n := by
  induction addrs generalizing m with
  | nil =>
      cases done
      exact .refl _
  | cons addr rest ih =>
      obtain ⟨⟨code, k⟩, moved, done⟩ := Outcome.bind_eq_ok.mp done
      exact (setKernelBrk moved).trans (ih done)

theorem steadyHeap : SteadyHeap CallsFrames (fun _ _ => True) where
  toSteady := steady
  malloc {m n found} done := by
    unfold KernelMemory.malloc at done
    split at done
    · cases done
      exact .refl _
    · rename_i answer library _
      obtain ⟨k, moved, done⟩ := Outcome.bind_eq_ok.mp done
      cases done
      have taken : CallsFrames m { m with library := library } :=
        ⟨.refl, rfl, rfl, rfl, rfl, fun _ => rfl⟩
      exact taken.trans (moveBreaks moved)

end CallsFrames

/-- Code that works on the table of one process keeps its sites sole and spares the rest. -/
structure Reworks (own : Set Addr) (p : Addr) (procs : Set Addr)
    (slots : Set (Addr × Fin kernelStackPages)) (m n : KernelMemory) : Prop
    extends Spares own {(m.pcbs p).r1PageTable} m n where
  table : (n.pcbs p).r1PageTable = (m.pcbs p).r1PageTable
  sole : Sole procs slots n

namespace Reworks

theorem refl (sole : Sole procs slots m) : Reworks own p procs slots m m :=
  ⟨.refl _ _ m, rfl, sole⟩

theorem trans {before : Set Addr} {held : Set (Addr × Fin kernelStackPages)}
    (first : Reworks own p before held m k) (second : Reworks own p procs slots k n) :
    Reworks own p procs slots m n := by
  have spares := second.toSpares
  rw [first.table] at spares
  exact ⟨first.toSpares.trans spares, second.table.trans first.table, second.sole⟩

theorem leaves (first : Reworks own p procs slots m k) (leaves : LeavesSites k n) :
    Reworks own p procs slots m n :=
  ⟨first.toSpares.trans leaves.spares,
    (leaves.r1PageTable p (Set.notMem_empty p)).trans first.table, first.sole.of_leaves leaves⟩

end Reworks

/-- A turn of the growth loops maps a page to a new frame. -/
theorem Sole.mapTurn {ptep : PtePtr} {prot : Prot} {pfn : Nat} {frames : FrameList}
    (sole : Sole procs slots m) (member : p ∈ procs) (table : ptep.table = (m.pcbs p).r1PageTable)
    (got : getFrame m.frameList = (some pfn, frames))
    (wrote : { m with frameList := frames }.setPageTableEntry ptep ⟨true, prot, pfn⟩ = .ok k)
    (calls : CallsFrames k n) (fed : n.frameList.starved = false) :
    Reworks own p procs slots m k := by
  obtain ⟨inside, tlb, fills, rfl⟩ := setPageTableEntry_eq_ok wrote
  obtain ⟨_, index⟩ := ptep
  subst table
  have inside : m.Holds ⟨(m.pcbs p).r1PageTable, index⟩ := inside
  exact ⟨.store inside, rfl, sole.mapEntry member inside got (calls.fed fed)⟩

/-- The growth loops map their pages to new frames. -/
theorem Sole.mapPages {prot : Prot} {count : Nat} {ptep : PtePtr} {mapped : Bool}
    (sole : Sole procs slots m) (member : p ∈ procs) (table : ptep.table = (m.pcbs p).r1PageTable)
    (done : m.mapPages prot count ptep = .ok (mapped, n)) (fed : n.frameList.starved = false) :
    Reworks own p procs slots m n := by
  induction count generalizing m ptep with
  | zero =>
      cases done
      exact .refl sole
  | succ count ih =>
      rw [KernelMemory.mapPages] at done
      split at done
      · rename_i frames got
        cases done
        rw [getFrame_starves got] at fed
        cases fed
      · rename_i pfn frames got
        obtain ⟨k, wrote, done⟩ := Outcome.bind_eq_ok.mp done
        have first : Reworks own p procs slots m k :=
          sole.mapTurn member table got wrote (CallsFrames.steady.mapPages done) fed
        have next : ptep.next.table = (k.pcbs p).r1PageTable := table.trans first.table.symm
        exact first.trans (ih first.sole next done)

/-- The shrink loop gives the frames of valid pages back. -/
theorem Sole.unmapPages {count low : Nat} {ptep : PtePtr} (sole : Sole procs slots m)
    (member : p ∈ procs) (table : ptep.table = (m.pcbs p).r1PageTable) (start : ptep.index = low)
    (valid : ∀ i, low ≤ i → i < low + count →
      (m.tables (m.pcbs p).r1PageTable).maps i = true)
    (done : m.unmapPages count ptep = .ok n) : Reworks own p procs slots m n := by
  induction count generalizing m low ptep with
  | zero =>
      cases done
      exact .refl sole
  | succ count ih =>
      obtain ⟨pte, read, done⟩ := Outcome.bind_eq_ok.mp done
      obtain ⟨k, wrote, done⟩ := Outcome.bind_eq_ok.mp done
      obtain ⟨-, read⟩ := readEntry_eq_ok.mp read
      obtain ⟨inside, old, found, tlb, fills, rfl⟩ := invalidatePageTableEntry_eq_ok wrote
      cases Option.some.inj (read.symm.trans found)
      obtain ⟨_, index⟩ := ptep
      subst table start
      have inside : m.Holds ⟨(m.pcbs p).r1PageTable, (low : Int)⟩ := inside
      rw [Int.toNat_natCast] at read
      have isValid : pte.valid = true :=
        (maps_of_getElem? read).symm.trans (valid low le_rfl (by omega))
      have first : Reworks own p procs slots m { m with
          toMmu := { m.toMmu.store ⟨(m.pcbs p).r1PageTable, (low : Int)⟩
              { pte with valid := false } with
            tlb := tlb
            fills := fills }
          frameList := freeFrame m.frameList pte.pfn } :=
        ⟨.store inside, rfl, sole.unmapEntry member inside read isValid⟩
      refine first.trans (ih first.sole rfl (Nat.cast_succ low).symm (fun i above below => ?_) done)
      refine (maps_store inside { pte with valid := false } i).trans ?_
      rw [if_neg (by simp only [Int.toNat_natCast]; omega)]
      exact valid i (by omega) (by omega)

/-- The loop of the memory trap maps invalid pages to new frames. -/
theorem Sole.growStack {count : Nat} {ptep : PtePtr} {mapped : Bool} (sole : Sole procs slots m)
    (member : p ∈ procs) (table : ptep.table = (m.pcbs p).r1PageTable)
    (done : m.growStack count ptep = .ok (mapped, n)) (fed : n.frameList.starved = false) :
    Reworks own p procs slots m n := by
  induction count generalizing m ptep with
  | zero =>
      cases done
      exact .refl sole
  | succ count ih =>
      obtain ⟨pte, -, done⟩ := Outcome.bind_eq_ok.mp done
      split at done
      · have next : ptep.previous.table = (m.pcbs p).r1PageTable := table
        exact ih sole next done
      · split at done
        · rename_i frames got
          cases done
          rw [getFrame_starves got] at fed
          cases fed
        · rename_i pfn frames got
          obtain ⟨k, wrote, done⟩ := Outcome.bind_eq_ok.mp done
          have first : Reworks own p procs slots m k :=
            sole.mapTurn member table got wrote (CallsFrames.steady.growStack done) fed
          have next : ptep.previous.table = (k.pcbs p).r1PageTable := table.trans first.table.symm
          exact first.trans (ih first.sole next done)

/-- `LoadProgram` gives the frames of the old valid pages back. -/
theorem Sole.freeValidPages {count index : Nat} (sole : Sole procs slots m) (member : p ∈ procs)
    (done : m.freeValidPages (m.pcbs p).r1PageTable count index = .ok n) :
    Reworks own p procs slots m n := by
  induction count generalizing m index with
  | zero =>
      cases done
      exact .refl sole
  | succ count ih =>
      obtain ⟨pte, read, done⟩ := Outcome.bind_eq_ok.mp done
      split at done
      · exact ih sole done
      · rename_i isValid
        rw [Bool.not_eq_true, Bool.not_eq_false'] at isValid
        obtain ⟨k, wrote, done⟩ := Outcome.bind_eq_ok.mp done
        obtain ⟨-, read⟩ := readEntry_eq_ok.mp read
        obtain ⟨inside, old, found, tlb, fills, rfl⟩ := invalidatePageTableEntry_eq_ok wrote
        cases Option.some.inj (read.symm.trans found)
        have inside : m.Holds ⟨(m.pcbs p).r1PageTable, (index : Int)⟩ := inside
        have first : Reworks own p procs slots m { m with
            toMmu := { m.toMmu.store ⟨(m.pcbs p).r1PageTable, (index : Int)⟩
                { pte with valid := false } with
              tlb := tlb
              fills := fills }
            frameList := freeFrame m.frameList pte.pfn } :=
          ⟨.store inside, rfl, sole.unmapEntry member inside read isValid⟩
        exact first.trans (ih first.sole done)

/-- The last loop of `LoadProgram` changes only protections. -/
theorem Sole.protectText {count : Nat} {index : Int} (sole : Sole procs slots m)
    (member : p ∈ procs) (done : m.protectText (m.pcbs p).r1PageTable count index = .ok n) :
    Reworks own p procs slots m n := by
  induction count generalizing m index with
  | zero =>
      cases done
      exact .refl sole
  | succ count ih =>
      obtain ⟨pte, read, done⟩ := Outcome.bind_eq_ok.mp done
      obtain ⟨k, wrote, done⟩ := Outcome.bind_eq_ok.mp done
      obtain ⟨-, read⟩ := readEntry_eq_ok.mp read
      obtain ⟨inside, tlb, fills, rfl⟩ := setPageTableEntry_eq_ok wrote
      have first : Reworks own p procs slots m { m with
          toMmu := { m.toMmu.store ⟨(m.pcbs p).r1PageTable, index⟩
              { pte with prot := protReadExec } with
            tlb := tlb
            fills := fills } } :=
        ⟨.store inside, rfl, sole.keepEntry member inside read rfl rfl⟩
      exact first.trans (ih first.sole done)

end KernelMemory

end

end Yallnix

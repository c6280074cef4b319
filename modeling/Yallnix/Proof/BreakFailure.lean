import Yallnix.Proof.BreakPages
import Yallnix.Proof.BufferCheck

namespace Yallnix

section
variable [Hardware]

namespace Mmu

/-- A register names a table of full length. -/
structure Names (mmu : Mmu) (table : Addr) : Prop where
  register : table = mmu.regPtbr0 ∨ table = mmu.regPtbr1
  length : (mmu.tables table).length = maxPtLen

variable {mmu : Mmu} {table : Addr}

theorem Names.holds (names : mmu.Names table) {index : Int} (nonneg : 0 ≤ index)
    (below : index < maxPtLen) : mmu.Holds ⟨table, index⟩ := by
  refine ⟨nonneg, ?_⟩
  rw [names.length]
  change index.toNat < maxPtLen
  omega

theorem Names.getVirtualAddr (names : mmu.Names table) {index : Int} (nonneg : 0 ≤ index)
    (below : index < maxPtLen) : ∃ addr, mmu.getVirtualAddr ⟨table, index⟩ = some addr := by
  unfold Mmu.getVirtualAddr
  split
  · exact ⟨_, rfl⟩
  · rename_i notFirst
    split
    · exact ⟨_, rfl⟩
    · rename_i notSecond
      rcases names.register with same | same
      · exact absurd ⟨same, nonneg, below⟩ notFirst
      · exact absurd ⟨same, nonneg, below⟩ notSecond

end Mmu

namespace KernelMemory

variable {m n k : KernelMemory} {table : Addr} {baseVpn : Nat}

/-- The growth loop inside a named table does not stop. -/
theorem mapPages_ok {prot : Prot} {count page : Nat} (names : m.Names table)
    (above : baseVpn ≤ page) (below : page + count ≤ baseVpn + maxPtLen) :
    ∃ result, m.mapPages prot count (pagePtep table baseVpn page) = .ok result := by
  induction count generalizing m page with
  | zero => exact ⟨_, rfl⟩
  | succ count ih =>
      rw [KernelMemory.mapPages]
      split
      · exact ⟨_, rfl⟩
      · rename_i pfn frames _
        have low : 0 ≤ (page : Int) - baseVpn := by omega
        have high : (page : Int) - baseVpn < maxPtLen := by omega
        obtain ⟨addr, named⟩ := names.getVirtualAddr low high
        have inside : m.Holds (pagePtep table baseVpn page) := names.holds low high
        obtain ⟨next, stored⟩ := KernelMemory.setPageTableEntry_ok
          (m := { m with frameList := frames }) inside named ⟨true, prot, pfn⟩
        obtain ⟨-, tlb, fills, rfl⟩ := KernelMemory.setPageTableEntry_eq_ok stored
        rw [stored, Outcome.ok_bind, pagePtep_next]
        refine ih ?_ (by omega) (by omega)
        refine ⟨names.register, ?_⟩
        simp only [Mmu.store, pagePtep, Function.update_self, List.length_set, names.length]

/-- A growth fails exactly when frames run out, and then it took all of them. -/
theorem brkPages_failed {currBrk addr : Nat}
    (done : m.brkPages table baseVpn addr currBrk = .ok (false, n)) :
    m.frameList.available < (pagesBetween currBrk addr).length ∧
      n.frameList.available = 0 ∧
      (m.frameList.available = 0 → n.frameList.slots = m.frameList.slots ∧
        n.tables = m.tables) := by
  rw [brkPages_eq] at done
  split at done
  · obtain ⟨k, -, done⟩ := Outcome.bind_eq_ok.mp done
    cases done
  · obtain ⟨pfns, taken, all, writes, -⟩ := mapPages_eq_ok done
    have length := congrArg (fun result => result.1.length) taken
    have left := congrArg (fun result => result.2.available) taken
    simp only [takeFrames_length, takeFrames_available] at length left
    have short : pfns.length ≠ pageCeil addr - pageCeil currBrk := fun same => by
      have mapped := all.mpr same
      cases mapped
    rw [pagesBetween, List.length_range']
    refine ⟨by omega, by omega, fun empty => ?_⟩
    obtain ⟨nothing, slots⟩ : (takeFrames (pageCeil addr - pageCeil currBrk) m.frameList).1 = [] ∧
        (takeFrames (pageCeil addr - pageCeil currBrk) m.frameList).2.slots = m.frameList.slots :=
      takeFrames_of_available empty
    rw [taken] at nothing slots
    subst nothing
    refine ⟨slots, funext fun other => List.ext_getElem? fun i => ?_⟩
    exact writes.others other i fun _ => List.not_mem_nil

/-- No frame is free, or enough frames are free for all pages between the two breaks. -/
def FramesSuffice (m : KernelMemory) (currBrk addr : Nat) : Prop :=
  m.frameList.available = 0 ∨ (pagesBetween currBrk addr).length ≤ m.frameList.available

/-- A move of the break fails without a trace exactly when no frame is taken in vain. -/
theorem brkPages_keeps {currBrk addr : Nat} (names : m.Names table)
    (above : baseVpn * pageSize ≤ currBrk) (below : addr ≤ (baseVpn + maxPtLen) * pageSize) :
    (∀ n, m.brkPages table baseVpn addr currBrk = .ok (false, n) →
      n.tables = m.tables ∧ n.frameList.slots = m.frameList.slots) ↔
      m.FramesSuffice currBrk addr := by
  constructor
  · intro keeps
    by_contra short
    rw [FramesSuffice, not_or, Nat.not_le] at short
    obtain ⟨some, missing⟩ := short
    have grows : ¬addr < currBrk := fun shrinks => by
      have fewer := pageCeil_mono shrinks.le
      rw [pagesBetween, List.length_range'] at missing
      omega
    have high := pageCeil_le.mpr below
    have low : baseVpn ≤ pageCeil currBrk := by
      by_contra outside
      have reached := pageCeil_le.mp (le_refl (pageCeil currBrk))
      have less := Nat.mul_lt_mul_of_pos_right (Nat.not_le.mp outside) pageSize_pos
      omega
    have ordered := pageCeil_mono (Nat.not_lt.mp grows)
    have inside : pageCeil currBrk + (pageCeil addr - pageCeil currBrk) ≤ baseVpn + maxPtLen := by
      omega
    obtain ⟨⟨mapped, n⟩, done⟩ : ∃ result, m.mapPages protReadWrite _ _ = .ok result :=
      mapPages_ok names low inside
    have moved : m.brkPages table baseVpn addr currBrk = .ok (mapped, n) := by
      rw [brkPages_eq, if_neg grows, done]
    cases mapped with
    | true =>
        obtain ⟨pfns, taken, all, -, -⟩ := mapPages_eq_ok done
        have length := congrArg (fun result => result.1.length) taken
        simp only [takeFrames_length] at length
        rw [pagesBetween, List.length_range'] at missing
        have full := all.mp rfl
        omega
    | false =>
        obtain ⟨-, none, -⟩ := brkPages_failed moved
        have same := congrArg (List.countP Frame.isFree) (keeps n moved).2
        exact some (same.symm.trans none)
  · intro frames n done
    obtain ⟨missing, -, empty⟩ := brkPages_failed done
    rcases frames with none | enough
    · exact (empty none).symm
    · omega

theorem kernelBrk_error {addr : Nat} :
    m.kernelBrk addr = .ok (errorCode, n) ↔ getAddressRegion addr ≠ 1 ∧ n = m ∨
      getAddressRegion addr = 1 ∧
        m.brkPages m.curr.r1PageTable userBaseVpn addr m.curr.brk = .ok (false, n) := by
  unfold kernelBrk
  split
  · rename_i refused
    simp only [refused, ne_eq, not_false_eq_true, true_and, false_and, or_false]
    exact ⟨fun done => by cases done; rfl, fun same => by rw [same]; rfl⟩
  · rename_i accepted
    rw [not_not] at accepted
    simp only [accepted, ne_eq, not_true_eq_false, false_and, false_or, true_and,
      Outcome.bind_eq_ok]
    constructor
    · rintro ⟨⟨mapped, k⟩, pages, done⟩
      cases mapped with
      | true => cases done
      | false =>
          cases done
          exact pages
    · intro pages
      exact ⟨_, pages, rfl⟩

theorem setKernelBrk_error {addr : Nat} :
    m.setKernelBrk addr = .ok (errorCode, n) ↔
      (kernelStackBase ≤ addr ∨ addr < m.kernelDataEnd) ∧ n = m ∨
      ¬(kernelStackBase ≤ addr ∨ addr < m.kernelDataEnd) ∧ m.regVmEnable = true ∧
        m.brkPages m.regPtbr0 0 addr m.currKernelBrk = .ok (false, n) := by
  unfold setKernelBrk
  have same : .ok (errorCode, m) = (.ok (errorCode, n) : Outcome (Int × KernelMemory)) ↔ n = m :=
    ⟨fun done => by cases done; rfl, fun same => by rw [same]⟩
  by_cases high : kernelStackBase ≤ addr
  · simp only [high, if_true, true_or, not_true_eq_false, true_and, false_and, or_false]
    exact same
  by_cases low : addr < m.kernelDataEnd
  · simp only [high, low, if_false, if_true, or_true, not_true_eq_false, true_and, false_and,
      or_false]
    exact same
  simp only [high, low, if_false, or_false, false_and, false_or, not_false_eq_true, true_and]
  cases enabled : m.regVmEnable with
  | false =>
      simp only [Bool.false_eq_true, false_and, iff_false]
      exact nofun
  | true =>
      simp only [Bool.not_true, Bool.false_eq_true, if_false, true_and, Outcome.bind_eq_ok]
      constructor
      · rintro ⟨⟨mapped, k⟩, pages, done⟩
        cases mapped with
        | true => cases done
        | false =>
            cases done
            exact pages
      · rintro pages
        exact ⟨_, pages, rfl⟩

/-- A failed call keeps the page tables, the free frames and the break exactly when the address is
refused or the frames suffice. -/
theorem failedBreaks_keep (m : KernelMemory) (addr : Nat)
    (kernelTable : (m.tables m.regPtbr0).length = maxPtLen)
    (userTable : m.Names m.curr.r1PageTable) (userBrk : vmem1Base ≤ m.curr.brk) :
    ((∀ n, m.kernelBrk addr = .ok (errorCode, n) → n.tables = m.tables ∧
        n.frameList.slots = m.frameList.slots ∧ n.curr.brk = m.curr.brk) ↔
      getAddressRegion addr ≠ 1 ∨ m.FramesSuffice m.curr.brk addr) ∧
    ((∀ n, m.setKernelBrk addr = .ok (errorCode, n) → n.tables = m.tables ∧
        n.frameList.slots = m.frameList.slots ∧ n.currKernelBrk = m.currKernelBrk) ↔
      kernelStackBase ≤ addr ∨ addr < m.kernelDataEnd ∨ m.regVmEnable = false ∨
        m.FramesSuffice m.currKernelBrk addr) := by
  constructor
  · simp only [kernelBrk_error]
    by_cases accepted : getAddressRegion addr = 1
    · have inside := getAddressRegion_eq_one.mp accepted
      have below : addr ≤ (userBaseVpn + maxPtLen) * pageSize := by
        have limit := (Nat.div_lt_iff_lt_mul pageSize_pos).mp inside.2
        rw [userBaseVpn_eq, ← Nat.two_mul]
        exact limit.le
      have above : userBaseVpn * pageSize ≤ m.curr.brk := by
        rw [userBaseVpn_eq]
        exact userBrk
      rw [← brkPages_keeps userTable above below]
      simp only [accepted, ne_eq, not_true, false_and, false_or, true_and]
      constructor
      · intro keeps n done
        exact ⟨(keeps n done).1, (keeps n done).2.1⟩
      · intro keeps n done
        obtain ⟨⟨mmu, frames, rfl⟩, -, -⟩ := brkPages_rest done
        exact ⟨(keeps _ done).1, (keeps _ done).2, rfl⟩
    · simp only [accepted, ne_eq, not_false_eq_true, true_and, false_and, or_false, true_or,
        iff_true]
      rintro n rfl
      exact ⟨rfl, rfl, rfl⟩
  · simp only [setKernelBrk_error]
    by_cases refused : kernelStackBase ≤ addr ∨ addr < m.kernelDataEnd
    · simp only [refused, true_and, not_true, false_and, or_false]
      rw [← or_assoc]
      simp only [refused, true_or, iff_true]
      rintro n rfl
      exact ⟨rfl, rfl, rfl⟩
    · cases enabled : m.regVmEnable with
      | false => simp [refused]
      | true =>
          have below : addr ≤ (0 + maxPtLen) * pageSize := by
            rw [not_or, Nat.not_le, kernelStackBase] at refused
            rw [Nat.zero_add]
            exact refused.1.le.trans (Nat.mul_le_mul_right _ (Nat.sub_le _ _))
          rw [← brkPages_keeps ⟨Or.inl rfl, kernelTable⟩ (by rw [Nat.zero_mul]; omega) below]
          simp only [refused, false_and, false_or, not_false_eq_true, true_and]
          rw [← or_assoc]
          simp only [refused, false_or, reduceCtorEq]
          constructor
          · intro keeps n done
            exact ⟨(keeps n done).1, (keeps n done).2.1⟩
          · intro keeps n done
            obtain ⟨⟨mmu, frames, rfl⟩, -, -⟩ := brkPages_rest done
            exact ⟨(keeps _ done).1, (keeps _ done).2, rfl⟩

end KernelMemory

end

section
attribute [local instance] smallHardware

/-- One frame is left after the boot. -/
def scarceMemoryBoot : MemoryBoot := { smallMemoryBoot 32 with pmemSize := 176 }

/-- The refused address keeps the memory that the boot leaves. -/
theorem failedBreaks_keep_scarce : ∃ m, bootedMemory.Reachable m ∧
    (((∀ n, m.kernelBrk 176 = .ok (errorCode, n) → n.tables = m.tables ∧
        n.frameList.slots = m.frameList.slots ∧ n.curr.brk = m.curr.brk) ↔
      getAddressRegion 176 ≠ 1 ∨ m.FramesSuffice m.curr.brk 176) ∧
    ((∀ n, m.setKernelBrk 176 = .ok (errorCode, n) → n.tables = m.tables ∧
        n.frameList.slots = m.frameList.slots ∧ n.currKernelBrk = m.currKernelBrk) ↔
      kernelStackBase ≤ 176 ∨ 176 < m.kernelDataEnd ∨ m.regVmEnable = false ∨
        m.FramesSuffice m.currKernelBrk 176)) := by
  obtain ⟨m, run, tested⟩ := exists_memoryReachable
    (fun m => decide ((m.tables m.regPtbr0).length = maxPtLen ∧
      (m.curr.r1PageTable = m.regPtbr1 ∧ (m.tables m.curr.r1PageTable).length = maxPtLen) ∧
      vmem1Base ≤ m.curr.brk)) scarceMemoryBoot [] (by decide +kernel)
  obtain ⟨kernelTable, ⟨register, length⟩, userBrk⟩ := of_decide_eq_true tested
  exact ⟨m, run, KernelMemory.failedBreaks_keep m 176 kernelTable ⟨Or.inr register, length⟩ userBrk⟩

/-- A growth by two pages takes the only free frame and then fails. -/
theorem failedBreaks_keep_false : ¬ ∀ m, bootedMemory.Reachable m → ∀ addr n,
    m.kernelBrk addr = .ok (errorCode, n) → n.tables = m.tables ∧
      n.frameList.slots = m.frameList.slots ∧ n.curr.brk = m.curr.brk := by
  intro keeps
  obtain ⟨m, run, tested⟩ := exists_memoryReachable
    (fun m => m.frameList.available = 1 && leaves (fun n => n.frameList.available = 0)
      (m.kernelBrk 192 >>= fun result =>
        if result.1 = errorCode then .ok result.2 else .error .halt))
    scarceMemoryBoot [] (by decide +kernel)
  rw [Bool.and_eq_true, decide_eq_true_eq] at tested
  obtain ⟨n, done, empty⟩ := leaves_eq_true tested.2
  obtain ⟨⟨code, k⟩, called, done⟩ := Outcome.bind_eq_ok.mp done
  dsimp only at done
  split at done
  · rename_i failed
    subst failed
    cases done
    have same := congrArg (List.countP Frame.isFree) (keeps m run 192 n called).2.1
    change n.frameList.available = m.frameList.available at same
    rw [tested.1, of_decide_eq_true empty] at same
    cases same
  · cases done

end

end Yallnix

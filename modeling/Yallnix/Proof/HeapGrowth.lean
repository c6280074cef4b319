import Yallnix.Proof.BreakPages
import Yallnix.Proof.FreeNumbers
import Mathlib.Tactic.MkIffOfInductiveProp

namespace Yallnix

section
variable [Hardware]

namespace KernelMemory

variable {m n k : KernelMemory} {pfns : List Nat}

/-- The kernel heap grows below the temporary page, and the kernel keeps everything else. -/
structure Grows (m n : KernelMemory) : Prop where
  rest : ∃ mmu frames brk library written, n = { m with
    toMmu := mmu
    frameList := frames
    currKernelBrk := brk
    library := library
    breakWritten := written }
  regPtbr0 : n.regPtbr0 = m.regPtbr0
  regPtbr1 : n.regPtbr1 = m.regPtbr1
  entries : ∀ other (i : Nat), (other = m.regPtbr0 → tempIndex ≤ i) →
    (n.tables other)[i]? = (m.tables other)[i]?
  frames : Takes [] m.frameList n.frameList

namespace Grows

theorem refl (m : KernelMemory) : Grows m m :=
  ⟨⟨_, _, _, _, _, rfl⟩, rfl, rfl, fun _ _ _ => rfl, .refl _⟩

theorem trans (first : Grows m k) (second : Grows k n) : Grows m n where
  rest := by
    obtain ⟨_, _, _, _, _, rfl⟩ := first.rest
    obtain ⟨mmu, frames, brk, library, written, rfl⟩ := second.rest
    exact ⟨mmu, frames, brk, library, written, rfl⟩
  regPtbr0 := second.regPtbr0.trans first.regPtbr0
  regPtbr1 := second.regPtbr1.trans first.regPtbr1
  entries other i above :=
    (second.entries other i (by rwa [first.regPtbr0])).trans (first.entries other i above)
  frames := first.frames.trans second.frames

theorem takes {frames : FrameList} (takes : Takes pfns m.frameList frames) :
    Grows m { m with frameList := frames } where
  rest := ⟨_, frames, _, _, _, rfl⟩
  regPtbr0 := rfl
  regPtbr1 := rfl
  entries _ _ _ := rfl
  frames := takes.forget

/-- The temporary entry stays inside its table. -/
theorem temp (grows : Grows m n) (inside : tempIndex < (m.tables m.regPtbr0).length) :
    tempIndex < (n.tables n.regPtbr0).length := by
  have same := grows.entries m.regPtbr0 tempIndex fun _ => le_refl _
  rw [List.getElem?_eq_getElem inside] at same
  rw [grows.regPtbr0]
  exact (List.getElem?_eq_some_iff.mp same).1

end Grows

/-- A region 0 entry below the temporary one can be written. -/
theorem holds_page {page : Nat} (low : page ≤ tempIndex)
    (temp : tempIndex < (m.tables m.regPtbr0).length) :
    m.Holds (pagePtep m.regPtbr0 0 page) := by
  refine ⟨?_, ?_⟩
  · simp only [pagePtep]
    omega
  · simp only [pagePtep]
    omega

theorem named_page {page : Nat} (low : page < maxPtLen) :
    ∃ addr, m.getVirtualAddr (pagePtep m.regPtbr0 0 page) = some addr := by
  rw [Mmu.getVirtualAddr, if_pos]
  · exact ⟨_, rfl⟩
  · refine ⟨rfl, ?_, ?_⟩
    · simp only [pagePtep]
      omega
    · simp only [pagePtep]
      omega

/-- A write below the temporary page is a growth of the heap. -/
theorem Grows.setPageTableEntry {page : Nat} {pte : Pte} (low : page < tempIndex)
    (done : m.setPageTableEntry (pagePtep m.regPtbr0 0 page) pte = .ok n) :
    Grows m n ∧ n.frameList = m.frameList := by
  have writes := Writes.setPageTableEntry done
  obtain ⟨-, tlb, fills, rfl⟩ := setPageTableEntry_eq_ok done
  refine ⟨⟨⟨_, m.frameList, _, _, _, rfl⟩, rfl, rfl, fun other i above => ?_, .refl _⟩, rfl⟩
  refine writes.entries other i fun same => Or.inr ?_
  have far := above same
  simp only [pagePtep]
  omega

/-- With enough free frames the growth loop maps all its pages. -/
theorem mapPages_grows (prot : Prot) {count page : Nat} (low : page + count ≤ tempIndex)
    (small : tempIndex < maxPtLen) (temp : tempIndex < (m.tables m.regPtbr0).length)
    (enough : count ≤ m.frameList.freeNumbers.length) :
    ∃ n, m.mapPages prot count (pagePtep m.regPtbr0 0 page) = .ok (true, n) ∧ Grows m n ∧
      n.frameList.freeNumbers.length + count = m.frameList.freeNumbers.length := by
  induction count generalizing m page with
  | zero => exact ⟨m, rfl, .refl m, rfl⟩
  | succ count ih =>
      obtain ⟨pfn, rest, free⟩ := List.exists_cons_of_length_pos (Nat.lt_of_lt_of_le
        (Nat.succ_pos count) enough)
      obtain ⟨frames, found, taken⟩ := getFrame_takes free
      let k : KernelMemory := { m with frameList := frames }
      obtain ⟨addr, named⟩ := named_page (m := k) (show page < maxPtLen by omega)
      obtain ⟨stored, wrote⟩ := setPageTableEntry_ok (m := k)
        (holds_page (show page ≤ tempIndex by omega) temp) named ⟨true, prot, pfn⟩
      obtain ⟨grows, same⟩ := Grows.setPageTableEntry (m := k) (by omega) wrote
      have fewer : stored.frameList.freeNumbers.length + 1 = m.frameList.freeNumbers.length := by
        rw [same, free, taken.2, List.length_cons]
      obtain ⟨n, mapped, later, length⟩ := ih (m := stored)
        (show page + 1 + count ≤ tempIndex by omega) (grows.temp temp) (by omega)
      refine ⟨n, ?_, ?_, by omega⟩
      · rw [KernelMemory.mapPages, found]
        dsimp only
        rw [wrote, Outcome.ok_bind, pagePtep_next, ← mapped, grows.regPtbr0]
      · exact (Grows.takes taken.1).trans (grows.trans later)

/-- These calls of `SetKernelBrk` need this many new frames. The guards refuse the others. -/
def heapDemand (dataEnd : Nat) : List Nat → Nat → Nat
  | [], _ => 0
  | addr :: rest, brk =>
      if kernelStackBase ≤ addr ∨ addr < dataEnd then heapDemand dataEnd rest brk
      else (pageCeil addr - pageCeil brk) + heapDemand dataEnd rest addr

/-- The calls of `SetKernelBrk` raise the break and cut no part of the temporary page off. -/
def heapRises (dataEnd : Nat) : List Nat → Nat → Prop
  | [], _ => True
  | addr :: rest, brk =>
      if kernelStackBase ≤ addr ∨ addr < dataEnd then heapRises dataEnd rest brk
      else brk ≤ addr ∧ addr ≤ tempIndex * pageSize ∧ heapRises dataEnd rest addr

instance decidableHeapRises (dataEnd : Nat) :
    ∀ breaks brk, Decidable (heapRises dataEnd breaks brk)
  | [], _ => isTrue trivial
  | addr :: rest, brk =>
      have later := decidableHeapRises dataEnd rest
      inferInstanceAs (Decidable (if kernelStackBase ≤ addr ∨ addr < dataEnd then
        heapRises dataEnd rest brk
        else brk ≤ addr ∧ addr ≤ tempIndex * pageSize ∧ heapRises dataEnd rest addr))

/-- The frames suffice for these calls of `SetKernelBrk`, and `need` frames stay free. -/
@[mk_iff] structure Supplied (m : KernelMemory) (breaks : List Nat) (need : Nat) : Prop where
  temp : tempIndex < (m.tables m.regPtbr0).length
  rises : heapRises m.kernelDataEnd breaks m.currKernelBrk
  enough : need + heapDemand m.kernelDataEnd breaks m.currKernelBrk ≤
    m.frameList.freeNumbers.length

instance (m : KernelMemory) (breaks : List Nat) (need : Nat) : Decidable (m.Supplied breaks need) :=
  decidable_of_iff _ (supplied_iff m breaks need).symm

/-- A call of `SetKernelBrk` leaves enough frames for the next calls. -/
theorem setKernelBrk_grows {addr need : Nat} {breaks : List Nat} (small : tempIndex < maxPtLen)
    (supplied : m.Supplied (addr :: breaks) need) :
    ∃ code n, m.setKernelBrk addr = .ok (code, n) ∧ Grows m n ∧ n.library = m.library ∧
      n.Supplied breaks need := by
  obtain ⟨temp, rises, enough⟩ := supplied
  rw [heapRises] at rises
  rw [heapDemand] at enough
  unfold setKernelBrk
  by_cases high : kernelStackBase ≤ addr
  · rw [if_pos (Or.inl high)] at rises enough
    rw [if_pos high]
    exact ⟨_, m, rfl, .refl m, rfl, temp, rises, enough⟩
  rw [if_neg high]
  by_cases low : addr < m.kernelDataEnd
  · rw [if_pos (Or.inr low)] at rises enough
    rw [if_pos low]
    exact ⟨_, m, rfl, .refl m, rfl, temp, rises, enough⟩
  rw [if_neg low]
  rw [if_neg (not_or.mpr ⟨high, low⟩)] at rises enough
  obtain ⟨raises, below, rises⟩ := rises
  cases enabled : m.regVmEnable with
  | false =>
      refine ⟨_, _, rfl, ⟨⟨_, _, _, _, _, rfl⟩, rfl, rfl, fun _ _ _ => rfl, .refl _⟩, rfl, temp,
        rises, ?_⟩
      change need + heapDemand m.kernelDataEnd breaks addr ≤ m.frameList.freeNumbers.length
      omega
  | true =>
      have top : pageCeil addr ≤ tempIndex := pageCeil_le.mpr below
      have ordered := pageCeil_mono raises
      obtain ⟨k, mapped, grows, length⟩ := mapPages_grows protReadWrite
        (show pageCeil m.currKernelBrk + (pageCeil addr - pageCeil m.currKernelBrk) ≤ tempIndex by
          omega) small temp (by omega)
      have moved : m.brkPages m.regPtbr0 0 addr m.currKernelBrk = .ok (true, k) := by
        rw [brkPages_eq, if_neg (Nat.not_lt.mpr raises)]
        exact mapped
      obtain ⟨mmu, frames, rfl⟩ := (Writes.mapPages mapped).rest
      rw [moved]
      refine ⟨_, _, rfl, grows.trans ⟨⟨_, _, _, _, _, rfl⟩, rfl, rfl, fun _ _ _ => rfl, .refl _⟩,
        rfl, grows.temp temp, rises, ?_⟩
      dsimp only at length ⊢
      omega

theorem moveBreaks_grows {need : Nat} {breaks rest : List Nat} (small : tempIndex < maxPtLen)
    (supplied : m.Supplied (breaks ++ rest) need) :
    ∃ n, m.moveBreaks breaks = .ok n ∧ Grows m n ∧ n.library = m.library ∧
      n.Supplied rest need := by
  induction breaks generalizing m with
  | nil => exact ⟨m, rfl, .refl m, rfl, supplied⟩
  | cons addr breaks ih =>
      obtain ⟨code, k, moved, grows, library, supplied⟩ := setKernelBrk_grows small supplied
      obtain ⟨n, moves, later, same, supplied⟩ := ih supplied
      exact ⟨n, Outcome.bind_eq_ok.mpr ⟨_, moved, moves⟩, grows.trans later, same.trans library,
        supplied⟩

/-- Every `malloc` finds memory, and the heap gets the frames that it asks for. -/
@[mk_iff] structure Allocates (m : KernelMemory) (need : Nat) : Prop where
  found : ∀ answer ∈ m.library, answer.found = true
  supplied : m.Supplied (m.library.flatMap LibraryAnswer.breaks) need

instance (m : KernelMemory) (need : Nat) : Decidable (m.Allocates need) :=
  decidable_of_iff _ (allocates_iff m need).symm

/-- `malloc` succeeds with enough free frames, and `need` frames stay free. -/
theorem malloc_grows {need : Nat} (small : tempIndex < maxPtLen) (allocates : m.Allocates need) :
    ∃ n, m.malloc = .ok (true, n) ∧ Grows m n ∧ n.Allocates need := by
  obtain ⟨found, supplied⟩ := allocates
  unfold malloc
  cases answers : m.library with
  | nil => exact ⟨m, rfl, .refl m, found, supplied⟩
  | cons answer library =>
      rw [answers] at found supplied
      have ready : Supplied { m with library := library }
          (answer.breaks ++ library.flatMap LibraryAnswer.breaks) need :=
        ⟨supplied.temp, supplied.rises, supplied.enough⟩
      obtain ⟨n, moved, grows, same, rest⟩ := moveBreaks_grows small ready
      have first : Grows m { m with library := library } :=
        ⟨⟨_, _, _, _, _, rfl⟩, rfl, rfl, fun _ _ _ => rfl, .refl _⟩
      refine ⟨n, Outcome.bind_eq_ok.mpr ⟨n, moved, ?_⟩, first.trans grows, ?_, ?_⟩
      · rw [found answer List.mem_cons_self]
        rfl
      · rw [same]
        exact fun other later => found other (List.mem_cons_of_mem _ later)
      · rw [same]
        exact rest

end KernelMemory

end

end Yallnix

import Yallnix.Proof.MmuStep

namespace Yallnix

section
variable [Hardware]

namespace Mmu

omit [Hardware] in
/-- A stored entry is found again, and all other entries of the tables stay. -/
theorem store_tables {mmu : Mmu} {ptep : PtePtr} (pte : Pte) (inside : mmu.Holds ptep)
    (table : Addr) (i : Nat) :
    ((mmu.store ptep pte).tables table)[i]? =
      if table = ptep.table ∧ i = ptep.index.toNat then some pte else (mmu.tables table)[i]? := by
  by_cases same : table = ptep.table
  · subst same
    dsimp only [store]
    rw [Function.update_self]
    by_cases here : i = ptep.index.toNat
    · rw [if_pos ⟨rfl, here⟩, here, List.getElem?_set_self inside.2]
    · rw [if_neg fun both => here both.2, List.getElem?_set_ne (Ne.symm here)]
  · dsimp only [store]
    rw [Function.update_of_ne same, if_neg fun both => same both.1]

end Mmu

namespace KernelMemory

/-- Some code takes or frees frames and writes entries with these indices of one table. -/
structure Writes (table : Addr) (low high : Int) (m n : KernelMemory) : Prop where
  rest : ∃ mmu frames, n = { m with toMmu := mmu, frameList := frames }
  regVmEnable : n.regVmEnable = m.regVmEnable
  regPtbr0 : n.regPtbr0 = m.regPtbr0
  regPtbr1 : n.regPtbr1 = m.regPtbr1
  written : ∃ new : List PtePtr, n.written = new ++ m.written ∧
    ∀ ptep ∈ new, low ≤ ptep.index ∧ ptep.index < high
  entries : ∀ other (i : Nat), (other = table → (i : Int) < low ∨ high ≤ i) →
    (n.tables other)[i]? = (m.tables other)[i]?

variable {m n k : KernelMemory} {table : Addr} {low high : Int}

namespace Writes

theorem frames (m : KernelMemory) (frames : FrameList) :
    Writes table low high m { m with frameList := frames } where
  rest := ⟨m.toMmu, frames, rfl⟩
  regVmEnable := rfl
  regPtbr0 := rfl
  regPtbr1 := rfl
  written := ⟨[], rfl, nofun⟩
  entries _ _ _ := rfl

theorem refl (m : KernelMemory) : Writes table low high m m := frames m m.frameList

theorem trans (first : Writes table low high m k) (second : Writes table low high k n) :
    Writes table low high m n where
  rest := by
    obtain ⟨_, _, rfl⟩ := first.rest
    obtain ⟨mmu, frames, rfl⟩ := second.rest
    exact ⟨mmu, frames, rfl⟩
  regVmEnable := second.regVmEnable.trans first.regVmEnable
  regPtbr0 := second.regPtbr0.trans first.regPtbr0
  regPtbr1 := second.regPtbr1.trans first.regPtbr1
  written := by
    obtain ⟨older, before, inFirst⟩ := first.written
    obtain ⟨newer, after, inSecond⟩ := second.written
    refine ⟨newer ++ older, by rw [after, before, List.append_assoc], fun ptep listed => ?_⟩
    rcases List.mem_append.mp listed with recent | old
    · exact inSecond ptep recent
    · exact inFirst ptep old
  entries other i outside := (second.entries other i outside).trans (first.entries other i outside)

theorem mono {low' high' : Int} (below : low' ≤ low) (above : high ≤ high')
    (writes : Writes table low high m n) : Writes table low' high' m n where
  rest := writes.rest
  regVmEnable := writes.regVmEnable
  regPtbr0 := writes.regPtbr0
  regPtbr1 := writes.regPtbr1
  written := by
    obtain ⟨new, eq, inside⟩ := writes.written
    refine ⟨new, eq, fun ptep listed => ?_⟩
    have range := inside ptep listed
    omega
  entries other i outside := writes.entries other i fun same => by
    have range := outside same
    omega

/-- A stored entry is one write. -/
theorem store {ptep : PtePtr} {pte : Pte} {tlb : Nat → Option Translation}
    {fills : List (List Nat)} (inside : m.Holds ptep) :
    Writes ptep.table ptep.index (ptep.index + 1) m
      { m with toMmu := { m.toMmu.store ptep pte with tlb := tlb, fills := fills } } where
  rest := ⟨_, m.frameList, rfl⟩
  regVmEnable := rfl
  regPtbr0 := rfl
  regPtbr1 := rfl
  written := by
    refine ⟨[ptep], rfl, fun other listed => ?_⟩
    rw [List.mem_singleton.mp listed]
    omega
  entries other i outside := by
    refine (m.toMmu.store_tables pte inside other i).trans (if_neg ?_)
    rintro ⟨same, here⟩
    have range := outside same
    have nonneg := inside.1
    omega

theorem setPageTableEntry {ptep : PtePtr} {pte : Pte}
    (done : m.setPageTableEntry ptep pte = .ok n) :
    Writes ptep.table ptep.index (ptep.index + 1) m n := by
  obtain ⟨inside, _, _, rfl⟩ := setPageTableEntry_eq_ok done
  exact store inside

theorem invalidatePageTableEntry {ptep : PtePtr}
    (done : m.invalidatePageTableEntry ptep = .ok n) :
    Writes ptep.table ptep.index (ptep.index + 1) m n := by
  obtain ⟨inside, _, -, _, _, rfl⟩ := invalidatePageTableEntry_eq_ok done
  exact store inside

theorem mapPages {prot : Prot} {count : Nat} {ptep : PtePtr} {mapped : Bool}
    (done : m.mapPages prot count ptep = .ok (mapped, n)) :
    Writes ptep.table ptep.index (ptep.index + count) m n := by
  induction count generalizing m ptep with
  | zero =>
      cases done
      exact refl _
  | succ count ih =>
      rw [KernelMemory.mapPages] at done
      split at done
      · cases done
        exact frames _ _
      · obtain ⟨stored, wrote, done⟩ := Outcome.bind_eq_ok.mp done
        have first := setPageTableEntry wrote
        have rest := ih done
        dsimp only [PtePtr.next] at rest
        exact (frames _ _).trans
          ((first.mono (by omega) (by omega)).trans (rest.mono (by omega) (by omega)))

theorem unmapPages {count : Nat} {ptep : PtePtr} (done : m.unmapPages count ptep = .ok n) :
    Writes ptep.table ptep.index (ptep.index + count) m n := by
  induction count generalizing m ptep with
  | zero =>
      cases done
      exact refl _
  | succ count ih =>
      obtain ⟨pte, -, done⟩ := Outcome.bind_eq_ok.mp done
      obtain ⟨stored, wrote, done⟩ := Outcome.bind_eq_ok.mp done
      have first := invalidatePageTableEntry wrote
      have rest := ih done
      dsimp only [PtePtr.next] at rest
      exact (frames _ _).trans
        ((first.mono (by omega) (by omega)).trans (rest.mono (by omega) (by omega)))

end Writes

/-- The last page with a byte below an address is one lower when the address starts a page. -/
theorem div_pageSize_bound {addr limit : Nat} (below : addr ≤ limit * pageSize) :
    addr / pageSize < limit ∨ addr / pageSize = limit ∧ downToPage addr = addr := by
  by_cases inside : addr / pageSize < limit
  · exact Or.inl inside
  · have floor : addr / pageSize * pageSize ≤ addr := Nat.div_mul_le_self _ _
    have upper : addr / pageSize ≤ limit := by
      have monotone : addr / pageSize ≤ limit * pageSize / pageSize := Nat.div_le_div_right below
      rwa [Nat.mul_div_cancel _ pageSize_pos] at monotone
    have same : addr / pageSize = limit := by omega
    refine Or.inr ⟨same, ?_⟩
    rw [downToPage, same]
    rw [same] at floor
    omega

/-- A move of the break between two addresses below a limit writes entries below the limit. -/
theorem brkPages_writes {addr currBrk limit : Nat} {moved : Bool}
    (newBelow : addr ≤ limit * pageSize) (oldBelow : currBrk ≤ limit * pageSize)
    (done : m.brkPages table 0 addr currBrk = .ok (moved, n)) : Writes table 0 limit m n := by
  have newPage := div_pageSize_bound newBelow
  have oldPage := div_pageSize_bound oldBelow
  have newInside : addr < currBrk → addr / pageSize < limit := fun shrinks =>
    (Nat.div_lt_iff_lt_mul pageSize_pos).mpr (by omega)
  have oldInside : currBrk < addr → currBrk / pageSize < limit := fun grows =>
    (Nat.div_lt_iff_lt_mul pageSize_pos).mpr (by omega)
  unfold KernelMemory.brkPages at done
  dsimp only at done
  generalize addr / pageSize = addrVpn at done newPage newInside
  generalize currBrk / pageSize = currBrkVpn at done oldPage oldInside
  split at done
  · obtain ⟨stored, unmapped, done⟩ := Outcome.bind_eq_ok.mp done
    cases done
    refine (Writes.unmapPages unmapped).mono ?_ ?_
    · dsimp only
      omega
    · dsimp only
      split <;> split <;> omega
  · split at done
    · split at done
      · rename_i shrinks
        obtain ⟨stored, unmapped, done⟩ := Outcome.bind_eq_ok.mp done
        cases done
        have inside := newInside shrinks.1
        refine (Writes.unmapPages unmapped).mono ?_ ?_
        all_goals
          dsimp only
          omega
      · split at done
        · rename_i grows
          have inside := oldInside grows.1
          refine (Writes.mapPages done).mono ?_ ?_
          all_goals
            dsimp only
            omega
        · cases done
          exact Writes.refl _
    · refine (Writes.mapPages done).mono ?_ ?_
      · dsimp only
        omega
      · dsimp only
        split <;> split <;> omega

/-- The C library may move the break of the kernel below the kernel stack. -/
structure HeapMoved (m n : KernelMemory) : Prop where
  rest : ∃ mmu frames brk library written, n = { m with
    toMmu := mmu
    frameList := frames
    currKernelBrk := brk
    library := library
    breakWritten := written }
  regVmEnable : n.regVmEnable = m.regVmEnable
  regPtbr0 : n.regPtbr0 = m.regPtbr0
  regPtbr1 : n.regPtbr1 = m.regPtbr1
  brk : n.currKernelBrk ≤ kernelStackBase
  entries : ∀ other (i : Nat), (other = m.regPtbr0 → r0StackBase ≤ i) →
    (n.tables other)[i]? = (m.tables other)[i]?

namespace HeapMoved

theorem refl (below : m.currKernelBrk ≤ kernelStackBase) : HeapMoved m m where
  rest := ⟨_, _, _, _, _, rfl⟩
  regVmEnable := rfl
  regPtbr0 := rfl
  regPtbr1 := rfl
  brk := below
  entries _ _ _ := rfl

theorem trans (first : HeapMoved m k) (second : HeapMoved k n) : HeapMoved m n where
  rest := by
    obtain ⟨_, _, _, _, _, rfl⟩ := first.rest
    obtain ⟨mmu, frames, brk, library, written, rfl⟩ := second.rest
    exact ⟨mmu, frames, brk, library, written, rfl⟩
  regVmEnable := second.regVmEnable.trans first.regVmEnable
  regPtbr0 := second.regPtbr0.trans first.regPtbr0
  regPtbr1 := second.regPtbr1.trans first.regPtbr1
  brk := second.brk
  entries other i above :=
    (second.entries other i (by rwa [first.regPtbr0])).trans (first.entries other i above)

theorem of_writes (below : m.currKernelBrk ≤ kernelStackBase)
    (writes : Writes m.regPtbr0 0 r0StackBase m n) : HeapMoved m n where
  rest := by
    obtain ⟨mmu, frames, rfl⟩ := writes.rest
    exact ⟨mmu, frames, _, _, _, rfl⟩
  regVmEnable := writes.regVmEnable
  regPtbr0 := writes.regPtbr0
  regPtbr1 := writes.regPtbr1
  brk := by
    obtain ⟨_, _, rfl⟩ := writes.rest
    exact below
  entries other i above := writes.entries other i fun same => by
    have range := above same
    omega

theorem setKernelBrk {addr : Nat} {code : Int} (below : m.currKernelBrk ≤ kernelStackBase)
    (done : m.setKernelBrk addr = .ok (code, n)) : HeapMoved m n := by
  unfold KernelMemory.setKernelBrk at done
  split at done
  · cases done
    exact refl below
  rename_i outsideStack
  have inside : addr ≤ kernelStackBase := by omega
  split at done
  · cases done
    exact refl below
  split at done
  · cases done
    exact ⟨⟨_, _, _, _, _, rfl⟩, rfl, rfl, rfl, inside, fun _ _ _ => rfl⟩
  obtain ⟨⟨moved, next⟩, pages, done⟩ := Outcome.bind_eq_ok.mp done
  have kept := of_writes below (brkPages_writes inside below pages)
  dsimp only at done
  split at done
  · cases done
    exact kept
  · cases done
    exact kept.trans ⟨⟨_, _, _, _, _, rfl⟩, rfl, rfl, rfl, inside, fun _ _ _ => rfl⟩

theorem moveBreaks {addrs : List Nat} (below : m.currKernelBrk ≤ kernelStackBase)
    (done : m.moveBreaks addrs = .ok n) : HeapMoved m n := by
  induction addrs generalizing m with
  | nil =>
      cases done
      exact refl below
  | cons addr rest ih =>
      obtain ⟨⟨code, k⟩, moved, done⟩ := Outcome.bind_eq_ok.mp done
      have first := setKernelBrk below moved
      exact first.trans (ih first.brk done)

theorem malloc {found : Bool} (below : m.currKernelBrk ≤ kernelStackBase)
    (done : m.malloc = .ok (found, n)) : HeapMoved m n := by
  unfold KernelMemory.malloc at done
  split at done
  · cases done
    exact refl below
  · rename_i answer library _
    obtain ⟨k, moved, done⟩ := Outcome.bind_eq_ok.mp done
    cases done
    have taken : HeapMoved m { m with library := library } :=
      ⟨⟨_, _, _, _, _, rfl⟩, rfl, rfl, rfl, below, fun _ _ _ => rfl⟩
    exact taken.trans (moveBreaks below moved)

end HeapMoved

end KernelMemory

end

end Yallnix

import Yallnix.Proof.BreakPages
import Yallnix.Proof.SiteFrame

namespace Yallnix

theorem maps_of_getElem? {table : PageTable} {i : Nat} {pte : Pte} (found : table[i]? = some pte) :
    table.maps i = pte.valid := by
  rw [PageTable.maps, found]
  rfl

/-- A call of `getFrame` that finds no frame sets the ghost bit. -/
theorem getFrame_starves {list next : FrameList} (got : getFrame list = (none, next)) :
    next.starved = true := by
  have starved := getFrame_starved list
  rw [got] at starved
  have used : list.frames.all (fun frame => !frame.isFree) = true := by
    refine List.all_eq_true.mpr fun frame listed => ?_
    rw [(getFrame_none got).1 frame (List.mem_append_left _ listed)]
    rfl
  exact starved.trans (by rw [used, Bool.or_true])

section
variable [Hardware]

namespace KernelMemory

variable {m n k : KernelMemory} {own written : Set Addr} {table p : Addr}

/-- A stored entry decides whether its page is valid. -/
theorem maps_store {ptep : PtePtr} (inside : m.Holds ptep) (pte : Pte) (i : Nat) :
    ((m.toMmu.store ptep pte).tables ptep.table).maps i =
      if i = ptep.index.toNat then pte.valid else (m.tables ptep.table).maps i := by
  rw [PageTable.maps, m.toMmu.store_tables pte inside]
  by_cases here : i = ptep.index.toNat
  · rw [if_pos ⟨rfl, here⟩, if_pos here]
    rfl
  · rw [if_neg fun both => here both.2, if_neg here]
    rfl

/-- The valid pages of a table stay valid. -/
def KeepsValid (table : Addr) (m n : KernelMemory) : Prop :=
  ∀ i, (m.tables table).maps i = true → (n.tables table).maps i = true

theorem KeepsValid.trans (first : KeepsValid table m k) (second : KeepsValid table k n) :
    KeepsValid table m n := fun i valid => second i (first i valid)

/-- A written valid entry makes its page valid. -/
theorem store_valid {ptep : PtePtr} {pte : Pte} (inside : m.Holds ptep) (valid : pte.valid = true)
    (stored : n.tables = (m.toMmu.store ptep pte).tables) : KeepsValid ptep.table m n ∧
      0 ≤ ptep.index ∧ (n.tables ptep.table).maps ptep.index.toNat = true := by
  unfold KeepsValid
  rw [stored]
  have maps := maps_store inside pte
  refine ⟨fun i before => (maps i).trans ?_, inside.1, (maps _).trans ((if_pos rfl).trans valid)⟩
  split
  · exact valid
  · exact before

theorem setPageTableEntry_valid {ptep : PtePtr} {pte : Pte} (valid : pte.valid = true)
    (done : m.setPageTableEntry ptep pte = .ok n) : KeepsValid ptep.table m n ∧ 0 ≤ ptep.index ∧
      (n.tables ptep.table).maps ptep.index.toNat = true := by
  obtain ⟨inside, _, _, rfl⟩ := setPageTableEntry_eq_ok done
  exact store_valid inside valid rfl

/-- The growth loops make all their pages valid or miss a frame. -/
theorem mapPages_valid {prot : Prot} {count : Nat} {ptep : PtePtr} {mapped : Bool}
    (done : m.mapPages prot count ptep = .ok (mapped, n)) : KeepsValid ptep.table m n ∧
      if mapped then ∀ i : Nat, ptep.index ≤ i → (i : Int) < ptep.index + count →
        (n.tables ptep.table).maps i = true
      else n.frameList.starved = true := by
  induction count generalizing m ptep with
  | zero =>
      cases done
      exact ⟨fun _ => id, fun i low high => by omega⟩
  | succ count ih =>
      rw [KernelMemory.mapPages] at done
      split at done
      · rename_i frames got
        cases done
        exact ⟨fun _ => id, getFrame_starves got⟩
      · obtain ⟨k, wrote, done⟩ := Outcome.bind_eq_ok.mp done
        obtain ⟨first, nonneg, here⟩ := setPageTableEntry_valid rfl wrote
        obtain ⟨later, new⟩ := ih done
        refine ⟨first.trans later, ?_⟩
        split
        · rename_i all
          rw [if_pos all] at new
          intro i low high
          by_cases same : (i : Int) = ptep.index
          · refine later i ?_
            rwa [← same, Int.toNat_natCast] at here
          · refine new i ?_ ?_
            all_goals
              dsimp only [PtePtr.next]
              omega
        · rename_i missing
          rwa [if_neg missing] at new

/-- The loop of the memory trap keeps valid pages. -/
theorem growStack_valid {count : Nat} {ptep : PtePtr} {mapped : Bool}
    (done : m.growStack count ptep = .ok (mapped, n)) : KeepsValid ptep.table m n ∧
      (mapped = false → n.frameList.starved = true) := by
  induction count generalizing m ptep with
  | zero =>
      cases done
      exact ⟨fun _ => id, nofun⟩
  | succ count ih =>
      obtain ⟨pte, -, done⟩ := Outcome.bind_eq_ok.mp done
      have later : ∀ {l : KernelMemory}, l.growStack count ptep.previous = .ok (mapped, n) →
          KeepsValid ptep.table l n ∧ (mapped = false → n.frameList.starved = true) := by
        intro l rest
        have valid := ih rest
        exact valid
      split at done
      · exact later done
      · split at done
        · rename_i frames got
          cases done
          exact ⟨fun _ => id, fun _ => getFrame_starves got⟩
        · obtain ⟨k, wrote, done⟩ := Outcome.bind_eq_ok.mp done
          obtain ⟨first, -, -⟩ := setPageTableEntry_valid rfl wrote
          obtain ⟨later, starved⟩ := later done
          exact ⟨first.trans later, starved⟩

/-- The last loop of `LoadProgram` keeps valid pages. -/
theorem protectText_valid {count : Nat} {index : Int}
    (done : m.protectText table count index = .ok n) : KeepsValid table m n := by
  induction count generalizing m index with
  | zero =>
      cases done
      exact fun _ => id
  | succ count ih =>
      obtain ⟨pte, read, done⟩ := Outcome.bind_eq_ok.mp done
      obtain ⟨k, wrote, done⟩ := Outcome.bind_eq_ok.mp done
      obtain ⟨-, read⟩ := readEntry_eq_ok.mp read
      obtain ⟨inside, _, _, rfl⟩ := setPageTableEntry_eq_ok wrote
      refine KeepsValid.trans (fun i valid => ?_) (ih done)
      refine (maps_store inside { pte with prot := protReadExec } i).trans ?_
      split
      · rename_i here
        subst here
        exact (maps_of_getElem? read).symm.trans valid
      · exact valid

namespace Spares

theorem of_writes {low high : Int} (writes : Writes table low high m n) :
    Spares own {table} m n := by
  have entries := writes.entries
  have region0 := writes.regPtbr0
  obtain ⟨mmu, frames, rfl⟩ := writes.rest
  exact ⟨region0, rfl, rfl, fun _ _ => rfl, fun _ _ => rfl, fun _ _ => rfl,
    fun other away i _ => entries other i fun same => absurd same away, id⟩

/-- The C library changes only entries of region 0. -/
theorem setKernelBrk {addr : Nat} {code : Int} (done : m.setKernelBrk addr = .ok (code, n)) :
    Spares ∅ {m.regPtbr0} m n := by
  unfold KernelMemory.setKernelBrk at done
  split at done
  · cases done
    exact .refl _ _ m
  split at done
  · cases done
    exact .refl _ _ m
  have rest : ∀ (l : KernelMemory) (brk : Nat) (list : List PtePtr), Spares ∅ {m.regPtbr0} l
      { l with currKernelBrk := brk, breakWritten := list } := fun l brk list =>
    ⟨rfl, rfl, rfl, fun _ _ => rfl, fun _ _ => rfl, fun _ _ => rfl, fun _ _ _ _ => rfl, id⟩
  split at done
  · cases done
    exact rest m _ _
  obtain ⟨⟨moved, next⟩, pages, done⟩ := Outcome.bind_eq_ok.mp done
  have spares : Spares ∅ {m.regPtbr0} m next := by
    rw [brkPages_eq] at pages
    split at pages
    · obtain ⟨l, unmapped, pages⟩ := Outcome.bind_eq_ok.mp pages
      cases pages
      exact of_writes (Writes.unmapPages unmapped)
    · exact of_writes (Writes.mapPages pages)
  dsimp only at done
  split at done
  · cases done
    exact spares
  · cases done
    exact spares.trans (rest next _ _)

theorem moveBreaks {addrs : List Nat} (done : m.moveBreaks addrs = .ok n) :
    Spares ∅ {m.regPtbr0} m n := by
  induction addrs generalizing m with
  | nil =>
      cases done
      exact .refl _ _ _
  | cons addr rest ih =>
      obtain ⟨⟨code, k⟩, moved, done⟩ := Outcome.bind_eq_ok.mp done
      have first := setKernelBrk moved
      have later := ih done
      rw [first.regPtbr0] at later
      exact first.trans later

theorem malloc {found : Bool} (done : m.malloc = .ok (found, n)) : Spares ∅ {m.regPtbr0} m n := by
  unfold KernelMemory.malloc at done
  split at done
  · cases done
    exact .refl _ _ _
  · rename_i answer library answers
    obtain ⟨k, moved, done⟩ := Outcome.bind_eq_ok.mp done
    cases done
    have taken : Spares ∅ {m.regPtbr0} m { m with library := library } := by
      refine ⟨rfl, rfl, rfl, fun _ _ => rfl, fun _ _ => rfl, fun _ _ => rfl, fun _ _ _ _ => rfl,
        fun quiet later listed => ?_⟩
      exact quiet later (answers ▸ List.mem_cons_of_mem _ listed)
    exact taken.trans (moveBreaks moved)

end Spares

/-- All pages below the break of a process are valid. -/
structure HeapMapped (p : Addr) (m : KernelMemory) : Prop where
  limit : (m.pcbs p).brk ≤ vmem1Limit
  mapped : ∀ i, maxPtLen + i < pageCeil (m.pcbs p).brk →
    (m.tables (m.pcbs p).r1PageTable).maps i = true

namespace HeapMapped

/-- A spared process keeps its heap. -/
theorem of_spares (heap : HeapMapped p m) (spares : Spares own written m n) (other : p ∉ own)
    (away : (m.pcbs p).r1PageTable ∉ written) (kernel : (m.pcbs p).r1PageTable ≠ m.regPtbr0) :
    HeapMapped p n where
  limit := by
    rw [spares.brk p other]
    exact heap.limit
  mapped i below := by
    rw [spares.brk p other] at below
    rw [spares.r1PageTable p other, PageTable.maps,
      spares.entries _ away i fun same => absurd same kernel]
    exact heap.mapped i below

/-- New valid pages keep the heap mapped. -/
theorem of_keepsValid (heap : HeapMapped p m) (spares : Spares own written m n) (other : p ∉ own)
    (keeps : KeepsValid (m.pcbs p).r1PageTable m n) : HeapMapped p n where
  limit := by
    rw [spares.brk p other]
    exact heap.limit
  mapped i below := by
    rw [spares.brk p other] at below
    rw [spares.r1PageTable p other]
    exact keeps i (heap.mapped i below)

/-- A new break must have valid pages below it. -/
theorem setBrk {addr : Nat} (limit : addr ≤ vmem1Limit) (mapped : ∀ i, maxPtLen + i < pageCeil addr →
    (m.tables (m.pcbs p).r1PageTable).maps i = true) :
    HeapMapped p (m.updatePcb p fun pcb => { pcb with brk := addr }) := by
  have own : (m.updatePcb p fun pcb => { pcb with brk := addr }).pcbs p =
      { m.pcbs p with brk := addr } := Function.update_self _ _ _
  refine ⟨?_, fun i below => ?_⟩
  · rw [own]
    exact limit
  · rw [own] at below ⊢
    exact mapped i below

end HeapMapped

end KernelMemory

end

end Yallnix

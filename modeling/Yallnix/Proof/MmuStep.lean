import Yallnix.Construction.KernelMemory

namespace Yallnix

theorem readEntry_eq_ok {table : PageTable} {index : Int} {pte : Pte} :
    readEntry table index = .ok pte ↔ 0 ≤ index ∧ table[index.toNat]? = some pte := by
  unfold readEntry
  split
  · rename_i nonneg
    cases found : table[index.toNat]? with
    | none => simp
    | some entry => simp [nonneg]
  · rename_i negative
    simp [negative]

theorem setPageTableEntry_eq_ok {table next : PageTable} {index : Int} {pte : Pte} :
    setPageTableEntry table index pte = .ok next ↔
      0 ≤ index ∧ index.toNat < table.length ∧ next = table.set index.toNat pte := by
  unfold setPageTableEntry
  split
  · rename_i inside
    have nonneg := inside.1
    have short : index.toNat < table.length := by omega
    simp [nonneg, short, eq_comm]
  · rename_i outside
    constructor
    · intro done
      cases done
    · rintro ⟨nonneg, short, -⟩
      exact absurd ⟨nonneg, by omega⟩ outside

namespace Mmu

section
variable [Hardware]

/-- A write of one entry changes no register. -/
def store (ptep : PtePtr) (pte : Pte) (mmu : Mmu) : Mmu :=
  { mmu with
    tables := Function.update mmu.tables ptep.table
      ((mmu.tables ptep.table).set ptep.index.toNat pte)
    written := ptep :: mmu.written }

/-- The entry lies inside its table. -/
def Holds (mmu : Mmu) (ptep : PtePtr) : Prop :=
  0 ≤ ptep.index ∧ ptep.index.toNat < (mmu.tables ptep.table).length

theorem cache_eq (mmu : Mmu) (vpn : Nat) : ∃ tlb, mmu.cache vpn = { mmu with tlb := tlb } := by
  unfold cache
  split
  · exact ⟨mmu.tlb, rfl⟩
  · split
    · exact ⟨_, rfl⟩
    · exact ⟨mmu.tlb, rfl⟩

theorem foldl_cache_eq (vpns : List Nat) (mmu : Mmu) :
    ∃ tlb, vpns.foldl cache mmu = { mmu with tlb := tlb } := by
  induction vpns generalizing mmu with
  | nil => exact ⟨mmu.tlb, rfl⟩
  | cons vpn rest ih =>
      obtain ⟨first, cached⟩ := mmu.cache_eq vpn
      obtain ⟨last, folded⟩ := ih (mmu.cache vpn)
      exact ⟨last, by rw [List.foldl_cons, folded, cached]⟩

/-- The hardware changes only the TLB before an access. -/
theorem tick_eq (mmu : Mmu) :
    ∃ tlb fills, mmu.tick = { mmu with tlb := tlb, fills := fills } := by
  unfold tick
  split
  · exact ⟨mmu.tlb, mmu.fills, rfl⟩
  · rename_i vpns fills _
    dsimp only
    split
    · obtain ⟨tlb, folded⟩ := foldl_cache_eq vpns { mmu with fills := fills }
      exact ⟨tlb, fills, folded⟩
    · exact ⟨mmu.tlb, fills, rfl⟩

theorem writeField_eq_ok {mmu next : Mmu} {ptep : PtePtr} {field : Pte → Pte}
    (done : mmu.writeField ptep field = .ok next) :
    ∃ old tlb fills, mmu.Holds ptep ∧ (mmu.tables ptep.table)[ptep.index.toNat]? = some old ∧
      next = { mmu with
        tlb := tlb
        fills := fills
        tables := Function.update mmu.tables ptep.table
          ((mmu.tables ptep.table).set ptep.index.toNat (field old)) } := by
  unfold writeField at done
  obtain ⟨tlb, fills, ticked⟩ := mmu.tick_eq
  rw [ticked] at done
  obtain ⟨old, read, done⟩ := Outcome.bind_eq_ok.mp done
  obtain ⟨table, written, done⟩ := Outcome.bind_eq_ok.mp done
  obtain ⟨nonneg, found⟩ := readEntry_eq_ok.mp read
  obtain ⟨-, short, rfl⟩ := setPageTableEntry_eq_ok.mp written
  cases done
  exact ⟨old, tlb, fills, ⟨nonneg, short⟩, found, rfl⟩

/-- A write of a field stops only outside of the table. -/
theorem writeField_ok {mmu : Mmu} {ptep : PtePtr} (inside : mmu.Holds ptep) (field : Pte → Pte) :
    ∃ next, mmu.writeField ptep field = .ok next := by
  obtain ⟨tlb, fills, ticked⟩ := mmu.tick_eq
  obtain ⟨pte, found⟩ : ∃ pte, (mmu.tables ptep.table)[ptep.index.toNat]? = some pte :=
    ⟨_, List.getElem?_eq_getElem inside.2⟩
  have read : readEntry (mmu.tables ptep.table) ptep.index = .ok pte :=
    readEntry_eq_ok.mpr ⟨inside.1, found⟩
  have written : Yallnix.setPageTableEntry (mmu.tables ptep.table) ptep.index (field pte) =
      .ok ((mmu.tables ptep.table).set ptep.index.toNat (field pte)) :=
    Yallnix.setPageTableEntry_eq_ok.mpr ⟨inside.1, inside.2, rfl⟩
  rw [writeField, ticked]
  exact ⟨_, Outcome.bind_eq_ok.mpr ⟨pte, read, Outcome.bind_eq_ok.mpr ⟨_, written, rfl⟩⟩⟩

theorem writeField_holds {mmu next : Mmu} {ptep : PtePtr} {field : Pte → Pte}
    (done : mmu.writeField ptep field = .ok next) : next.Holds ptep := by
  obtain ⟨_, _, _, inside, -, rfl⟩ := writeField_eq_ok done
  refine ⟨inside.1, ?_⟩
  simp only [Function.update_self, List.length_set]
  exact inside.2

theorem setPageTableEntryNoFlush_ok {mmu : Mmu} {ptep : PtePtr} (inside : mmu.Holds ptep)
    (pte : Pte) : ∃ next, mmu.setPageTableEntryNoFlush ptep pte = .ok next := by
  obtain ⟨first, wroteValid⟩ := writeField_ok inside fun old => { old with valid := pte.valid }
  obtain ⟨second, wroteProt⟩ := writeField_ok (writeField_holds wroteValid)
    fun old => { old with prot := pte.prot }
  obtain ⟨third, wrotePfn⟩ := writeField_ok (writeField_holds wroteProt)
    fun old => { old with pfn := pte.pfn }
  exact ⟨_, Outcome.bind_eq_ok.mpr ⟨first, wroteValid, Outcome.bind_eq_ok.mpr ⟨second, wroteProt,
    Outcome.bind_eq_ok.mpr ⟨third, wrotePfn, rfl⟩⟩⟩⟩

/-- The three writes of `setPageTableEntryNoFlush` store the whole entry. -/
theorem setPageTableEntryNoFlush_eq_ok {mmu next : Mmu} {ptep : PtePtr} {pte : Pte}
    (done : mmu.setPageTableEntryNoFlush ptep pte = .ok next) :
    mmu.Holds ptep ∧
      ∃ tlb fills, next = { mmu.store ptep pte with tlb := tlb, fills := fills } := by
  unfold setPageTableEntryNoFlush at done
  obtain ⟨first, wroteValid, done⟩ := Outcome.bind_eq_ok.mp done
  obtain ⟨second, wroteProt, done⟩ := Outcome.bind_eq_ok.mp done
  obtain ⟨third, wrotePfn, done⟩ := Outcome.bind_eq_ok.mp done
  obtain ⟨old, _, _, inside, -, rfl⟩ := writeField_eq_ok wroteValid
  obtain ⟨valid, _, _, -, foundValid, rfl⟩ := writeField_eq_ok wroteProt
  obtain ⟨prot, tlb, fills, -, foundProt, rfl⟩ := writeField_eq_ok wrotePfn
  cases done
  refine ⟨inside, tlb, fills, ?_⟩
  simp only [Function.update_self, List.getElem?_set_self, List.length_set, inside.2,
    Option.some.injEq] at foundValid foundProt
  subst foundValid
  subst foundProt
  simp only [store, Function.update_self, Function.update_idem, List.set_set]

theorem flushPage_eq (mmu : Mmu) (addr : Nat) :
    ∃ tlb fills, mmu.flushPage addr = { mmu with tlb := tlb, fills := fills } := by
  obtain ⟨tlb, fills, ticked⟩ := mmu.tick_eq
  exact ⟨_, fills, by rw [flushPage, ticked]⟩

/-- `setPageTableEntry` stores the entry and flushes its page. -/
theorem setPageTableEntry_eq_ok {mmu next : Mmu} {ptep : PtePtr} {pte : Pte}
    (done : mmu.setPageTableEntry ptep pte = .ok next) :
    mmu.Holds ptep ∧
      ∃ tlb fills, next = { mmu.store ptep pte with tlb := tlb, fills := fills } := by
  unfold setPageTableEntry at done
  obtain ⟨stored, wrote, done⟩ := Outcome.bind_eq_ok.mp done
  obtain ⟨inside, tlb, fills, rfl⟩ := setPageTableEntryNoFlush_eq_ok wrote
  split at done
  · cases done
  · rename_i addr _
    cases done
    obtain ⟨tlb, fills, flushed⟩ := flushPage_eq { mmu.store ptep pte with tlb, fills } addr
    exact ⟨inside, tlb, fills, flushed⟩

/-- A write with a flush stops only when no register names the table. -/
theorem setPageTableEntry_ok {mmu : Mmu} {ptep : PtePtr} (inside : mmu.Holds ptep) {addr : Nat}
    (named : mmu.getVirtualAddr ptep = some addr) (pte : Pte) :
    ∃ next, mmu.setPageTableEntry ptep pte = .ok next := by
  obtain ⟨stored, wrote⟩ := setPageTableEntryNoFlush_ok inside pte
  obtain ⟨-, tlb, fills, rfl⟩ := setPageTableEntryNoFlush_eq_ok wrote
  have same : Mmu.getVirtualAddr ptep { mmu.store ptep pte with tlb := tlb, fills := fills } =
      some addr := named
  refine ⟨Mmu.flushPage addr { mmu.store ptep pte with tlb := tlb, fills := fills },
    Outcome.bind_eq_ok.mpr ⟨_, wrote, ?_⟩⟩
  rw [same]
  rfl

/-- `invalidatePageTableEntry` keeps the frame number of the entry. -/
theorem invalidatePageTableEntry_eq_ok {mmu next : Mmu} {ptep : PtePtr}
    (done : mmu.invalidatePageTableEntry ptep = .ok next) :
    mmu.Holds ptep ∧ ∃ old, (mmu.tables ptep.table)[ptep.index.toNat]? = some old ∧
      ∃ tlb fills, next =
        { mmu.store ptep { old with valid := false } with tlb := tlb, fills := fills } := by
  unfold invalidatePageTableEntry at done
  obtain ⟨stored, wrote, done⟩ := Outcome.bind_eq_ok.mp done
  obtain ⟨old, tlb, fills, inside, found, rfl⟩ := writeField_eq_ok wrote
  refine ⟨inside, old, found, ?_⟩
  dsimp only at done
  split at done
  · split at done
    · cases done
    · rename_i addr _
      cases done
      obtain ⟨tlb, fills, flushed⟩ :=
        flushPage_eq { mmu.store ptep { old with valid := false } with tlb, fills } addr
      exact ⟨tlb, fills, flushed⟩
  · cases done
    exact ⟨tlb, fills, rfl⟩

end

end Mmu

namespace KernelMemory

section
variable [Hardware]

theorem orElse_eq_ok {stop : Stop} {result : Outcome (Bool × KernelMemory)} {m : KernelMemory} :
    orElse stop result = .ok m ↔ result = .ok (true, m) := by
  match result with
  | .ok (true, n) => simp [orElse]
  | .ok (false, n) => simp [orElse]
  | .error cause => simp [orElse]

/-- A write of one entry changes only what the memory management unit sees. -/
theorem setPageTableEntry_eq_ok {m n : KernelMemory} {ptep : PtePtr} {pte : Pte}
    (done : m.setPageTableEntry ptep pte = .ok n) :
    m.Holds ptep ∧ ∃ tlb fills, n =
      { m with toMmu := { m.toMmu.store ptep pte with tlb := tlb, fills := fills } } := by
  obtain ⟨mmu, wrote, done⟩ := Outcome.bind_eq_ok.mp done
  obtain ⟨inside, tlb, fills, rfl⟩ := Mmu.setPageTableEntry_eq_ok wrote
  cases done
  exact ⟨inside, tlb, fills, rfl⟩

theorem setPageTableEntryNoFlush_eq_ok {m n : KernelMemory} {ptep : PtePtr} {pte : Pte}
    (done : m.setPageTableEntryNoFlush ptep pte = .ok n) :
    m.Holds ptep ∧ ∃ tlb fills, n =
      { m with toMmu := { m.toMmu.store ptep pte with tlb := tlb, fills := fills } } := by
  obtain ⟨mmu, wrote, done⟩ := Outcome.bind_eq_ok.mp done
  obtain ⟨inside, tlb, fills, rfl⟩ := Mmu.setPageTableEntryNoFlush_eq_ok wrote
  cases done
  exact ⟨inside, tlb, fills, rfl⟩

theorem setPageTableEntry_ok {m : KernelMemory} {ptep : PtePtr} (inside : m.Holds ptep)
    {addr : Nat} (named : m.getVirtualAddr ptep = some addr) (pte : Pte) :
    ∃ n, m.setPageTableEntry ptep pte = .ok n := by
  obtain ⟨mmu, wrote⟩ := Mmu.setPageTableEntry_ok inside named pte
  exact ⟨_, Outcome.bind_eq_ok.mpr ⟨mmu, wrote, rfl⟩⟩

theorem setPageTableEntryNoFlush_ok {m : KernelMemory} {ptep : PtePtr} (inside : m.Holds ptep)
    (pte : Pte) : ∃ n, m.setPageTableEntryNoFlush ptep pte = .ok n := by
  obtain ⟨mmu, wrote⟩ := Mmu.setPageTableEntryNoFlush_ok inside pte
  exact ⟨_, Outcome.bind_eq_ok.mpr ⟨mmu, wrote, rfl⟩⟩

theorem invalidatePageTableEntry_eq_ok {m n : KernelMemory} {ptep : PtePtr}
    (done : m.invalidatePageTableEntry ptep = .ok n) :
    m.Holds ptep ∧ ∃ old, (m.tables ptep.table)[ptep.index.toNat]? = some old ∧
      ∃ tlb fills, n = { m with
        toMmu := { m.toMmu.store ptep { old with valid := false } with
          tlb := tlb
          fills := fills } } := by
  obtain ⟨mmu, wrote, done⟩ := Outcome.bind_eq_ok.mp done
  obtain ⟨inside, old, found, tlb, fills, rfl⟩ := Mmu.invalidatePageTableEntry_eq_ok wrote
  cases done
  exact ⟨inside, old, found, tlb, fills, rfl⟩

end

end KernelMemory

end Yallnix

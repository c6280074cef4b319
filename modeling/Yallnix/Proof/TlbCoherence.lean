import Yallnix.Construction.SmallMemory
import Yallnix.Proof.BootMemory
import Yallnix.Proof.MemoryFrame

namespace Yallnix

section
variable [Hardware]

namespace Mmu

/-- A cached translation of the page equals the current valid entry. -/
def CoherentAt (mmu : Mmu) (vpn : Nat) : Prop :=
  ∀ translation, mmu.tlb vpn = some translation →
    ∃ pte, mmu.entryOf vpn = some pte ∧ pte.valid = true ∧ translation = ⟨pte.prot, pte.pfn⟩

/-- The registers select this entry for the page. -/
def Selects (mmu : Mmu) (vpn : Nat) (ptep : PtePtr) : Prop :=
  if vpn < maxPtLen then ptep.table = mmu.regPtbr0 ∧ ptep.index.toNat = vpn
  else ptep.table = mmu.regPtbr1 ∧ ptep.index.toNat + maxPtLen = vpn

variable {mmu next : Mmu} {vpn : Nat} {ptep : PtePtr} {pte : Pte}

theorem cache_coherentAt (page : Nat) (coherent : mmu.CoherentAt vpn) :
    (mmu.cache page).CoherentAt vpn := by
  unfold cache
  split
  · exact coherent
  · rename_i pte found
    split
    · rename_i valid
      intro translation cached
      dsimp only at cached
      by_cases same : vpn = page
      · subst same
        rw [Function.update_self] at cached
        cases cached
        exact ⟨pte, found, valid, rfl⟩
      · rw [Function.update_of_ne same] at cached
        exact coherent translation cached
    · exact coherent

theorem foldl_cache_coherentAt (pages : List Nat) (coherent : mmu.CoherentAt vpn) :
    (pages.foldl cache mmu).CoherentAt vpn := by
  induction pages generalizing mmu with
  | nil => exact coherent
  | cons page rest ih => exact ih (cache_coherentAt page coherent)

/-- The hardware fills the TLB with current entries. -/
theorem tick_coherentAt (coherent : mmu.CoherentAt vpn) : mmu.tick.CoherentAt vpn := by
  unfold tick
  split
  · exact coherent
  · dsimp only
    split
    · exact foldl_cache_coherentAt _ coherent
    · exact coherent

/-- A write of an entry that is not selected changes no current entry of the page. -/
theorem entryOf_update (entries : PageTable) (other : ¬ mmu.Selects vpn ptep)
    (same : ∀ i, i ≠ ptep.index.toNat → entries[i]? = (mmu.tables ptep.table)[i]?) :
    { mmu with tables := Function.update mmu.tables ptep.table entries }.entryOf vpn =
      mmu.entryOf vpn := by
  unfold Selects at other
  unfold entryOf
  by_cases low : vpn < maxPtLen
  · rw [if_pos low] at other
    simp only [if_pos low]
    by_cases table : mmu.regPtbr0 = ptep.table
    · rw [table, Function.update_self]
      exact same vpn fun index => other ⟨table.symm, index.symm⟩
    · rw [Function.update_of_ne table]
  · rw [if_neg low] at other
    simp only [if_neg low]
    by_cases table : mmu.regPtbr1 = ptep.table
    · rw [table, Function.update_self]
      rw [same (vpn - maxPtLen) fun index => other ⟨table.symm, by omega⟩]
    · rw [Function.update_of_ne table]

theorem writeField_coherentAt {field : Pte → Pte} (other : ¬ mmu.Selects vpn ptep)
    (done : mmu.writeField ptep field = .ok next) (coherent : mmu.CoherentAt vpn) :
    next.CoherentAt vpn := by
  have ticked := tick_coherentAt coherent
  unfold writeField at done
  obtain ⟨tlb, fills, eq⟩ := mmu.tick_eq
  rw [eq] at done ticked
  obtain ⟨old, -, done⟩ := Outcome.bind_eq_ok.mp done
  obtain ⟨table, wrote, done⟩ := Outcome.bind_eq_ok.mp done
  obtain ⟨-, -, rfl⟩ := Yallnix.setPageTableEntry_eq_ok.mp wrote
  cases done
  intro translation cached
  obtain ⟨pte, found, valid, rfl⟩ := ticked translation cached
  refine ⟨pte, ?_, valid, rfl⟩
  rw [← found]
  have same : ∀ i, i ≠ ptep.index.toNat →
      ((mmu.tables ptep.table).set ptep.index.toNat (field old))[i]? =
        (mmu.tables ptep.table)[i]? :=
    fun i away => List.getElem?_set_ne (Ne.symm away)
  exact @entryOf_update _ { mmu with tlb := tlb, fills := fills } vpn ptep _ other same

theorem setPageTableEntryNoFlush_coherentAt (other : ¬ mmu.Selects vpn ptep)
    (done : mmu.setPageTableEntryNoFlush ptep pte = .ok next) (coherent : mmu.CoherentAt vpn) :
    next.CoherentAt vpn := by
  unfold setPageTableEntryNoFlush at done
  obtain ⟨first, wroteValid, done⟩ := Outcome.bind_eq_ok.mp done
  obtain ⟨second, wroteProt, done⟩ := Outcome.bind_eq_ok.mp done
  obtain ⟨third, wrotePfn, done⟩ := Outcome.bind_eq_ok.mp done
  cases done
  have one := writeField_coherentAt other wroteValid coherent
  have other' : ¬ first.Selects vpn ptep := by
    obtain ⟨_, _, _, -, -, eq⟩ := writeField_eq_ok wroteValid
    rwa [eq]
  have two := writeField_coherentAt other' wroteProt one
  have other'' : ¬ second.Selects vpn ptep := by
    obtain ⟨_, _, _, -, -, eq⟩ := writeField_eq_ok wroteProt
    rwa [eq]
  have three := writeField_coherentAt other'' wrotePfn two
  exact three

/-- A flush keeps all other pages and leaves nothing cached for its own page. -/
theorem flushPage_coherentAt {addr : Nat}
    (coherent : vpn ≠ addr / pageSize → mmu.CoherentAt vpn) :
    (mmu.flushPage addr).CoherentAt vpn := by
  unfold flushPage
  intro translation cached
  dsimp only at cached
  by_cases same : vpn = addr / pageSize
  · rw [same, Function.update_self] at cached
    cases cached
  · rw [Function.update_of_ne same] at cached
    exact tick_coherentAt (coherent same) translation cached

/-- The flush address belongs to the only page that the entry translates. -/
theorem getVirtualAddr_selects {addr : Nat} (apart : mmu.regPtbr0 ≠ mmu.regPtbr1)
    (found : mmu.getVirtualAddr ptep = some addr) (selects : mmu.Selects vpn ptep) :
    vpn = addr / pageSize := by
  unfold getVirtualAddr at found
  unfold Selects at selects
  split at found
  · rename_i region0
    cases found
    rw [Nat.mul_div_cancel _ pageSize_pos]
    split at selects
    · exact selects.2.symm
    · exact absurd (region0.1.symm.trans selects.1) apart
  · split at found
    · rename_i region1
      cases found
      rw [Nat.mul_div_cancel _ pageSize_pos]
      split at selects
      · exact absurd (selects.1.symm.trans region1.1) apart
      · exact selects.2.symm
    · cases found

/-- `setPageTableEntry` keeps every page coherent. -/
theorem setPageTableEntry_coherentAt (apart : mmu.regPtbr0 ≠ mmu.regPtbr1)
    (done : mmu.setPageTableEntry ptep pte = .ok next) (coherent : mmu.CoherentAt vpn) :
    next.CoherentAt vpn := by
  unfold setPageTableEntry at done
  obtain ⟨stored, wrote, done⟩ := Outcome.bind_eq_ok.mp done
  split at done
  · cases done
  · rename_i addr found
    cases done
    refine flushPage_coherentAt fun away => ?_
    refine setPageTableEntryNoFlush_coherentAt (fun selects => away ?_) wrote coherent
    obtain ⟨-, _, _, rfl⟩ := setPageTableEntryNoFlush_eq_ok wrote
    exact getVirtualAddr_selects apart found selects

theorem invalidatePageTableEntry_coherentAt (enabled : mmu.regVmEnable = true)
    (apart : mmu.regPtbr0 ≠ mmu.regPtbr1)
    (done : mmu.invalidatePageTableEntry ptep = .ok next) (coherent : mmu.CoherentAt vpn) :
    next.CoherentAt vpn := by
  unfold invalidatePageTableEntry at done
  obtain ⟨stored, wrote, done⟩ := Outcome.bind_eq_ok.mp done
  obtain ⟨old, tlb, fills, -, -, eq⟩ := writeField_eq_ok wrote
  dsimp only at done
  split at done
  · split at done
    · cases done
    · rename_i addr found
      cases done
      refine flushPage_coherentAt fun away => ?_
      have kept : stored.CoherentAt vpn := by
        refine writeField_coherentAt (fun selects => away ?_) wrote coherent
        rw [eq] at found
        exact getVirtualAddr_selects apart found selects
      exact kept
  · rename_i disabled
    rw [eq] at disabled
    exact absurd enabled disabled

/-- The flush of region 1 drops the translations of the old table. -/
theorem switchRegion1_coherentAt {table : Addr}
    (coherent : ∀ page < maxPtLen, mmu.CoherentAt page) :
    ((mmu.writePtbr1 table).flushRegion1).CoherentAt vpn := by
  unfold flushRegion1
  intro translation cached
  dsimp only at cached
  split at cached
  · rename_i low
    have before : (mmu.writePtbr1 table).CoherentAt vpn := by
      have ticked := tick_coherentAt (coherent vpn low)
      intro translation cached
      obtain ⟨pte, found, valid, eq⟩ := ticked translation cached
      refine ⟨pte, ?_, valid, eq⟩
      rw [entryOf, if_pos low] at found ⊢
      exact found
    exact tick_coherentAt before translation cached
  · cases cached

/-- Nothing is cached before virtual memory is enabled. -/
structure Cold (mmu : Mmu) : Prop where
  off : mmu.regVmEnable = false
  empty : mmu.tlb = fun _ => none

theorem tick_cold (cold : mmu.Cold) : mmu.tick.Cold := by
  obtain ⟨off, empty⟩ := cold
  unfold tick
  split
  · exact ⟨off, empty⟩
  · dsimp only
    rw [if_neg (Bool.eq_false_iff.mp off)]
    exact ⟨off, empty⟩

theorem writeField_cold {field : Pte → Pte} (done : mmu.writeField ptep field = .ok next)
    (cold : mmu.Cold) : next.Cold := by
  have ticked := tick_cold cold
  obtain ⟨old, -, done⟩ := Outcome.bind_eq_ok.mp done
  obtain ⟨table, -, done⟩ := Outcome.bind_eq_ok.mp done
  cases done
  exact ⟨ticked.off, ticked.empty⟩

theorem setPageTableEntryNoFlush_cold (done : mmu.setPageTableEntryNoFlush ptep pte = .ok next)
    (cold : mmu.Cold) : next.Cold := by
  unfold setPageTableEntryNoFlush at done
  obtain ⟨first, wroteValid, done⟩ := Outcome.bind_eq_ok.mp done
  obtain ⟨second, wroteProt, done⟩ := Outcome.bind_eq_ok.mp done
  obtain ⟨third, wrotePfn, done⟩ := Outcome.bind_eq_ok.mp done
  cases done
  have last := writeField_cold wrotePfn (writeField_cold wroteProt (writeField_cold wroteValid cold))
  exact ⟨last.off, last.empty⟩

end Mmu

namespace KernelMemory

/-- The pages of region 0 are covered, and perhaps those of region 1. -/
def Covers (whole : Bool) (vpn : Nat) : Prop := whole = true ∨ vpn < maxPtLen

/-- A table is safe to write without a flush when it holds no covered page. -/
def Unmapped (whole : Bool) (mmu : Mmu) (table : Addr) : Prop :=
  table ≠ mmu.regPtbr0 ∧ (whole = true → table ≠ mmu.regPtbr1)

/-- Kernel code keeps the registers, the processes and the coherence of the covered pages. -/
structure Coheres (whole : Bool) (m n : KernelMemory) : Prop where
  regVmEnable : n.regVmEnable = m.regVmEnable
  regPtbr0 : n.regPtbr0 = m.regPtbr0
  regPtbr1 : n.regPtbr1 = m.regPtbr1
  live : n.live = m.live
  currPCB : n.currPCB = m.currPCB
  tables : ∀ pcbp, (n.pcbs pcbp).r1PageTable = (m.pcbs pcbp).r1PageTable
  coherent : m.regVmEnable = true → m.regPtbr0 ≠ m.regPtbr1 → ∀ vpn, Covers whole vpn →
    m.CoherentAt vpn → n.CoherentAt vpn

variable {whole : Bool} {m n k : KernelMemory}

theorem not_selects {vpn : Nat} {ptep : PtePtr} (unmapped : Unmapped whole m.toMmu ptep.table)
    (covers : Covers whole vpn) : ¬ m.Selects vpn ptep := by
  intro selects
  unfold Mmu.Selects at selects
  split at selects
  · exact unmapped.1 selects.1
  · rename_i high
    exact unmapped.2 (covers.resolve_right high) selects.1

namespace Coheres

theorem trans (first : Coheres whole m k) (second : Coheres whole k n) : Coheres whole m n where
  regVmEnable := second.regVmEnable.trans first.regVmEnable
  regPtbr0 := second.regPtbr0.trans first.regPtbr0
  regPtbr1 := second.regPtbr1.trans first.regPtbr1
  live := second.live.trans first.live
  currPCB := second.currPCB.trans first.currPCB
  tables pcbp := (second.tables pcbp).trans (first.tables pcbp)
  coherent enabled apart vpn covers coherent := by
    refine second.coherent (first.regVmEnable.trans enabled) ?_ vpn covers
      (first.coherent enabled apart vpn covers coherent)
    rwa [first.regPtbr0, first.regPtbr1]

theorem unmapped (coheres : Coheres whole m n) {table : Addr}
    (free : Unmapped whole m.toMmu table) : Unmapped whole n.toMmu table := by
  unfold Unmapped
  rw [coheres.regPtbr0, coheres.regPtbr1]
  exact free

/-- A write by the memory management unit keeps the rest of the kernel. -/
theorem mmu (next : Mmu) (enable : next.regVmEnable = m.regVmEnable)
    (region0 : next.regPtbr0 = m.regPtbr0) (region1 : next.regPtbr1 = m.regPtbr1)
    (coherent : m.regVmEnable = true → m.regPtbr0 ≠ m.regPtbr1 → ∀ vpn, Covers whole vpn →
      m.CoherentAt vpn → next.CoherentAt vpn) :
    Coheres whole m { m with toMmu := next } where
  regVmEnable := enable
  regPtbr0 := region0
  regPtbr1 := region1
  live := rfl
  currPCB := rfl
  tables _ := rfl
  coherent := coherent

theorem setPageTableEntry {ptep : PtePtr} {pte : Pte}
    (done : m.setPageTableEntry ptep pte = .ok n) : Coheres whole m n := by
  obtain ⟨next, wrote, done⟩ := Outcome.bind_eq_ok.mp done
  cases done
  obtain ⟨-, _, _, eq⟩ := Mmu.setPageTableEntry_eq_ok wrote
  refine mmu next ?_ ?_ ?_ fun _ apart _ _ => Mmu.setPageTableEntry_coherentAt apart wrote
  all_goals
    rw [eq]
    rfl

theorem invalidatePageTableEntry {ptep : PtePtr}
    (done : m.invalidatePageTableEntry ptep = .ok n) : Coheres whole m n := by
  obtain ⟨next, wrote, done⟩ := Outcome.bind_eq_ok.mp done
  cases done
  obtain ⟨-, old, -, _, _, eq⟩ := Mmu.invalidatePageTableEntry_eq_ok wrote
  refine mmu next ?_ ?_ ?_ fun enabled apart _ _ =>
    Mmu.invalidatePageTableEntry_coherentAt enabled apart wrote
  all_goals
    rw [eq]
    rfl

theorem setPageTableEntryNoFlush {ptep : PtePtr} {pte : Pte}
    (free : Unmapped whole m.toMmu ptep.table)
    (done : m.setPageTableEntryNoFlush ptep pte = .ok n) : Coheres whole m n := by
  obtain ⟨next, wrote, done⟩ := Outcome.bind_eq_ok.mp done
  cases done
  obtain ⟨-, _, _, eq⟩ := Mmu.setPageTableEntryNoFlush_eq_ok wrote
  refine mmu next ?_ ?_ ?_ fun _ _ _ covers =>
    Mmu.setPageTableEntryNoFlush_coherentAt (not_selects free covers) wrote
  all_goals
    rw [eq]
    rfl

theorem setTable {table : Addr} (entries : PageTable) (free : Unmapped whole m.toMmu table) :
    Coheres whole m { m with tables := Function.update m.tables table entries } := by
  refine mmu { m.toMmu with tables := Function.update m.tables table entries }
    rfl rfl rfl fun _ _ vpn covers coherent translation cached => ?_
  obtain ⟨pte, found, valid⟩ := coherent translation cached
  refine ⟨pte, ?_, valid⟩
  rw [← found]
  unfold Mmu.entryOf
  by_cases low : vpn < maxPtLen
  · simp only [if_pos low, Function.update_of_ne free.1.symm]
  · simp only [if_neg low, Function.update_of_ne (free.2 (covers.resolve_right low)).symm]

theorem of_sameSpaces (same : SameSpaces m n) : Coheres whole m n where
  regVmEnable := by rw [same.mmu]
  regPtbr0 := by rw [same.mmu]
  regPtbr1 := by rw [same.mmu]
  live := same.live
  currPCB := same.currPCB
  tables := same.tables
  coherent _ _ vpn _ coherent := by rwa [same.mmu]

theorem curr (coheres : Coheres whole m n) : n.curr.r1PageTable = m.curr.r1PageTable := by
  unfold KernelMemory.curr
  rw [coheres.tables, coheres.currPCB]

/-- Kernel code keeps coherence between two switches. -/
theorem steady : Steady (Coheres whole) (Unmapped whole) where
  trans := trans
  safe_of coheres free := coheres.unmapped free
  safe_own coheres free := by
    rw [coheres.tables]
    exact coheres.unmapped free
  safe_curr coheres free := by
    rw [coheres.curr]
    exact coheres.unmapped free
  setEntry := setPageTableEntry
  invalidate := invalidatePageTableEntry
  setOther := setPageTableEntryNoFlush
  setTable := setTable
  same := of_sameSpaces

theorem setKernelBrk {addr : Nat} {code : Int} (done : m.setKernelBrk addr = .ok (code, n)) :
    Coheres whole m n := by
  have refl := fun m : KernelMemory => steady.refl (R := Coheres whole) m
  unfold KernelMemory.setKernelBrk at done
  split at done
  · cases done
    exact refl _
  split at done
  · cases done
    exact refl _
  split at done
  · cases done
    exact ⟨rfl, rfl, rfl, rfl, rfl, fun _ => rfl, fun _ _ _ _ coherent => coherent⟩
  obtain ⟨⟨moved, k⟩, pages, done⟩ := Outcome.bind_eq_ok.mp done
  have kept : Coheres whole m k := steady.brkPages pages
  dsimp only at done
  split at done
  · cases done
    exact kept
  · cases done
    exact kept.trans
      ⟨rfl, rfl, rfl, rfl, rfl, fun _ => rfl, fun _ _ _ _ coherent => coherent⟩

theorem moveBreaks {addrs : List Nat} (done : m.moveBreaks addrs = .ok n) :
    Coheres whole m n := by
  induction addrs generalizing m with
  | nil =>
      cases done
      exact steady.refl _
  | cons addr rest ih =>
      obtain ⟨⟨code, k⟩, moved, done⟩ := Outcome.bind_eq_ok.mp done
      exact (setKernelBrk moved).trans (ih done)

/-- The heap of the kernel keeps coherence too. -/
theorem steadyHeap : SteadyHeap (Coheres whole) (Unmapped whole) where
  toSteady := steady
  malloc {m n found} done := by
    unfold KernelMemory.malloc at done
    split at done
    · cases done
      exact steady.refl _
    · rename_i answer library _
      obtain ⟨k, moved, done⟩ := Outcome.bind_eq_ok.mp done
      cases done
      have taken : Coheres whole m { m with library := library } :=
        ⟨rfl, rfl, rfl, rfl, rfl, fun _ => rfl, fun _ _ _ _ coherent => coherent⟩
      exact taken.trans (moveBreaks moved)

end Coheres

/-- The registers and the tables of all processes fit together. -/
structure Mapped (whole : Bool) (m : KernelMemory) : Prop where
  enabled : m.regVmEnable = true
  apart : m.regPtbr0 ≠ m.regPtbr1
  coherent : ∀ vpn, Covers whole vpn → m.CoherentAt vpn
  tables : ∀ pcbp ∈ m.live, (m.pcbs pcbp).r1PageTable ≠ m.regPtbr0

/-- Region 1 belongs to the running process. -/
structure Running (m : KernelMemory) : Prop extends Mapped true m where
  running : m.currPCB ∈ m.live
  region1 : m.regPtbr1 = m.curr.r1PageTable

theorem Mapped.of_coheres (mapped : Mapped whole m) (coheres : Coheres whole m n) :
    Mapped whole n where
  enabled := coheres.regVmEnable.trans mapped.enabled
  apart := by
    rw [coheres.regPtbr0, coheres.regPtbr1]
    exact mapped.apart
  coherent vpn covers :=
    coheres.coherent mapped.enabled mapped.apart vpn covers (mapped.coherent vpn covers)
  tables pcbp alive := by
    rw [coheres.live] at alive
    rw [coheres.tables, coheres.regPtbr0]
    exact mapped.tables pcbp alive

theorem Running.of_coheres (running : Running m) (coheres : Coheres true m n) : Running n where
  toMapped := running.toMapped.of_coheres coheres
  running := by
    rw [coheres.currPCB, coheres.live]
    exact running.running
  region1 := by
    rw [coheres.regPtbr1, coheres.curr]
    exact running.region1

/-- A switch loads the table of the next process. -/
theorem Mapped.switched {nextPCB : Addr} (mapped : Mapped whole m) (alive : nextPCB ∈ m.live)
    (switched : Switched (Coheres whole) nextPCB m n) : Running n := by
  obtain ⟨k, l, before, after, rfl⟩ := switched
  have first := mapped.of_coheres before
  have last : Mapped whole l :=
    Mapped.of_coheres (m := { k with currPCB := nextPCB })
      ⟨first.enabled, first.apart, first.coherent, first.tables⟩ after
  have runs : l.currPCB = nextPCB := after.currPCB
  have living : nextPCB ∈ l.live := by
    rw [after.live]
    exact before.live ▸ alive
  obtain ⟨ticked, fills, eq⟩ := l.toMmu.tick_eq
  have registers : (l.toMmu.writePtbr1 l.curr.r1PageTable).regPtbr0 = l.regPtbr0 := by
    rw [Mmu.writePtbr1, eq]
  have enable : (l.toMmu.writePtbr1 l.curr.r1PageTable).regVmEnable = l.regVmEnable := by
    rw [Mmu.writePtbr1, eq]
  obtain ⟨flushed, fills', eq'⟩ := (l.toMmu.writePtbr1 l.curr.r1PageTable).tick_eq
  have region0 : l.switchRegion1.regPtbr0 = l.regPtbr0 := by
    rw [switchRegion1, Mmu.flushRegion1, eq']
    exact registers
  have region1 : l.switchRegion1.regPtbr1 = l.curr.r1PageTable := by
    rw [switchRegion1, Mmu.flushRegion1, eq']
    rfl
  have table : l.curr.r1PageTable ≠ l.regPtbr0 := last.tables l.currPCB (runs ▸ living)
  exact {
    enabled := by
      rw [switchRegion1, Mmu.flushRegion1, eq']
      exact enable.trans last.enabled
    apart := by
      rw [region0, region1]
      exact table.symm
    coherent := fun vpn _ =>
      Mmu.switchRegion1_coherentAt fun page low => last.coherent page (Or.inr low)
    tables := fun pcbp living => by
      rw [region0]
      exact last.tables pcbp living
    running := runs ▸ living
    region1 := region1 }

/-- The PCB of a new process belongs to no live process. -/
theorem Running.newPcb {memory : ProcessMemory} (running : Running m)
    (unused : memory.pcb ∉ m.live) : Running (m.newPcb memory) := by
  have others : ∀ pcbp ∈ m.live, (m.newPcb memory).pcbs pcbp = m.pcbs pcbp := by
    intro pcbp living
    have other : pcbp ≠ memory.pcb := fun same => unused (same ▸ living)
    exact Function.update_of_ne other _ _
  exact {
    enabled := running.enabled
    apart := running.apart
    coherent := running.coherent
    tables := fun pcbp living => by
      rw [others pcbp living]
      exact running.tables pcbp living
    running := running.running
    region1 := by
      rw [KernelMemory.curr]
      refine running.region1.trans ?_
      exact congrArg MemoryPcb.r1PageTable (others m.currPCB running.running).symm }

/-- A new process may get a table that no register names. -/
theorem Running.spawned {memory : ProcessMemory} (running : Running m)
    (unused : memory.pcb ∉ m.live) (spawned : Spawned (Coheres true) memory m n) :
    Running n ∧ n.live = m.live ∧ n.regPtbr0 = m.regPtbr0 ∧
      (n.pcbs memory.pcb).r1PageTable = memory.r1PageTable := by
  obtain ⟨k, before, after⟩ := spawned
  have first := running.of_coheres before
  refine ⟨(first.newPcb (before.live ▸ unused)).of_coheres after,
    after.live.trans before.live, after.regPtbr0.trans before.regPtbr0, ?_⟩
  rw [after.tables]
  simp only [KernelMemory.newPcb, KernelMemory.updatePcb, Function.update_self]

theorem Running.insert {pcbp : Addr} (running : Running m)
    (table : (m.pcbs pcbp).r1PageTable ≠ m.regPtbr0) :
    Running { m with live := insert pcbp m.live } where
  enabled := running.enabled
  apart := running.apart
  coherent := running.coherent
  tables a living := by
    rcases Finset.mem_insert.mp living with rfl | living
    · exact table
    · exact running.tables a living
  running := Finset.mem_insert_of_mem running.running
  region1 := running.region1

/-- A fork leaves the parent or the child running. -/
theorem Running.kernelFork {memory : ProcessMemory} {currKctxt : KernelContext}
    (running : Running m) (unused : memory.pcb ∉ m.live) (free : m.freeTable memory.r1PageTable)
    (done : m.kernelFork memory currKctxt = .ok n) : Running n := by
  rcases Coheres.steadyHeap.kernelFork ⟨free.1, fun _ => free.2.1⟩ done with
    kept | spawned | ⟨l, spawned, switched⟩
  · exact running.of_coheres kept
  · exact (running.spawned unused spawned).1
  · obtain ⟨made, -, region0, table⟩ := running.spawned unused spawned
    have child : (l.pcbs memory.pcb).r1PageTable ≠ l.regPtbr0 := by
      rw [table, region0]
      exact free.1
    exact (made.insert child).toMapped.switched (Finset.mem_insert_self _ _) switched

/-- A freed table may hold any entries until region 1 is flushed. -/
theorem Running.exitProcess {freedTable : PageTable} {nextPCB : Addr} (running : Running m)
    (alive : nextPCB ∈ m.live) (other : nextPCB ≠ m.currPCB)
    (done : m.exitProcess freedTable nextPCB = .ok n) : Running n := by
  have low : Mapped false m :=
    ⟨running.enabled, running.apart, fun vpn _ => running.coherent vpn (Or.inl rfl),
      running.tables⟩
  have heap : SteadyHeap (Coheres false) (Unmapped false) := Coheres.steadyHeap
  obtain ⟨k, before, switched⟩ := heap.exitProcess
    ⟨running.tables _ running.running, nofun⟩ done
  have first := low.of_coheres before
  have rest : Mapped false { k with live := k.live.erase k.currPCB } :=
    ⟨first.enabled, first.apart, first.coherent,
      fun pcbp living => first.tables pcbp (Finset.mem_of_mem_erase living)⟩
  refine rest.switched (Finset.mem_erase.mpr ⟨?_, ?_⟩) switched
  · rw [before.currPCB]
    exact other
  · rw [before.live]
    exact alive

/-- Each input keeps the registers and the TLB in order. -/
theorem Running.perform {act : MemoryAct} (running : Running m)
    (enabled : m.enabled ⟨act, m.fills, m.library⟩) (done : m.perform act = .ok n) :
    Running n := by
  have heap : SteadyHeap (Coheres true) (Unmapped true) := Coheres.steadyHeap
  have start : ∀ mode, Coheres true m { m with mode := mode } := heap.mode m
  cases act with
  | fork memory currKctxt =>
      obtain ⟨-, -, unused, free⟩ := enabled
      exact (running.of_coheres (start .kernel)).kernelFork unused free done
  | exec request => exact (running.of_coheres (start .kernel)).of_coheres (heap.kernelExec done)
  | brk addr =>
      obtain ⟨⟨_, k⟩, moved, done⟩ := Outcome.bind_eq_ok.mp done
      cases done
      exact (running.of_coheres (start .kernel)).of_coheres (heap.kernelBrk moved)
  | memoryTrap addr =>
      exact (running.of_coheres (start .kernel)).of_coheres (heap.handleTrapMemory done)
  | exit =>
      cases done
      exact running.of_coheres (start .exiting)
  | userStore vpn page =>
      have ticked : Coheres true m { m with toMmu := m.toMmu.tick } := by
        obtain ⟨_, _, eq⟩ := m.toMmu.tick_eq
        refine .mmu _ ?_ ?_ ?_ fun _ _ _ _ => Mmu.tick_coherentAt
        all_goals rw [eq]
      exact (running.of_coheres ticked).of_coheres (heap.writePage done)
  | ttyReceive page => exact (running.of_coheres (start .kernel)).of_coheres (heap.writePage done)
  | allocate => exact (running.of_coheres (start .kernel)).of_coheres (heap.free done)
  | switch currKctxt nextPCB =>
      obtain ⟨⟨_, l⟩, switched, done⟩ := Outcome.bind_eq_ok.mp done
      cases done
      exact (running.of_coheres (start .kernel)).toMapped.switched enabled.2
        (heap.switchBetween switched)
  | kernelExit freedTable nextPCB =>
      obtain ⟨l, exited, done⟩ := Outcome.bind_eq_ok.mp done
      cases done
      unfold KernelMemory.kernelExit at exited
      split at exited
      · cases exited
      · exact (running.exitProcess enabled.2.1 enabled.2.2 exited).of_coheres (heap.mode l _)
  | returnToUser =>
      cases done
      exact running.of_coheres (start .user)

theorem Running.step {first : KernelMemory → Prop} {i : MemoryInput} (running : Running m)
    (step : (memoryMachine first).step m i n) : Running n := by
  have stored : Coheres true m { m with fills := i.fills, library := i.library } :=
    ⟨rfl, rfl, rfl, rfl, rfl, fun _ => rfl, fun _ _ _ _ coherent => coherent⟩
  exact (running.of_coheres stored).perform step.1 step.2

theorem fillR0PageTable_cold {count addr : Nat} {ptep : PtePtr}
    (done : m.fillR0PageTable count addr ptep = .ok n) (cold : m.Cold) : n.Cold := by
  induction count generalizing m addr ptep with
  | zero =>
      cases done
      exact cold
  | succ count ih =>
      obtain ⟨k, filled, done⟩ := Outcome.bind_eq_ok.mp done
      refine ih done ?_
      unfold fillR0Entry at filled
      split at filled
      · cases filled
        exact cold
      · obtain ⟨next, wrote, filled⟩ := Outcome.bind_eq_ok.mp filled
        cases filled
        exact Mmu.setPageTableEntryNoFlush_cold wrote cold

/-- Virtual memory starts with an empty TLB and no process. -/
theorem enableMemory_mmu {boot : MemoryBoot} (done : enableMemory boot = .ok m) :
    m.regVmEnable = true ∧ m.regPtbr0 = boot.r0PageTable ∧ m.regPtbr1 = boot.initR1PageTable ∧
      m.tlb = (fun _ => none) ∧ m.live = ∅ := by
  obtain ⟨filled, wrote, rfl⟩ := enableMemory_filled done
  have cold := fillR0PageTable_cold wrote ⟨rfl, rfl⟩
  obtain ⟨mmu, rfl, -⟩ := fillR0PageTable_region0 wrote
  exact ⟨rfl, rfl, rfl, cold.empty, rfl⟩

/-- The first return to user mode finds the registers and the TLB in order. -/
theorem boot_running {boot : MemoryBoot} (done : KernelMemory.boot boot = .ok m) : Running m := by
  obtain ⟨start, enabled, done⟩ := Outcome.bind_eq_ok.mp done
  obtain ⟨enable, region0, region1, empty, none⟩ := enableMemory_mmu enabled
  have idleTable : boot.idle.r1PageTable ≠ boot.r0PageTable := by
    intro same
    simpa [same] using boot.distinctTables
  have idleOther : boot.idle.r1PageTable ≠ boot.initR1PageTable := by
    intro same
    simpa [same] using boot.distinctTables
  have initTable : boot.initR1PageTable ≠ boot.r0PageTable := by
    intro same
    simpa [same] using boot.distinctTables
  have unmapped : Unmapped true start.toMmu boot.idle.r1PageTable := by
    rw [Unmapped, region0, region1]
    exact ⟨idleTable, fun _ => idleOther⟩
  obtain ⟨j, k, l, f, ⟨i, first, second⟩, third, own, fourth, fifth⟩ :=
    Coheres.steadyHeap.startProcesses unmapped done
  have mapped : Mapped true start := {
    enabled := enable
    apart := by
      rw [region0, region1]
      exact initTable.symm
    coherent := fun vpn _ translation cached => by
      rw [empty] at cached
      cases cached
    tables := fun pcbp living => by
      rw [none] at living
      cases living }
  have early := mapped.of_coheres first
  have noProcess : i.live = ∅ := first.live.trans none
  have made : Mapped true (i.newPcb boot.idle) :=
    ⟨early.enabled, early.apart, early.coherent, fun pcbp living => by
      have absent : pcbp ∈ i.live := living
      rw [noProcess] at absent
      cases absent⟩
  have idle := made.of_coheres second
  have r0 : j.regPtbr0 = boot.r0PageTable :=
    second.regPtbr0.trans (first.regPtbr0.trans region0)
  have idleOwn : (j.pcbs boot.idle.pcb).r1PageTable = boot.idle.r1PageTable := by
    rw [second.tables]
    simp only [KernelMemory.newPcb, KernelMemory.updatePcb, Function.update_self]
  have noOther : j.live = ∅ := second.live.trans noProcess
  have lived : Mapped true { j with live := insert boot.idle.pcb j.live } :=
    ⟨idle.enabled, idle.apart, idle.coherent, fun pcbp living => by
      have only : pcbp = boot.idle.pcb := by simpa [noOther] using living
      subst only
      change (j.pcbs boot.idle.pcb).r1PageTable ≠ j.regPtbr0
      rw [idleOwn, r0]
      exact idleTable⟩
  have loaded := lived.of_coheres third
  have r0' : k.regPtbr0 = boot.r0PageTable := third.regPtbr0.trans r0
  have initOwn : ((k.updatePcb boot.initPcbp f).pcbs boot.initPcbp).r1PageTable =
      boot.initR1PageTable := by
    simp only [KernelMemory.updatePcb, Function.update_self, own]
  have both : Mapped true
      { k.updatePcb boot.initPcbp f with live := insert boot.initPcbp k.live } :=
    ⟨loaded.enabled, loaded.apart, loaded.coherent, fun pcbp living => by
      change ((k.updatePcb boot.initPcbp f).pcbs pcbp).r1PageTable ≠ k.regPtbr0
      by_cases same : pcbp = boot.initPcbp
      · rw [same, initOwn, r0']
        exact initTable
      · have older : pcbp ∈ k.live := (Finset.mem_insert.mp living).resolve_left same
        have kept : (k.updatePcb boot.initPcbp f).pcbs pcbp = k.pcbs pcbp :=
          Function.update_of_ne same _ _
        rw [kept]
        exact loaded.tables pcbp older⟩
  have last := both.of_coheres fourth
  have started : Running { l with currPCB := boot.initPcbp } := {
    enabled := last.enabled
    apart := last.apart
    coherent := last.coherent
    tables := last.tables
    running := by
      change boot.initPcbp ∈ l.live
      rw [fourth.live]
      exact Finset.mem_insert_self _ _
    region1 := by
      change l.regPtbr1 = (l.pcbs boot.initPcbp).r1PageTable
      rw [fourth.tables, fourth.regPtbr1]
      refine Eq.trans ?_ initOwn.symm
      exact third.regPtbr1.trans (second.regPtbr1.trans (first.regPtbr1.trans region1)) }
  exact started.of_coheres fifth

end KernelMemory

/-- After every input a cached translation equals the current valid entry of its page. -/
theorem bootedMemory_coherent {m : KernelMemory} (reachable : bootedMemory.Reachable m)
    {vpn : Nat} {translation : Translation} (cached : m.tlb vpn = some translation) :
    ∃ pte : Pte, pte.valid = true ∧ translation = ⟨pte.prot, pte.pfn⟩ ∧
      (vpn < maxPtLen ∧ (m.tables m.regPtbr0)[vpn]? = some pte ∨
        maxPtLen ≤ vpn ∧ vpn < 2 * maxPtLen ∧
          (m.tables m.curr.r1PageTable)[vpn - maxPtLen]? = some pte) := by
  have first : ∀ m, bootedMemory.start m → m.Running :=
    fun _ ⟨_, booted⟩ => KernelMemory.boot_running booted
  have running : m.Running :=
    reachable.invariant first fun _ _ _ running _ step => running.step step
  obtain ⟨pte, found, valid, same⟩ := running.coherent vpn (Or.inl rfl) translation cached
  refine ⟨pte, valid, same, ?_⟩
  unfold Mmu.entryOf at found
  split at found
  · rename_i low
    exact Or.inl ⟨low, found⟩
  · rename_i high
    split at found
    · rename_i inside
      exact Or.inr ⟨Nat.le_of_not_lt high, inside, running.region1 ▸ found⟩
    · cases found

end

section
attribute [local instance] smallHardware

/-- The small memory caches a page of region 1 while `init` stores to it. -/
theorem smallMemory_coherent : ∃ m, bootedMemory.Reachable m ∧ m.mode = .user ∧
    ∃ translation, m.tlb 9 = some translation ∧
      ∃ pte : Pte, pte.valid = true ∧ translation = ⟨pte.prot, pte.pfn⟩ ∧
        (9 < maxPtLen ∧ (m.tables m.regPtbr0)[9]? = some pte ∨
          maxPtLen ≤ 9 ∧ 9 < 2 * maxPtLen ∧
            (m.tables m.curr.r1PageTable)[9 - maxPtLen]? = some pte) := by
  obtain ⟨m, run, tested⟩ := exists_memoryReachable
    (fun m => decide (m.mode = .user) && (m.tlb 9).isSome) (smallMemoryBoot 32)
    [⟨.returnToUser, [], []⟩, ⟨.userStore 9 [], [[9]], []⟩] (by decide +kernel)
  rw [Bool.and_eq_true, decide_eq_true_eq] at tested
  obtain ⟨user, cached⟩ := tested
  obtain ⟨translation, found⟩ := Option.isSome_iff_exists.mp cached
  exact ⟨m, run, user, translation, found, bootedMemory_coherent run found⟩

end

end Yallnix

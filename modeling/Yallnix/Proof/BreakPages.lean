import Yallnix.Construction.SmallMemory
import Yallnix.Proof.FrameTaking
import Yallnix.Proof.HeapMove
import Yallnix.Proof.PageRange
import Mathlib.Logic.Relation

namespace Yallnix

/-- The entry of a page of the region that starts at `baseVpn`. -/
def pagePtep (table : Addr) (baseVpn page : Nat) : PtePtr := ⟨table, (page : Int) - baseVpn⟩

theorem pagePtep_next (table : Addr) (baseVpn page : Nat) :
    (pagePtep table baseVpn page).next = pagePtep table baseVpn (page + 1) := by
  simp only [pagePtep, PtePtr.next, PtePtr.mk.injEq, true_and]
  omega

/-- Two lists of one length pair every member of the first. -/
theorem exists_mem_zip {pages pfns : List Nat} (length : pfns.length = pages.length) {page : Nat}
    (listed : page ∈ pages) : ∃ pfn, (page, pfn) ∈ pages.zip pfns := by
  have both := List.map_fst_zip length.ge
  rw [← both] at listed
  obtain ⟨⟨_, pfn⟩, paired, rfl⟩ := List.mem_map.mp listed
  exact ⟨pfn, paired⟩

section
variable [Hardware]

namespace KernelMemory

variable {m n k : KernelMemory} {table : Addr} {baseVpn : Nat}

/-- The three cases of the page comparison unmap or map the pages between the two breaks. -/
theorem brkPages_eq (table : Addr) (baseVpn addr currBrk : Nat) (m : KernelMemory) :
    m.brkPages table baseVpn addr currBrk =
      if addr < currBrk then do
        let m ← m.unmapPages (pageCeil currBrk - pageCeil addr)
          (pagePtep table baseVpn (pageCeil addr))
        return (true, m)
      else m.mapPages protReadWrite (pageCeil addr - pageCeil currBrk)
        (pagePtep table baseVpn (pageCeil currBrk)) :=
  breakCases_eq addr currBrk
    (fun count page => m.unmapPages count (pagePtep table baseVpn page) >>=
      fun m => return (true, m))
    (fun count page => m.mapPages protReadWrite count (pagePtep table baseVpn page))
    (fun _ => rfl) fun _ => rfl

/-- A loop writes the entries of these pages once, in order, and no others. -/
structure WritesPages (table : Addr) (baseVpn : Nat) (pages : List Nat) (m n : KernelMemory) :
    Prop where
  others : ∀ other i, (other = table → i + baseVpn ∉ pages) →
    (n.tables other)[i]? = (m.tables other)[i]?
  written : n.written = (pages.map (pagePtep table baseVpn)).reverse ++ m.written

namespace WritesPages

theorem refl (table : Addr) (baseVpn : Nat) (m : KernelMemory) :
    WritesPages table baseVpn [] m m :=
  ⟨fun _ _ _ => rfl, rfl⟩

/-- One write of an entry comes before the writes of the later pages. -/
theorem cons {page count : Nat} {pte : Pte} {frames : FrameList}
    {tlb : Nat → Option Translation} {fills : List (List Nat)}
    (inside : m.Holds (pagePtep table baseVpn page))
    (rest : WritesPages table baseVpn (List.range' (page + 1) count)
      { m with
        toMmu := { m.toMmu.store (pagePtep table baseVpn page) pte with tlb := tlb, fills := fills }
        frameList := frames } n) :
    baseVpn ≤ page ∧ (n.tables table)[page - baseVpn]? = some pte ∧
      (∀ later ∈ List.range' (page + 1) count,
        ((m.toMmu.store (pagePtep table baseVpn page) pte).tables table)[later - baseVpn]? =
          (m.tables table)[later - baseVpn]?) ∧
      WritesPages table baseVpn (List.range' page (count + 1)) m n := by
  have above : baseVpn ≤ page := by
    have nonneg := inside.1
    simp only [pagePtep] at nonneg
    omega
  have index : (pagePtep table baseVpn page).index.toNat = page - baseVpn := by
    simp only [pagePtep]
    omega
  have stored := m.toMmu.store_tables pte inside
  rw [index] at stored
  refine ⟨above, ?_, fun later listed => ?_, ⟨fun other i outside => ?_, ?_⟩⟩
  · refine (rest.others table (page - baseVpn) fun _ => ?_).trans ?_
    · rw [List.mem_range'_1]
      omega
    · exact (stored table _).trans (if_pos ⟨rfl, rfl⟩)
  · have range := List.mem_range'_1.mp listed
    exact (stored table _).trans (if_neg (by omega))
  · refine (rest.others other i fun same listed => outside same ?_).trans ?_
    · rw [List.range'_succ]
      exact List.mem_cons_of_mem _ listed
    · refine (stored other i).trans (if_neg ?_)
      rintro ⟨same, here⟩
      refine outside same ?_
      rw [List.mem_range'_1]
      omega
  · rw [rest.written, List.range'_succ, List.map_cons, List.reverse_cons, List.append_assoc]
    rfl

end WritesPages

/-- The shrink loop invalidates the entries of its pages and frees their frames. -/
theorem unmapPages_eq_ok {count page : Nat}
    (done : m.unmapPages count (pagePtep table baseVpn page) = .ok n) :
    WritesPages table baseVpn (List.range' page count) m n ∧
      ∃ pfns : List Nat, pfns.length = count ∧ n.frameList = pfns.foldl freeFrame m.frameList ∧
        ∀ vpn pfn, (vpn, pfn) ∈ (List.range' page count).zip pfns → baseVpn ≤ vpn ∧
          ∃ pte, pte.pfn = pfn ∧ (m.tables table)[vpn - baseVpn]? = some pte ∧
            (n.tables table)[vpn - baseVpn]? = some { pte with valid := false } := by
  induction count generalizing m page with
  | zero =>
      cases done
      exact ⟨.refl _ _ _, [], rfl, rfl, nofun⟩
  | succ count ih =>
      obtain ⟨pte, read, done⟩ := Outcome.bind_eq_ok.mp done
      obtain ⟨k, wrote, done⟩ := Outcome.bind_eq_ok.mp done
      obtain ⟨inside, old, found, tlb, fills, rfl⟩ := invalidatePageTableEntry_eq_ok wrote
      obtain ⟨-, read⟩ := readEntry_eq_ok.mp read
      obtain rfl : pte = old := Option.some.inj (read.symm.trans found)
      rw [pagePtep_next] at done
      obtain ⟨rest, pfns, length, frames, entries⟩ := ih done
      obtain ⟨above, here, later, all⟩ := rest.cons (m := m) inside
      refine ⟨all, pte.pfn :: pfns, congrArg (· + 1) length, frames, fun vpn pfn listed => ?_⟩
      rw [List.range'_succ, List.zip_cons_cons, List.mem_cons] at listed
      rcases listed with same | listed
      · cases same
        refine ⟨above, pte, rfl, ?_, here⟩
        rw [← read]
        congr 1
        simp only [pagePtep]
        omega
      · obtain ⟨inRegion, entry, number, before, after⟩ := entries vpn pfn listed
        refine ⟨inRegion, entry, number, ?_, after⟩
        rw [← later vpn (List.of_mem_zip listed).1]
        exact before

/-- The growth loop maps its first pages to the frames that it gets. -/
theorem mapPages_eq_ok {prot : Prot} {count page : Nat} {mapped : Bool}
    (done : m.mapPages prot count (pagePtep table baseVpn page) = .ok (mapped, n)) :
    ∃ pfns, takeFrames count m.frameList = (pfns, n.frameList) ∧
      (mapped = true ↔ pfns.length = count) ∧
      WritesPages table baseVpn (List.range' page pfns.length) m n ∧
      ∀ vpn pfn, (vpn, pfn) ∈ (List.range' page pfns.length).zip pfns → baseVpn ≤ vpn ∧
        (n.tables table)[vpn - baseVpn]? = some ⟨true, prot, pfn⟩ := by
  induction count generalizing m page with
  | zero =>
      cases done
      exact ⟨[], rfl, by simp, .refl _ _ _, nofun⟩
  | succ count ih =>
      rw [KernelMemory.mapPages] at done
      split at done
      · rename_i frames missing
        cases done
        exact ⟨[], by rw [takeFrames, missing], by simp, ⟨fun _ _ _ => rfl, rfl⟩, nofun⟩
      · rename_i pfn frames found
        obtain ⟨k, wrote, done⟩ := Outcome.bind_eq_ok.mp done
        obtain ⟨inside, tlb, fills, rfl⟩ := setPageTableEntry_eq_ok wrote
        rw [pagePtep_next] at done
        obtain ⟨pfns, taken, all, rest, entries⟩ := ih done
        obtain ⟨above, here, -, writes⟩ := rest.cons (m := m) inside
        refine ⟨pfn :: pfns, ?_, ?_, writes, fun vpn number listed => ?_⟩
        · simp only [takeFrames, found, taken]
        · rw [all, List.length_cons]
          omega
        · rw [List.length_cons, List.range'_succ, List.zip_cons_cons, List.mem_cons] at listed
          rcases listed with same | listed
          · cases same
            exact ⟨above, here⟩
          · exact entries vpn number listed

/-- The break moves, these pages lose their frames, and these pages get new frames. -/
structure BreakMoves (table : Addr) (baseVpn currBrk addr : Nat)
    (invalidated freed mapped taken : List Nat) (m n : KernelMemory) : Prop where
  invalidatedPages : ∀ page, page ∈ invalidated ↔
    addr ≤ page * pageSize ∧ page * pageSize < currBrk
  mappedPages : ∀ page, page ∈ mapped ↔ currBrk ≤ page * pageSize ∧ page * pageSize < addr
  once : (invalidated ++ mapped).Nodup
  writes : WritesPages table baseVpn (invalidated ++ mapped) m n
  freedLength : freed.length = invalidated.length
  freedFrames : ∀ page pfn, (page, pfn) ∈ invalidated.zip freed → baseVpn ≤ page ∧
    ∃ pte, pte.pfn = pfn ∧ (m.tables table)[page - baseVpn]? = some pte ∧
      (n.tables table)[page - baseVpn]? = some { pte with valid := false }
  takenLength : taken.length = mapped.length
  takenFrames : ∀ page pfn, (page, pfn) ∈ mapped.zip taken → baseVpn ≤ page ∧
    (n.tables table)[page - baseVpn]? = some ⟨true, protReadWrite, pfn⟩
  frames : takeFrames mapped.length (freed.foldl freeFrame m.frameList) = (taken, n.frameList)

/-- A move of the break changes exactly the pages between the two addresses. -/
def BreakMoved (table : Addr) (baseVpn currBrk addr : Nat) (m n : KernelMemory) : Prop :=
  ∃ invalidated freed mapped taken,
    BreakMoves table baseVpn currBrk addr invalidated freed mapped taken m n

theorem brkPages_moved {currBrk addr : Nat}
    (done : m.brkPages table baseVpn addr currBrk = .ok (true, n)) :
    BreakMoved table baseVpn currBrk addr m n := by
  rw [brkPages_eq] at done
  split at done
  · rename_i shrinks
    obtain ⟨k, unmapped, done⟩ := Outcome.bind_eq_ok.mp done
    cases done
    obtain ⟨writes, pfns, length, frames, entries⟩ := unmapPages_eq_ok unmapped
    refine ⟨pagesBetween addr currBrk, pfns, [], [], {
      invalidatedPages := fun page => mem_pagesBetween
      mappedPages := fun page => ?_
      once := by simpa using nodup_pagesBetween addr currBrk
      writes := by
        rw [List.append_nil]
        exact writes
      freedLength := by rw [length, pagesBetween, List.length_range']
      freedFrames := entries
      takenLength := rfl
      takenFrames := nofun
      frames := by rw [← frames]; rfl }⟩
    simp only [List.not_mem_nil, false_iff]
    omega
  · rename_i grows
    obtain ⟨pfns, taken, all, writes, entries⟩ := mapPages_eq_ok done
    rw [all.mp rfl] at writes entries
    refine ⟨[], [], pagesBetween currBrk addr, pfns, {
      invalidatedPages := fun page => ?_
      mappedPages := fun page => mem_pagesBetween
      once := nodup_pagesBetween currBrk addr
      writes := writes
      freedLength := rfl
      freedFrames := nofun
      takenLength := by rw [all.mp rfl, pagesBetween, List.length_range']
      takenFrames := entries
      frames := by rw [pagesBetween, List.length_range']; exact taken }⟩
    simp only [List.not_mem_nil, false_iff]
    omega

/-- A page of a region has a valid entry. -/
def PageMapped (m : KernelMemory) (table : Addr) (baseVpn page : Nat) : Prop :=
  baseVpn ≤ page ∧ ∃ pte, (m.tables table)[page - baseVpn]? = some pte ∧ pte.valid = true

/-- The pages of a range are mapped exactly when they start below the break. -/
def MappedBelow (m : KernelMemory) (table : Addr) (baseVpn brk : Nat) (range : Set Nat) : Prop :=
  ∀ page ∈ range, m.PageMapped table baseVpn page ↔ page * pageSize < brk

theorem BreakMoved.mappedBelow {currBrk addr : Nat} {range : Set Nat}
    (moved : BreakMoved table baseVpn currBrk addr m n)
    (before : m.MappedBelow table baseVpn currBrk range) :
    n.MappedBelow table baseVpn addr range := by
  obtain ⟨invalidated, freed, mapped, taken, moves⟩ := moved
  intro page inRange
  have old := before page inRange
  by_cases removed : page ∈ invalidated
  · have outside := (moves.invalidatedPages page).mp removed
    obtain ⟨pfn, paired⟩ := exists_mem_zip moves.freedLength removed
    obtain ⟨-, pte, -, -, after⟩ := moves.freedFrames page pfn paired
    refine ⟨?_, fun below => by omega⟩
    rintro ⟨-, found, here, valid⟩
    rw [after] at here
    cases here
    cases valid
  · by_cases added : page ∈ mapped
    · have inside := (moves.mappedPages page).mp added
      obtain ⟨pfn, paired⟩ := exists_mem_zip moves.takenLength added
      obtain ⟨above, after⟩ := moves.takenFrames page pfn paired
      exact ⟨fun _ => inside.2, fun _ => ⟨above, _, after, rfl⟩⟩
    · have sides : page * pageSize < currBrk ↔ page * pageSize < addr := by
        have outside := mt (moves.invalidatedPages page).mpr removed
        have missing := mt (moves.mappedPages page).mpr added
        omega
      rw [← sides, ← old]
      refine and_congr_right fun above => ?_
      rw [moves.writes.others table (page - baseVpn) fun _ listed => ?_]
      rw [Nat.sub_add_cancel above, List.mem_append] at listed
      exact listed.elim removed added

/-- A move of the break keeps the registers and everything outside the tables and the frames. -/
theorem brkPages_rest {currBrk addr : Nat} {moved : Bool}
    (done : m.brkPages table baseVpn addr currBrk = .ok (moved, n)) :
    (∃ mmu frames, n = { m with toMmu := mmu, frameList := frames }) ∧
      n.regVmEnable = m.regVmEnable ∧ n.regPtbr0 = m.regPtbr0 := by
  rw [brkPages_eq] at done
  split at done
  · obtain ⟨k, unmapped, done⟩ := Outcome.bind_eq_ok.mp done
    cases done
    have writes := Writes.unmapPages unmapped
    exact ⟨writes.rest, writes.regVmEnable, writes.regPtbr0⟩
  · have writes := Writes.mapPages done
    exact ⟨writes.rest, writes.regVmEnable, writes.regPtbr0⟩

theorem kernelBrk_moved {addr : Nat} (done : m.kernelBrk addr = .ok (successCode, n)) :
    BreakMoved m.curr.r1PageTable userBaseVpn m.curr.brk addr m n ∧ n.curr.brk = addr ∧
      n.curr.r1PageTable = m.curr.r1PageTable := by
  unfold kernelBrk at done
  split at done
  · cases done
  obtain ⟨⟨moved, k⟩, pages, done⟩ := Outcome.bind_eq_ok.mp done
  dsimp only at done
  split at done
  · cases done
  rename_i mapped
  cases done
  rw [Bool.not_eq_true, Bool.not_eq_false'] at mapped
  subst mapped
  obtain ⟨⟨mmu, frames, rfl⟩, -, -⟩ := brkPages_rest pages
  obtain ⟨invalidated, freed, added, taken, moves⟩ := brkPages_moved pages
  refine ⟨⟨invalidated, freed, added, taken, { moves with writes := ?_ }⟩, ?_, ?_⟩
  · exact ⟨moves.writes.others, moves.writes.written⟩
  · simp only [curr, updatePcb, Function.update_self]
  · simp only [curr, updatePcb, Function.update_self]

theorem setKernelBrk_moved {addr : Nat} (enabled : m.regVmEnable = true)
    (done : m.setKernelBrk addr = .ok (successCode, n)) :
    BreakMoved m.regPtbr0 0 m.currKernelBrk addr m n ∧ n.currKernelBrk = addr ∧
      n.regPtbr0 = m.regPtbr0 ∧ n.regVmEnable = true := by
  unfold setKernelBrk at done
  split at done
  · cases done
  split at done
  · cases done
  rw [enabled, Bool.not_true, if_neg Bool.false_ne_true] at done
  obtain ⟨⟨moved, k⟩, pages, done⟩ := Outcome.bind_eq_ok.mp done
  dsimp only at done
  split at done
  · cases done
  rename_i mapped
  cases done
  rw [Bool.not_eq_true, Bool.not_eq_false'] at mapped
  subst mapped
  obtain ⟨-, enable, ptbr0⟩ := brkPages_rest pages
  obtain ⟨invalidated, freed, added, taken, moves⟩ := brkPages_moved pages
  refine ⟨⟨invalidated, freed, added, taken, { moves with writes := ?_ }⟩, rfl, ptbr0,
    enable.trans enabled⟩
  exact ⟨moves.writes.others, moves.writes.written⟩

/-- A call of `KernelBrk` succeeds. -/
def UserBreak (m n : KernelMemory) : Prop := ∃ addr, m.kernelBrk addr = .ok (successCode, n)

/-- A call of `SetKernelBrk` succeeds after virtual memory is enabled. -/
def KernelBreak (m n : KernelMemory) : Prop :=
  m.regVmEnable = true ∧ ∃ addr, m.setKernelBrk addr = .ok (successCode, n)

theorem userBreaks_mappedBelow {range : Set Nat} (calls : Relation.ReflTransGen UserBreak m n)
    (before : m.MappedBelow m.curr.r1PageTable userBaseVpn m.curr.brk range) :
    n.MappedBelow n.curr.r1PageTable userBaseVpn n.curr.brk range := by
  induction calls with
  | refl => exact before
  | tail _ last ih =>
      obtain ⟨addr, done⟩ := last
      obtain ⟨moved, brk, table⟩ := kernelBrk_moved done
      rw [brk, table]
      exact moved.mappedBelow ih

theorem kernelBreaks_mappedBelow {range : Set Nat}
    (calls : Relation.ReflTransGen KernelBreak m n)
    (before : m.MappedBelow m.regPtbr0 0 m.currKernelBrk range) :
    n.MappedBelow n.regPtbr0 0 n.currKernelBrk range := by
  induction calls with
  | refl => exact before
  | tail _ last ih =>
      obtain ⟨enabled, addr, done⟩ := last
      obtain ⟨moved, brk, table, -⟩ := setKernelBrk_moved enabled done
      rw [brk, table]
      exact moved.mappedBelow ih

/-- A successful call changes exactly the pages between the two breaks, and successful calls keep
the pages below the break mapped. -/
theorem breaks_movePages :
    (∀ (m n : KernelMemory) addr, m.kernelBrk addr = .ok (successCode, n) →
      BreakMoved m.curr.r1PageTable userBaseVpn m.curr.brk addr m n ∧ n.curr.brk = addr) ∧
    (∀ (m n : KernelMemory) addr, m.regVmEnable = true →
      m.setKernelBrk addr = .ok (successCode, n) →
      BreakMoved m.regPtbr0 0 m.currKernelBrk addr m n ∧ n.currKernelBrk = addr) ∧
    (∀ (m n : KernelMemory) range, Relation.ReflTransGen UserBreak m n →
      m.MappedBelow m.curr.r1PageTable userBaseVpn m.curr.brk range →
      n.MappedBelow n.curr.r1PageTable userBaseVpn n.curr.brk range) ∧
    ∀ (m n : KernelMemory) range, Relation.ReflTransGen KernelBreak m n →
      m.MappedBelow m.regPtbr0 0 m.currKernelBrk range →
      n.MappedBelow n.regPtbr0 0 n.currKernelBrk range := by
  refine ⟨fun m n addr done => ?_, fun m n addr enabled done => ?_,
    fun _ _ _ => userBreaks_mappedBelow, fun _ _ _ => kernelBreaks_mappedBelow⟩
  · obtain ⟨moved, brk, -⟩ := kernelBrk_moved done
    exact ⟨moved, brk⟩
  · obtain ⟨moved, brk, -⟩ := setKernelBrk_moved enabled done
    exact ⟨moved, brk⟩

end KernelMemory

end

section
attribute [local instance] smallHardware

/-- `init` moves its break over two page starts of the small memory. -/
theorem breaks_movePages_small : ∃ m n : KernelMemory, bootedMemory.Reachable m ∧
    m.curr.brk < 192 ∧
    KernelMemory.BreakMoved m.curr.r1PageTable userBaseVpn m.curr.brk 192 m n ∧ n.curr.brk = 192 := by
  obtain ⟨m, run, tested⟩ := exists_memoryReachable
    (fun m => m.curr.brk < 192 && leaves (fun _ => true)
      (m.kernelBrk 192 >>= fun result =>
        if result.1 = successCode then .ok result.2 else .error .halt))
    (smallMemoryBoot 32) [] (by decide +kernel)
  rw [Bool.and_eq_true, decide_eq_true_eq] at tested
  obtain ⟨n, done, -⟩ := leaves_eq_true tested.2
  obtain ⟨⟨code, k⟩, called, done⟩ := Outcome.bind_eq_ok.mp done
  dsimp only at done
  split at done
  · rename_i succeeded
    subst succeeded
    cases done
    exact ⟨m, n, run, tested.1, KernelMemory.breaks_movePages.1 m n 192 called⟩
  · cases done

end

end Yallnix

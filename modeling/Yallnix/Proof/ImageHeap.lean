import Yallnix.Proof.ValidPages

namespace Yallnix

section
variable [Hardware]

namespace KernelMemory

variable {m n k : KernelMemory} {table proc : Addr}

namespace Writes

theorem freeValidPages {count index : Nat} (done : m.freeValidPages table count index = .ok n) :
    Writes table index (index + count) m n := by
  induction count generalizing m index with
  | zero =>
      cases done
      exact refl _
  | succ count ih =>
      obtain ⟨pte, -, done⟩ := Outcome.bind_eq_ok.mp done
      split at done
      · exact (ih done).mono (by omega) (by omega)
      · obtain ⟨stored, wrote, done⟩ := Outcome.bind_eq_ok.mp done
        have first := invalidatePageTableEntry wrote
        have rest := ih done
        dsimp only at first
        exact (frames _ _).trans
          ((first.mono (by omega) (by omega)).trans (rest.mono (by omega) (by omega)))

theorem protectText {count : Nat} {index : Int}
    (done : m.protectText table count index = .ok n) :
    Writes table index (index + count) m n := by
  induction count generalizing m index with
  | zero =>
      cases done
      exact refl _
  | succ count ih =>
      obtain ⟨pte, -, done⟩ := Outcome.bind_eq_ok.mp done
      obtain ⟨stored, wrote, done⟩ := Outcome.bind_eq_ok.mp done
      have first := setPageTableEntry wrote
      have rest := ih done
      dsimp only at first
      exact (first.mono (by omega) (by omega)).trans (rest.mono (by omega) (by omega))

end Writes

/-- The pages of a contiguous image lie below the break of its process. -/
theorem HeapMapped.of_image {li : LoadInfo} (contiguous : li.Contiguous)
    (room : loadData li + (li.idNpg + li.udNpg) < maxPtLen)
    (text : ∀ i : Nat, loadText li ≤ i → (i : Int) < loadText li + li.tNpg →
      (m.tables (m.pcbs proc).r1PageTable).maps i = true)
    (data : ∀ i : Nat, loadData li ≤ i → (i : Int) < loadData li + (li.idNpg + li.udNpg : Nat) →
      (m.tables (m.pcbs proc).r1PageTable).maps i = true) :
    HeapMapped proc (m.updatePcb proc fun pcb =>
      { pcb with brk := vmem1Base + (li.idNpg + li.udNpg + li.tNpg) * pageSize }) := by
  rw [contiguous.data] at room data
  rw [contiguous.text] at text
  refine .setBrk ?_ fun i below => ?_
  · rw [vmem1Base, vmem1Limit, ← Nat.add_mul]
    exact Nat.mul_le_mul_right _ (by omega)
  · rw [vmem1Base, ← Nat.add_mul, pageCeil_mul] at below
    by_cases isText : i < li.tNpg
    · exact text i (by omega) (by omega)
    · exact data i (by omega) (by omega)

/-- A process has its heap in a table that is not the table of the kernel. -/
structure HeapIn (table proc : Addr) (m : KernelMemory) : Prop where
  heap : HeapMapped proc m
  own : (m.pcbs proc).r1PageTable = table
  kernel : table ≠ m.regPtbr0

/-- Spared tables keep the heap. -/
theorem HeapIn.of_spares {written : Set Addr} (heapIn : HeapIn table proc m)
    (spares : Spares ∅ written m n) (away : table ∉ written) : HeapIn table proc n := by
  obtain ⟨heap, rfl, kernel⟩ := heapIn
  refine ⟨heap.of_spares spares (Set.notMem_empty _) away kernel,
    spares.r1PageTable proc (Set.notMem_empty _), ?_⟩
  rwa [spares.regPtbr0]

theorem HeapIn.of_leaves (heapIn : HeapIn table proc m) (leaves : LeavesSites m n) :
    HeapIn table proc n :=
  heapIn.of_spares leaves.toSpares (Set.notMem_empty _)

/-- New valid pages keep the heap. -/
theorem HeapIn.of_writes {low high : Int} (heapIn : HeapIn table proc m)
    (writes : Writes table low high m n) (keeps : KeepsValid table m n) : HeapIn table proc n := by
  have spares : Spares ∅ {table} m n := .of_writes writes
  obtain ⟨heap, rfl, kernel⟩ := heapIn
  refine ⟨heap.of_keepsValid spares (Set.notMem_empty _) keeps,
    spares.r1PageTable proc (Set.notMem_empty _), ?_⟩
  rwa [spares.regPtbr0]

/-- The load fails early, misses a frame or leaves all pages below the break valid. -/
theorem loadImage_heap {li : LoadInfo} {request : ImageRequest} {code : Int}
    (contiguous : li.Contiguous)
    (room : loadStackPages request.argLengths + loadData li + (li.idNpg + li.udNpg) < maxPtLen)
    (kernel : (m.pcbs proc).r1PageTable ≠ m.regPtbr0)
    (done : m.loadImage li request proc = .ok (code, n)) :
    HeapMapped proc n ∨
      code = killCode ∧ (Spares ∅ {m.regPtbr0} m n ∨ n.frameList.starved = true) := by
  obtain ⟨⟨found, first⟩, allocated, done⟩ := Outcome.bind_eq_ok.mp done
  have malloc := Spares.malloc allocated
  dsimp only at done
  split at done
  · cases done
    exact Or.inr ⟨rfl, Or.inl malloc⟩
  have kernel : (first.pcbs proc).r1PageTable ≠ first.regPtbr0 := by
    rwa [malloc.r1PageTable proc (Set.notMem_empty _), malloc.regPtbr0]
  obtain ⟨second, freed, done⟩ := Outcome.bind_eq_ok.mp done
  obtain ⟨⟨textMapped, third⟩, mappedText, done⟩ := Outcome.bind_eq_ok.mp done
  have cleared : Spares ∅ {(first.pcbs proc).r1PageTable} first second :=
    .of_writes (Writes.freeValidPages freed)
  have written := cleared.trans (.of_writes (Writes.mapPages mappedText))
  obtain ⟨-, text⟩ := mapPages_valid mappedText
  dsimp only at done
  split at done
  · rename_i missing
    cases done
    rw [Bool.not_eq_true'] at missing
    rw [missing] at text
    exact Or.inr ⟨rfl, Or.inr text⟩
  rename_i textAll
  obtain ⟨⟨dataMapped, fourth⟩, mappedData, done⟩ := Outcome.bind_eq_ok.mp done
  have written := written.trans (Spares.of_writes (Writes.mapPages mappedData))
  obtain ⟨kept, data⟩ := mapPages_valid mappedData
  dsimp only at done
  split at done
  · rename_i missing
    cases done
    rw [Bool.not_eq_true'] at missing
    rw [missing] at data
    exact Or.inr ⟨rfl, Or.inr data⟩
  rename_i dataAll
  rw [Bool.not_eq_true, Bool.not_eq_false'] at textAll dataAll
  rw [textAll] at text
  rw [dataAll] at data
  have table := written.r1PageTable proc (Set.notMem_empty _)
  have heapIn : HeapIn (first.pcbs proc).r1PageTable proc (fourth.updatePcb proc fun pcb =>
      { pcb with brk := vmem1Base + (li.idNpg + li.udNpg + li.tNpg) * pageSize }) := by
    have stackPages := loadStackPages_nonneg request.argLengths
    refine ⟨.of_image contiguous (by omega) (fun i low high => ?_) (fun i low high => ?_), ?_,
      kernel.trans_eq written.regPtbr0.symm⟩
    · rw [table]
      exact kept i (text i low high)
    · rw [table]
      exact data i low high
    · simpa only [KernelMemory.updatePcb, Function.update_self] using table
  obtain ⟨⟨stackMapped, fifth⟩, mappedStack, done⟩ := Outcome.bind_eq_ok.mp done
  obtain ⟨keptImage, stack⟩ := mapPages_valid mappedStack
  replace heapIn := heapIn.of_writes (Writes.mapPages mappedStack) keptImage
  dsimp only at done
  split at done
  · rename_i missing
    cases done
    rw [Bool.not_eq_true'] at missing
    rw [missing] at stack
    exact Or.inr ⟨rfl, Or.inr stack⟩
  refine Or.inl ?_
  split at done
  · cases done
    exact heapIn.heap
  obtain ⟨sixth, readText, done⟩ := Outcome.bind_eq_ok.mp done
  replace heapIn := heapIn.of_leaves (.fillPages readText)
  split at done
  · cases done
    exact heapIn.heap
  obtain ⟨seventh, readData, done⟩ := Outcome.bind_eq_ok.mp done
  obtain ⟨eighth, protectedText, done⟩ := Outcome.bind_eq_ok.mp done
  obtain ⟨ninth, zeroed, done⟩ := Outcome.bind_eq_ok.mp done
  obtain ⟨tenth, built, done⟩ := Outcome.bind_eq_ok.mp done
  obtain ⟨last, freedBuffer, done⟩ := Outcome.bind_eq_ok.mp done
  cases done
  obtain ⟨answer, allocated, freedBuffer⟩ := Outcome.bind_eq_ok.mp freedBuffer
  cases freedBuffer
  replace heapIn := ((heapIn.of_leaves (.fillPages readData)).of_writes
    (Writes.protectText protectedText) (protectText_valid protectedText)).of_leaves
      ((LeavesSites.fillPages zeroed).trans (.fillPages built))
  exact (heapIn.of_spares (.malloc allocated) heapIn.kernel).heap

/-- A failed load changes no heap or misses a frame. -/
theorem loadProgram_heap {request : ImageRequest} {code : Int}
    (contiguous : ∀ li, request.file = some li → li.Contiguous)
    (kernel : (m.pcbs proc).r1PageTable ≠ m.regPtbr0)
    (done : m.loadProgram request proc = .ok (code, n)) :
    HeapMapped proc n ∨
      code ≠ successCode ∧ (Spares ∅ {m.regPtbr0} m n ∨ n.frameList.starved = true) := by
  unfold KernelMemory.loadProgram at done
  split at done
  · cases done
    exact Or.inr ⟨by decide, Or.inl (.refl _ _ m)⟩
  rename_i li file
  split at done
  · cases done
    exact Or.inr ⟨by decide, Or.inl (.refl _ _ m)⟩
  split at done
  · cases done
    exact Or.inr ⟨by decide, Or.inl (.refl _ _ m)⟩
  rename_i room
  refine (loadImage_heap (contiguous li file) (by omega) kernel done).imp_right ?_
  rintro ⟨rfl, failed⟩
  exact ⟨by decide, failed⟩

end KernelMemory

end

end Yallnix

import Yallnix.Proof.AccountLoops
import Yallnix.Proof.PrivateImage

namespace Yallnix

section
variable [Hardware]

namespace KernelMemory

variable {m n k : KernelMemory} {procs fewer : Set Addr}
  {slots less : Set (Addr × Fin kernelStackPages)} {p : Addr}

theorem Writes.maps {table : Addr} {low high : Int} (writes : Writes table low high m n) {i : Nat}
    (outside : (i : Int) < low ∨ high ≤ i) :
    (n.tables table).maps i = (m.tables table).maps i := by
  rw [PageTable.maps, writes.entries table i fun _ => outside, PageTable.maps]

theorem Writes.quiet {table : Addr} {low high : Int} (writes : Writes table low high m n)
    (quiet : m.Quiet) : n.Quiet := by
  obtain ⟨_, _, rfl⟩ := writes.rest
  exact quiet

/-- The pages that begin between the break and the address are not mapped. -/
def BreakClear (m : KernelMemory) (addr : Nat) : Prop :=
  ∀ i, m.curr.brk ≤ (maxPtLen + i) * pageSize → (maxPtLen + i) * pageSize < addr →
    (m.tables m.curr.r1PageTable).maps i = false

namespace Accounts

/-- `KernelBrk` loses no frame when it grows over no mapped page. -/
theorem kernelBrk {addr : Nat} {code : Int} (accounts : Accounts procs slots m)
    (tabled : Tabled procs m) (member : m.currPCB ∈ procs) (clear : m.BreakClear addr)
    (done : m.kernelBrk addr = .ok (code, n)) (fed : n.frameList.starved = false) :
    Accounts procs slots n := by
  unfold KernelMemory.kernelBrk at done
  split at done
  · cases done
    exact accounts
  obtain ⟨⟨moved, k⟩, pages, done⟩ := Outcome.bind_eq_ok.mp done
  have calls : CallsFrames k n := by
    dsimp only at done
    split at done
    · cases done
      exact .refl _
    · cases done
      exact CallsFrames.steady.updatePcb k _ rfl
  have kept : Accounts procs slots k := by
    rw [brkPages_eq] at pages
    split at pages
    · obtain ⟨l, unmapped, pages⟩ := Outcome.bind_eq_ok.mp pages
      cases pages
      exact accounts.unmapPages tabled member rfl unmapped
    · refine accounts.mapPages tabled member rfl (fun i low high => ?_) pages (calls.fed fed)
      simp only [pagePtep, userBaseVpn_eq] at low high
      exact clear i (pageCeil_le.mp (by omega)) (lt_pageCeil.mp (by omega))
  dsimp only at done
  split at done
  · cases done
    exact kept
  · cases done
    exact kept.updatePcb rfl rfl

/-- The memory trap loses no frame. -/
theorem handleTrapMemory {addr : Nat} (accounts : Accounts procs slots m)
    (tabled : Tabled procs m) (member : m.currPCB ∈ procs)
    (done : m.handleTrapMemory addr = .ok n) (fed : n.frameList.starved = false) :
    Accounts procs slots n := by
  unfold KernelMemory.handleTrapMemory at done
  dsimp only at done
  split at done
  · cases done
    exact accounts.of_leaves tabled (.mode m _)
  obtain ⟨⟨mapped, k⟩, grown, done⟩ := Outcome.bind_eq_ok.mp done
  have ends : CallsFrames k n ∧ LeavesSites k n := by
    dsimp only at done
    split at done
    · cases done
      exact ⟨CallsFrames.steadyHeap.mode _ _, .mode k _⟩
    · cases done
      exact ⟨.refl _, .refl _⟩
  exact (accounts.growStack tabled member rfl grown (ends.1.fed fed)).of_leaves
    (tabled.calls (CallsFrames.steady.growStack grown)) ends.2

/-- `LoadProgram` gives all old frames back and maps each page of a contiguous image once. -/
theorem loadImage {li : LoadInfo} {request : ImageRequest} {code : Int}
    (accounts : Accounts procs slots m) (tabled : Tabled procs m) (quiet : m.Quiet)
    (member : p ∈ procs) (contiguous : li.Contiguous)
    (room : loadStackPages request.argLengths + loadData li + (li.idNpg + li.udNpg) < maxPtLen)
    (done : m.loadImage li request p = .ok (code, n)) :
    n.frameList.starved = false → Accounts procs slots n := by
  obtain ⟨⟨found, first⟩, allocated, done⟩ := Outcome.bind_eq_ok.mp done
  have begins : CallsFrames m first := CallsFrames.steadyHeap.malloc allocated
  have started := accounts.of_leaves tabled (LeavesSites.malloc quiet allocated)
  dsimp only at done
  split at done
  · cases done
    exact fun _ => started
  obtain ⟨second, freed, done⟩ := Outcome.bind_eq_ok.mp done
  have toSecond := begins.trans (CallsFrames.steady.freeValidPages freed)
  have cleared := started.freeValidPages (tabled.calls begins) member freed
  have empty := freeValidPages_unmaps freed
  obtain ⟨⟨textMapped, third⟩, mappedText, done⟩ := Outcome.bind_eq_ok.mp done
  have toThird := toSecond.trans (CallsFrames.steady.mapPages mappedText)
  have wroteText := Writes.mapPages mappedText
  have stack := loadStackPages_nonneg request.argLengths
  rw [contiguous.data] at room
  simp only [contiguous.text, contiguous.data] at wroteText mappedText done
  have table : ∀ {l}, CallsFrames m l → (first.pcbs p).r1PageTable = (l.pcbs p).r1PageTable :=
    fun calls => (begins.tables p).trans (calls.tables p).symm
  have text : third.frameList.starved = false → Accounts procs slots third := fun fed =>
    cleared.mapPages (tabled.calls toSecond) member (table toSecond)
      (fun i low high => empty i (Nat.zero_le i) (by dsimp only at high; omega)) mappedText fed
  split at done
  · cases done
    exact text
  obtain ⟨⟨dataMapped, fourth⟩, mappedData, done⟩ := Outcome.bind_eq_ok.mp done
  have dataCalls : CallsFrames third fourth := CallsFrames.steady.mapPages mappedData
  have wroteData := Writes.mapPages mappedData
  dsimp only at wroteData
  have data : fourth.frameList.starved = false → Accounts procs slots fourth := fun fed =>
    (text (dataCalls.fed fed)).mapPages (tabled.calls toThird) member (table toThird)
      (fun i low high => by
        dsimp only at low high ⊢
        rw [wroteText.maps (Or.inr (by omega))]
        exact empty i (Nat.zero_le i) (by omega)) mappedData fed
  dsimp only at done
  split at done
  · cases done
    exact data
  obtain ⟨⟨stackMapped, fifth⟩, mappedStack, done⟩ := Outcome.bind_eq_ok.mp done
  let broken := fourth.updatePcb p fun pcb =>
    { pcb with brk := vmem1Base + (li.idNpg + li.udNpg + li.tNpg) * pageSize }
  have toBroken : CallsFrames m broken :=
    (toThird.trans dataCalls).trans (CallsFrames.steady.updatePcb fourth p rfl)
  have stackCalls : CallsFrames broken fifth := CallsFrames.steady.mapPages mappedStack
  have toFifth := toBroken.trans stackCalls
  have mapped : fifth.frameList.starved = false → Accounts procs slots fifth := fun fed =>
    ((data (stackCalls.fed fed)).updatePcb rfl rfl).mapPages (tabled.calls toBroken) member
      (table toBroken) (fun i low high => by
        dsimp only at low high ⊢
        change (fourth.tables _).maps i = false
        rw [wroteData.maps (Or.inr (by omega)), wroteText.maps (Or.inr (by omega))]
        exact empty i (Nat.zero_le i) (by omega)) mappedStack fed
  dsimp only at done
  split at done
  · cases done
    exact mapped
  split at done
  · cases done
    exact mapped
  obtain ⟨sixth, readText, done⟩ := Outcome.bind_eq_ok.mp done
  have leaves := LeavesSites.fillPages readText
  have filled : sixth.frameList.starved = false → Accounts procs slots sixth := fun fed =>
    (mapped (leaves.frameList ▸ fed)).of_leaves (tabled.calls toFifth) leaves
  split at done
  · cases done
    exact filled
  obtain ⟨seventh, readData, done⟩ := Outcome.bind_eq_ok.mp done
  obtain ⟨eighth, protectedText, done⟩ := Outcome.bind_eq_ok.mp done
  obtain ⟨ninth, zeroed, done⟩ := Outcome.bind_eq_ok.mp done
  obtain ⟨tenth, built, done⟩ := Outcome.bind_eq_ok.mp done
  obtain ⟨last, freedBuffer, done⟩ := Outcome.bind_eq_ok.mp done
  cases done
  have loads := leaves.trans (.fillPages readData)
  have loadCalls : CallsFrames fifth seventh :=
    (CallsFrames.steady.fillPages readText).trans (CallsFrames.steady.fillPages readData)
  have protects : CallsFrames seventh eighth := CallsFrames.steady.protectText protectedText
  have toEighth := (toFifth.trans loadCalls).trans protects
  have args := (LeavesSites.fillPages zeroed).trans (.fillPages built)
  have silent : tenth.Quiet := args.quiet ((Writes.protectText protectedText).quiet
    (loads.quiet ((Writes.mapPages mappedStack).quiet (wroteData.quiet (wroteText.quiet
      ((Writes.freeValidPages freed).quiet ((LeavesSites.malloc quiet allocated).quiet quiet)))))))
  have ends := args.trans (.free silent freedBuffer)
  intro fed
  have fed : eighth.frameList.starved = false := ends.frameList ▸ fed
  have loaded := (mapped (loadCalls.fed (protects.fed fed))).of_leaves (tabled.calls toFifth) loads
  rw [table (toFifth.trans loadCalls)] at protectedText
  exact (loaded.protectText (tabled.calls (toFifth.trans loadCalls)) member
    protectedText).of_leaves (tabled.calls toEighth) ends

/-- `LoadProgram` loses no frame of a contiguous image. -/
theorem loadProgram {request : ImageRequest} {code : Int} (accounts : Accounts procs slots m)
    (tabled : Tabled procs m) (quiet : m.Quiet) (member : p ∈ procs)
    (contiguous : ContiguousFile request) (done : m.loadProgram request p = .ok (code, n))
    (fed : n.frameList.starved = false) : Accounts procs slots n := by
  unfold KernelMemory.loadProgram at done
  split at done
  · cases done
    exact accounts
  rename_i li file
  split at done
  · cases done
    exact accounts
  split at done
  · cases done
    exact accounts
  rename_i room
  exact accounts.loadImage tabled quiet member (contiguous li file) (by omega) done fed

/-- `KernelExec` loses no frame. -/
theorem kernelExec {request : ImageRequest} (accounts : Accounts procs slots m)
    (tabled : Tabled procs m) (quiet : m.Quiet) (member : m.currPCB ∈ procs)
    (contiguous : ContiguousFile request) (done : m.kernelExec request = .ok n)
    (fed : n.frameList.starved = false) : Accounts procs slots n := by
  unfold KernelMemory.kernelExec at done
  split at done
  · cases done
    exact accounts
  obtain ⟨⟨status, k⟩, load, done⟩ := Outcome.bind_eq_ok.mp done
  have calls : CallsFrames m k := CallsFrames.steadyHeap.loadProgram load
  have ends : LeavesSites k n := by
    dsimp only at done
    split at done
    · cases done
      exact .mode _ _
    split at done
    · cases done
      exact .refl _
    obtain ⟨⟨_, last⟩, started, done⟩ := Outcome.bind_eq_ok.mp done
    cases done
    exact .execTo started
  exact (accounts.loadProgram tabled quiet member contiguous load (ends.frameList ▸ fed)).of_leaves
    (tabled.calls calls) ends

end Accounts

end KernelMemory

end

end Yallnix

import Yallnix.Construction.MemoryMachine
import Yallnix.Construction.SmallMachine

namespace Yallnix

section
attribute [local instance] smallHardware

/-- `malloc` gives these addresses to a process, and all other memory holds zeros. -/
def smallProcess (pcb r1PageTable : Addr) : ProcessMemory :=
  ⟨pcb, r1PageTable, ⟨0, none, 0, fun _ => 0⟩, [], []⟩

/-- The program has one text page and the given number of data pages. -/
def smallImage (dataPages : Nat) : ImageRequest :=
  ⟨true, some ⟨128, 128, 1, 144, dataPages, 0⟩, [], true, true, fun _ => []⟩

/-- The kernel data end at the second page, and memory has thirty frames. -/
def smallMemoryBoot (currKernelBrk : Nat) : MemoryBoot where
  pmemSize := 480
  kernelDataStart := 16
  kernelDataEnd := 32
  currKernelBrk := currKernelBrk
  r0Answer := ⟨[], true⟩
  initR1Answer := ⟨[], true⟩
  frameListAnswer := ⟨[], true⟩
  library := []
  fills := []
  tables := fun _ => []
  r0PageTable := 0
  initR1PageTable := 1
  pages := fun _ => []
  pastFrames := ⟨0, false⟩
  pcbs := fun _ => ⟨0, none, 0, fun _ => 0⟩
  idle := smallProcess 0 2
  initPcbp := 1
  initKctxt := []
  currKctxt := []
  request := smallImage 1
  distinctTables := by decide
  distinctPcbs := by decide

/-- A run of kernel code ends in memory with the tested property. -/
def leaves (test : KernelMemory → Bool) : Outcome KernelMemory → Bool
  | .ok m => test m
  | .error _ => false

theorem leaves_eq_true {test : KernelMemory → Bool} {outcome : Outcome KernelMemory}
    (left : leaves test outcome = true) : ∃ m, outcome = .ok m ∧ test m = true := by
  cases outcome with
  | ok m => exact ⟨m, rfl, left⟩
  | error stop => cases left

/-- The small memory boots and answers the inputs. -/
def smallMemoryRun (guard : KernelMemory → MemoryInput → Prop) [∀ m i, Decidable (guard m i)]
    (boot : MemoryBoot) (inputs : List MemoryInput) : Outcome KernelMemory :=
  KernelMemory.boot boot >>= fun m => m.drive guard inputs

/-- A tested run of the small memory meets its guard. -/
theorem exists_memoryRun (first : KernelMemory → Prop) (guard : KernelMemory → MemoryInput → Prop)
    [∀ m i, Decidable (guard m i)] (test : KernelMemory → Bool) (boot : MemoryBoot)
    (starts : ∀ m, KernelMemory.boot boot = .ok m → first m) (inputs : List MemoryInput)
    (left : leaves test (smallMemoryRun guard boot inputs) = true) :
    ∃ m, (memoryMachine first).Run guard m ∧ test m = true := by
  obtain ⟨m, done, tested⟩ := leaves_eq_true left
  obtain ⟨start, booted, driven⟩ := Outcome.bind_eq_ok.mp done
  exact ⟨m, KernelMemory.run_drive inputs (.start (starts start booted)) driven, tested⟩

/-- A tested run of the small memory ends in a reachable state. -/
theorem exists_memoryReachable (test : KernelMemory → Bool) (boot : MemoryBoot)
    (inputs : List MemoryInput)
    (left : leaves test (smallMemoryRun (fun _ _ => True) boot inputs) = true) :
    ∃ m, bootedMemory.Reachable m ∧ test m = true :=
  exists_memoryRun _ _ test boot (fun _ booted => ⟨boot, booted⟩) inputs left

end

end Yallnix

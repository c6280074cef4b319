import Yallnix.Construction.KernelStart

namespace Yallnix

/-- This machine has one terminal and eight small pages in each region. -/
@[reducible] def smallHardware : Hardware where
  pageShift := 4
  maxPtLen := 8
  kernelStackPages := 1
  numTerminals := 1
  terminalMaxLine := 8
  postArgvNullSpace := 1
  initialStackFrameSize := 4
  maxPtLenPositive := by decide
  terminalMaxLinePositive := by decide
  intRange := by decide

section
attribute [local instance] smallHardware

/-- A free PCB holds zeros. -/
def zeroPCB : PCB where
  pid := 0
  brk := 0
  uctxt := ⟨0, 0, 0⟩
  kctxt := none
  childrenMap := hashMapNew 1 (by decide)
  numChildren := 0
  parent := none
  zombieQ := none
  r1PageTable := []
  numRemainingDelayTicks := 0
  stackPfns := fun _ => 0

/-- The kernel holds the first eight of thirty frames. -/
def smallBoot : Boot where
  memory := fun _ => zeroPCB
  idlePCB := 0
  initPCB := 1
  distinct := by decide
  junk := zeroPCB
  frameList := ⟨(List.range 30).map fun i => ⟨i, decide (8 ≤ i)⟩, ⟨0, false⟩, false⟩
  r0PageTable := (List.range 8).map fun i => ⟨i != 6, protReadWrite, i⟩
  request := ⟨true, some ⟨128, 128, 1, 144, 1, 0⟩, [], true, true, true⟩
  ttyMemory := fun _ => List.replicate 16 0

/-- `malloc` gives this address to the next PCB, and all other memory holds zeros. -/
def answer (pcb : Addr) : Oracle := ⟨pcb, zeroPCB, fun _ => ⟨false, protNone, 0⟩, fun _ => 0⟩

/-- The running process makes a call. -/
def asks (call : Call) : Input := .kernelCall call (answer 99)

/-- The running process forks a child at this address. -/
def forks (child : Addr) : Input := .kernelCall .fork (answer child)

/-- Kernel code goes on. -/
def goesOn : Input := .resume zeroPCB

/-- The small machine boots and answers the inputs. -/
def smallRun (guard : Kernel → Input → Prop) [∀ s i, Decidable (guard s i)]
    (inputs : List Input) : Outcome Kernel :=
  kernelStart smallBoot >>= fun s => drive guard s inputs

/-- A run of the small machine ends in a state with the tested property. -/
def ends (test : Kernel → Bool) : Outcome Kernel → Bool
  | .ok s => test s
  | .error _ => false

theorem ends_eq_true {test : Kernel → Bool} {outcome : Outcome Kernel}
    (ended : ends test outcome = true) : ∃ s, outcome = .ok s ∧ test s = true := by
  cases outcome with
  | ok s => exact ⟨s, rfl, ended⟩
  | error stop => cases ended

theorem smallRun_run {guard : Kernel → Input → Prop} [∀ s i, Decidable (guard s i)]
    {inputs : List Input} {s : Kernel} (done : smallRun guard inputs = .ok s) :
    yallnix.Run guard s := by
  obtain ⟨start, booted, driven⟩ := Outcome.bind_eq_ok.mp done
  exact run_drive inputs (.start ⟨smallBoot, booted⟩) driven

/-- A tested run of the small machine meets its guard. -/
theorem exists_run (guard : Kernel → Input → Prop) [∀ s i, Decidable (guard s i)]
    (test : Kernel → Bool) (inputs : List Input)
    (ended : ends test (smallRun guard inputs) = true) :
    ∃ s, yallnix.Run guard s ∧ test s = true := by
  obtain ⟨s, done, tested⟩ := ends_eq_true ended
  exact ⟨s, smallRun_run done, tested⟩

/-- A tested run of the small machine ends in a reachable state. -/
theorem exists_reachable (test : Kernel → Bool) (inputs : List Input)
    (ended : ends test (smallRun (fun _ _ => True) inputs) = true) :
    ∃ s, yallnix.Reachable s ∧ test s = true :=
  exists_run _ test inputs ended

/-- A tested run of the small machine meets its guard and answers one more input. -/
theorem exists_step (guard : Kernel → Input → Prop) [∀ s i, Decidable (guard s i)]
    (test : Kernel → Kernel → Bool) (inputs : List Input) (i : Input)
    (ended : ends (fun s => decide (guard s i) && enabled s i && ends (test s) (handle s i))
      (smallRun guard inputs) = true) :
    ∃ s t, yallnix.Run guard s ∧ guard s i ∧ yallnix.step s i t ∧ test s t = true := by
  obtain ⟨s, done, tested⟩ := ends_eq_true ended
  rw [Bool.and_eq_true, Bool.and_eq_true, decide_eq_true_eq] at tested
  obtain ⟨⟨meets, ready⟩, answered⟩ := tested
  obtain ⟨t, handled, last⟩ := ends_eq_true answered
  exact ⟨s, t, smallRun_run done, meets, ⟨ready, handled⟩, last⟩

/-- A list of inputs that drives the kernel is a trace. -/
theorem trace_of_drive {guard : Kernel → Input → Prop} [∀ s i, Decidable (guard s i)]
    {s t : Kernel} (inputs : List Input) (driven : drive guard s inputs = .ok t) :
    yallnix.Trace s inputs t := by
  induction inputs generalizing s with
  | nil =>
      cases driven
      exact .nil
  | cons i rest ih =>
      unfold drive at driven
      split at driven
      · rename_i ready
        obtain ⟨next, handled, driven⟩ := Outcome.bind_eq_ok.mp driven
        exact (ih driven).cons ⟨ready.1, handled⟩
      · cases driven

/-- A tested run of the small machine goes on with a tested trace. -/
theorem exists_trace (test : Kernel → Kernel → Bool) (inputs more : List Input)
    (ended : ends (fun s => ends (test s) (drive (fun _ _ => True) s more))
      (smallRun (fun _ _ => True) inputs) = true) :
    ∃ s t, yallnix.Reachable s ∧ yallnix.Trace s more t ∧ test s t = true := by
  obtain ⟨s, done, ended⟩ := ends_eq_true ended
  obtain ⟨t, driven, tested⟩ := ends_eq_true ended
  exact ⟨s, t, smallRun_run done, trace_of_drive more driven, tested⟩

end

end Yallnix

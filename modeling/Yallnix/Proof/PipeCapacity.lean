import Yallnix.Proof.PipeStream

namespace Yallnix

section
variable [Hardware]

/-- The part of `KernelPipeWrite` before the copy returns a code, or it goes on with a pipe. -/
def pipeWriteTests (pipeId len : Int) (s : Kernel) : Outcome (Int ⊕ ObjPtr × Pipe) := do
  if len < 0 then return .inl errorCode
  if len = 0 then return .inl successCode
  match ← hashMapFind s.pipeMap pipeId with
  | none => return .inl errorCode
  | some pipep =>
      let pipe ← deref (s.pipes pipep)
      if (pipeMaxBytes : Int) < wrapInt (pipe.numBytesWritten + len) then return .inl errorCode
      else return .inr (pipep, pipe)

/-- The part of `KernelPipeWrite` from the copy on. -/
def pipeWriteCopy (pipep : ObjPtr) (pipe : Pipe) (len : Int) (bytes : List Byte) (s : Kernel) :
    Outcome (Int × Kernel) := do
  let buffer ← memmove pipe.buffer pipe.numBytesWritten bytes
  let s' := s.withScheduler (s.record (.pipeWritten pipep bytes))
  let s'' ← unblockHead pipep pipe.waitingQ
    (s'.setPipe pipep (some ⟨buffer, pipe.numBytesWritten + len, pipe.waitingQ⟩))
  return (len, s'')

/-- A write is its tests and then its copy. -/
theorem kernelPipeWrite_eq (pipeId len : Int) (bytes : List Byte) (s : Kernel) :
    kernelPipeWrite pipeId len bytes s = pipeWriteTests pipeId len s >>= fun tested =>
      match tested with
      | .inl code => .ok (code, s)
      | .inr (pipep, pipe) => pipeWriteCopy pipep pipe len bytes s := by
  unfold kernelPipeWrite pipeWriteTests
  split
  · rfl
  split
  · rfl
  cases hashMapFind s.pipeMap pipeId with
  | error stop => rfl
  | ok found =>
      cases found with
      | none => rfl
      | some pipep =>
          cases object : s.pipes pipep with
          | none => simp only [Outcome.ok_bind, object, deref, Outcome.error_bind]
          | some pipe =>
              simp only [Outcome.ok_bind, object, deref]
              split <;> rfl

/-- The tests let a write through to this pipe exactly when its wrapped sum is small enough. -/
theorem pipeWriteTests_eq_inr {pipeId len : Int} {s : Kernel} {pipep : ObjPtr} {pipe : Pipe} :
    pipeWriteTests pipeId len s = .ok (.inr (pipep, pipe)) ↔
      0 < len ∧ hashMapFind s.pipeMap pipeId = .ok (some pipep) ∧ s.pipes pipep = some pipe ∧
        wrapInt (pipe.numBytesWritten + len) ≤ pipeMaxBytes := by
  constructor
  · intro done
    unfold pipeWriteTests at done
    split at done
    · cases done
    rename_i nonneg
    split at done
    · cases done
    rename_i nonzero
    obtain ⟨found, known, done⟩ := Outcome.bind_eq_ok.mp done
    cases found with
    | none => cases done
    | some found =>
        obtain ⟨object, present, done⟩ := Outcome.bind_eq_ok.mp done
        split at done
        · cases done
        rename_i room
        cases done
        refine ⟨by omega, known, ?_, not_lt.mp room⟩
        cases stored : s.pipes pipep with
        | none =>
            rw [stored] at present
            cases present
        | some pipe =>
            rw [stored] at present
            cases present
            rfl
  · rintro ⟨positive, known, object, room⟩
    rw [pipeWriteTests, if_neg (by omega), if_neg (by omega), known, Outcome.ok_bind]
    simp only [object, deref, Outcome.ok_bind, if_neg (not_lt.mpr room)]
    rfl

/-- The number of bytes of each pipe is in its range. -/
def Kernel.PipesBounded (s : Kernel) : Prop :=
  ∀ pipep pipe, s.pipes pipep = some pipe →
    0 ≤ pipe.numBytesWritten ∧ pipe.numBytesWritten ≤ pipeMaxBytes

/-- A write reaches its copy only with room for its bytes, and it never writes behind the buffer. -/
structure Kernel.CapacityHolds (s : Kernel) (pipeId len : Int) : Prop where
  room : ∀ pipep pipe, pipeWriteTests pipeId len s = .ok (.inr (pipep, pipe)) →
    pipe.numBytesWritten + len ≤ pipeMaxBytes
  inside : ∀ pipep pipe bytes, pipeWriteTests pipeId len s = .ok (.inr (pipep, pipe)) →
    bytes.length = len → ∃ buffer, memmove pipe.buffer pipe.numBytesWritten bytes = .ok buffer
  bounded : ∀ bytes code t, bytes.length = len →
    kernelPipeWrite pipeId len bytes s = .ok (code, t) → t.PipesBounded

/-- The sum of the capacity test is an `int`. -/
def Kernel.SumFits (s : Kernel) (pipeId len : Int) : Prop :=
  ∀ pipep pipe, hashMapFind s.pipeMap pipeId = .ok (some pipep) → s.pipes pipep = some pipe →
    0 < len → pipe.numBytesWritten + len < 2 ^ 31

theorem pipeMaxBytes_lt : (pipeMaxBytes : Int) < 2 ^ 31 := by
  have range := Hardware.intRange
  have half : pipeMaxBytes ≤ terminalMaxLine := Nat.div_le_self _ _
  omega

/-- Only the write changes the pipe. -/
theorem pipeWriteCopy_pipes {pipep : ObjPtr} {pipe : Pipe} {len code : Int} {bytes : List Byte}
    {s t : Kernel} (done : pipeWriteCopy pipep pipe len bytes s = .ok (code, t)) :
    ∃ buffer, t.pipes = Function.update s.pipes pipep
      (some ⟨buffer, pipe.numBytesWritten + len, pipe.waitingQ⟩) := by
  obtain ⟨buffer, _, done⟩ := Outcome.bind_eq_ok.mp done
  obtain ⟨u, woken, done⟩ := Outcome.bind_eq_ok.mp done
  cases done
  refine ⟨buffer, ?_⟩
  unfold unblockHead at woken
  split at woken
  · cases woken
    rfl
  · obtain ⟨scheduler, _, woken⟩ := Outcome.bind_eq_ok.mp woken
    cases woken
    rfl

/-- In every reachable state all counts are in range, and a write of any length respects the
capacity exactly when the sum of its test is an `int`. -/
theorem pipeWrite_capacity {s : Kernel} (reachable : restlessYallnix.Reachable s) (pipeId : Int)
    {len : Int} (isInt : len < 2 ^ 31) :
    s.PipesBounded ∧ (s.CapacityHolds pipeId len ↔ s.SumFits pipeId len) := by
  have streams := restless_streams reachable
  have bounded : s.PipesBounded := fun pipep pipe object =>
    have fits := (streams.streams pipep).fits pipe object
    ⟨fits.nonneg, fits.bound⟩
  have limit := pipeMaxBytes_lt
  refine ⟨bounded, fun holds pipep pipe known object positive => ?_, fun fits => ?_⟩
  · by_contra large
    obtain ⟨nonneg, bound⟩ := bounded pipep pipe object
    have passed : wrapInt (pipe.numBytesWritten + len) ≤ pipeMaxBytes := by
      unfold wrapInt
      omega
    have room := holds.room pipep pipe
      (pipeWriteTests_eq_inr.mpr ⟨positive, known, object, passed⟩)
    omega
  · have room : ∀ pipep pipe, pipeWriteTests pipeId len s = .ok (.inr (pipep, pipe)) →
        0 < len ∧ s.pipes pipep = some pipe ∧ pipe.numBytesWritten + len ≤ pipeMaxBytes := by
      intro pipep pipe tested
      obtain ⟨positive, known, object, passed⟩ := pipeWriteTests_eq_inr.mp tested
      have small := fits pipep pipe known object positive
      obtain ⟨nonneg, -⟩ := bounded pipep pipe object
      rw [wrapInt_of_range (by omega) small] at passed
      exact ⟨positive, object, passed⟩
    refine ⟨fun pipep pipe tested => (room pipep pipe tested).2.2, ?_, ?_⟩
    · intro pipep pipe bytes tested size
      obtain ⟨-, object, enough⟩ := room pipep pipe tested
      have full := ((streams.streams pipep).fits pipe object).size
      unfold memmove
      rw [if_pos ⟨(bounded pipep pipe object).1, by omega⟩]
      exact ⟨_, rfl⟩
    · intro bytes code t _ done
      rw [kernelPipeWrite_eq] at done
      obtain ⟨tested | ⟨pipep, pipe⟩, passed, done⟩ := Outcome.bind_eq_ok.mp done
      · cases done
        exact bounded
      · obtain ⟨positive, object, enough⟩ := room pipep pipe passed
        obtain ⟨buffer, pipes⟩ := pipeWriteCopy_pipes done
        intro q other stored
        rw [pipes] at stored
        by_cases here : q = pipep
        · rw [here, Function.update_self, Option.some.injEq] at stored
          rw [← stored]
          have nonneg := (bounded pipep pipe object).1
          exact ⟨by change 0 ≤ pipe.numBytesWritten + len; omega, enough⟩
        · rw [Function.update_of_ne here] at stored
          exact bounded q other stored

end

section
attribute [local instance] smallHardware

/-- The tests let this write through to a pipe with one byte. -/
def passesWithOne (pipeId len : Int) (s : Kernel) : Bool :=
  match pipeWriteTests pipeId len s with
  | .ok (.inr (_, pipe)) => decide (pipe.numBytesWritten = 1)
  | _ => false

theorem passesWithOne_eq_true {pipeId len : Int} {s : Kernel}
    (passes : passesWithOne pipeId len s = true) :
    ∃ pipep pipe, pipeWriteTests pipeId len s = .ok (.inr (pipep, pipe)) ∧
      pipe.numBytesWritten = 1 := by
  unfold passesWithOne at passes
  split at passes
  · rename_i pipep pipe tested
    exact ⟨pipep, pipe, tested, of_decide_eq_true passes⟩
  · cases passes

/-- A write of two bytes respects the capacity of a pipe with one byte. -/
theorem pipeWrite_capacity_small :
    ∃ s : Kernel, passesWithOne 0 2 s = true ∧
      s.PipesBounded ∧ (s.CapacityHolds 0 2 ↔ s.SumFits 0 2) := by
  obtain ⟨s, reachable, passes⟩ := exists_reachable (passesWithOne 0 2)
    [asks .pipeInit, asks (.pipeWrite 0 1 [7])] (by decide +kernel)
  exact ⟨s, passes, pipeWrite_capacity (reachable_restless reachable) 0 (by decide)⟩

/-- The largest `int` passes the test of a pipe with one byte, and its copy leaves the buffer. -/
theorem capacityHolds_false :
    ∃ s : Kernel, yallnix.Reachable s ∧ ¬s.CapacityHolds 0 (2 ^ 31 - 1) := by
  obtain ⟨s, reachable, passes⟩ := exists_reachable (passesWithOne 0 (2 ^ 31 - 1))
    [asks .pipeInit, asks (.pipeWrite 0 1 [7])] (by decide +kernel)
  obtain ⟨pipep, pipe, tested, one⟩ := passesWithOne_eq_true passes
  refine ⟨s, reachable, fun holds => ?_⟩
  have room := holds.room pipep pipe tested
  rw [one] at room
  exact absurd room (by decide)

end

end Yallnix

import Yallnix.Proof.WaitEntry
import Yallnix.Proof.BufferCheck

namespace Yallnix

section
variable [Hardware]

/-- A write to this address of region 1 is allowed. -/
def PageTable.Writable (table : PageTable) (addr : Nat) : Prop :=
  getAddressRegion addr = 1 ∧
    ∃ pte, table[addr / pageSize - userBaseVpn]? = some pte ∧ pte.allows protReadWrite = true

/-- The four bytes of an exit status may be written. -/
def PageTable.StatusFits (table : PageTable) (statusPtr : Nat) : Prop :=
  ∀ k < 4, table.Writable (statusPtr + k)

/-- The page of the pointer is still mapped, and no byte lies on another page that is not writable. -/
structure PageTable.StatusMapped (table : PageTable) (statusPtr : Nat) : Prop where
  valid : ∀ pte, table[statusPtr / pageSize - userBaseVpn]? = some pte → pte.valid = true
  others : ∀ k < 4, (statusPtr + k) / pageSize ≠ statusPtr / pageSize →
    table.Writable (statusPtr + k)

/-- `getAddressProt` reads the entry of the page of the address. -/
theorem getAddressProt_eq_ok {table : PageTable} {addr : Nat} {prot : Prot}
    (region : getAddressRegion addr = 1) (read : getAddressProt table addr = .ok prot) :
    ∃ pte, table[addr / pageSize - userBaseVpn]? = some pte ∧ pte.prot = prot := by
  have above := (getAddressRegion_eq_one.mp region).1
  obtain ⟨pte, found, done⟩ := Outcome.bind_eq_ok.mp read
  refine ⟨pte, ?_, Except.ok.inj done⟩
  unfold readEntry at found
  split at found
  · split at found
    · rename_i entry listed
      have index : ((addr / pageSize : Nat) - userBaseVpn : Int).toNat =
          addr / pageSize - userBaseVpn := by
        rw [userBaseVpn_eq]
        omega
      rw [index] at listed
      rw [listed, Except.ok.inj found]
    · cases found
  · cases found

/-- The checks of `KernelWait` leave the valid bit and the other pages open. -/
theorem statusFits_iff {s : Scheduler} {statusPtr : Nat} (accepts : s.AcceptsWait statusPtr) :
    s.curr.r1PageTable.StatusFits statusPtr ↔ s.curr.r1PageTable.StatusMapped statusPtr := by
  obtain ⟨pte, found, prot⟩ := getAddressProt_eq_ok accepts.region accepts.prot
  constructor
  · intro fits
    refine ⟨fun other listed => ?_, fun k below _ => fits k below⟩
    obtain ⟨-, entry, here, allows⟩ := fits 0 (by decide)
    rw [Nat.add_zero, listed, Option.some.injEq] at here
    rw [here]
    exact (Bool.and_eq_true_iff.mp allows).1
  · intro mapped k below
    by_cases same : (statusPtr + k) / pageSize = statusPtr / pageSize
    · refine ⟨?_, pte, by rw [same]; exact found, ?_⟩
      · rw [getAddressRegion_eq_one, same]
        exact getAddressRegion_eq_one.mp accepts.region
      · rw [Pte.allows, mapped.valid pte found, prot]
        rfl
    · exact mapped.others k below same

/-- `KernelWait` gets to its store through this pointer, at the call or after a block. -/
inductive Kernel.StoresStatus (s : Kernel) (statusPtr : Nat) : Input → Prop where
  | call {oracle : Oracle} (accepts : s.AcceptsWait statusPtr)
      (zombie : s.curr.zombieQ.getD makeQ ≠ []) :
      StoresStatus s statusPtr (.kernelCall (.wait statusPtr) oracle)
  | woken {junk : PCB} (point : s.cpu = .waitWoken statusPtr)
      (zombie : s.curr.zombieQ.getD makeQ ≠ []) : StoresStatus s statusPtr (.resume junk)

theorem kernelWaitCollect_cons {s : Scheduler} {zombie : Zombie} {rest : Queue Zombie}
    (queue : s.curr.zombieQ.getD makeQ = zombie :: rest) :
    (kernelWaitCollect s).1 = zombie.pid ∧
      (kernelWaitCollect s).2.log =
        .waited s.curr.pid zombie.pid zombie.exitStatus :: s.log ∧
      (kernelWaitCollect s).2.curr.pid = s.curr.pid := by
  unfold kernelWaitCollect
  rw [queue]
  refine ⟨rfl, rfl, ?_⟩
  simp only [deqQ_cons, Scheduler.record, Scheduler.updatePcb, Scheduler.curr,
    Function.update_self]

/-- The step of such an input hands the oldest zombie to the caller. -/
theorem Kernel.StoresStatus.collects {s t : Kernel} {statusPtr : Nat} {i : Input}
    (stores : s.StoresStatus statusPtr i) (done : handle s i = .ok t) :
    ∃ zombie rest, s.curr.zombieQ.getD makeQ = zombie :: rest ∧
      t.log = .returned s.curr.pid (.wait statusPtr) zombie.pid ::
        .waited s.curr.pid zombie.pid zombie.exitStatus :: s.log := by
  have returned (present : s.curr.zombieQ.getD makeQ ≠ [])
      (same : t = finishScheduler (.wait statusPtr) s
        (.ret (kernelWaitCollect s.toScheduler).2 (kernelWaitCollect s.toScheduler).1)) :
      ∃ zombie rest, s.curr.zombieQ.getD makeQ = zombie :: rest ∧
        t.log = .returned s.curr.pid (.wait statusPtr) zombie.pid ::
          .waited s.curr.pid zombie.pid zombie.exitStatus :: s.log := by
    obtain ⟨zombie, rest, queue⟩ := List.exists_cons_of_ne_nil present
    obtain ⟨code, log, pid⟩ := kernelWaitCollect_cons queue
    refine ⟨zombie, rest, queue, ?_⟩
    rw [same]
    change Event.returned (kernelWaitCollect s.toScheduler).2.curr.pid _
      (kernelWaitCollect s.toScheduler).1 :: (kernelWaitCollect s.toScheduler).2.log = _
    rw [code, log, pid]
  cases stores with
  | call accepts present =>
      obtain ⟨flow, waited, done⟩ := Outcome.bind_eq_ok.mp done
      rcases kernelWait_cases waited with ⟨rejects, -⟩ | ⟨-, -, rfl⟩ | ⟨-, empty, -⟩
      · exact absurd accepts rejects
      · exact returned present (Except.ok.inj done).symm
      · exact absurd empty present
  | @woken junk point present =>
      have resumed : handle s (.resume junk) = .ok (finishScheduler (.wait statusPtr) s
          (.ret (kernelWaitCollect s.toScheduler).2 (kernelWaitCollect s.toScheduler).1)) := by
        simp only [handle, resumeKernel, point]
        rfl
      exact returned present (Except.ok.inj (done.symm.trans resumed))

/-- Every accepted wait call has a pointer to mapped pages. -/
def StatusGuarded (s : Kernel) (i : Input) : Prop :=
  ∀ statusPtr oracle, i = .kernelCall (.wait statusPtr) oracle → s.AcceptsWait statusPtr →
    s.curr.r1PageTable.StatusMapped statusPtr

/-- A process that waits for a zombie can still write through its pointer. -/
def Kernel.WaitersFit (s : Kernel) : Prop :=
  ∀ a ∈ s.live, ∀ statusPtr, s.pos a = .waitWoken statusPtr →
    (s.pcbs a).r1PageTable.StatusFits statusPtr

/-- A wait call writes no page table entry. -/
theorem waitCall_table {s t : Kernel} {statusPtr : Nat} {oracle : Oracle}
    (running : s.currPCB ∈ s.live)
    (done : handle s (.kernelCall (.wait statusPtr) oracle) = .ok t) :
    (t.pcbs s.currPCB).r1PageTable = s.curr.r1PageTable := by
  obtain ⟨flow, waited, done⟩ := Outcome.bind_eq_ok.mp done
  cases done
  rw [finishScheduler_eq]
  have frames : Frames True PCB.r1PageTable (s.currPCB + 1) s.toScheduler
      (flow.finish (.wait statusPtr)) := (kernelWait_frames waited).finish _
  exact frames.others s.currPCB running (Nat.ne_of_lt (Nat.lt_succ_self _))

/-- A blocked process keeps its page table, and a wait call checks the table of its process. -/
theorem Kernel.WaitersFit.step {s t : Kernel} {i : Input} (sound : Sound s) (fit : s.WaitersFit)
    (guarded : StatusGuarded s i) (next : yallnix.step s i t) : t.WaitersFit := by
  intro a inside statusPtr point
  obtain ⟨ready, done⟩ := next
  obtain ⟨-, step⟩ := sound.step ⟨ready, done⟩
  rcases step.family.live inside with old | ⟨-, -, born⟩
  · by_cases isCurr : a = s.currPCB
    · subst isCurr
      obtain ⟨oracle, rfl, accepts, -⟩ := sound.waits ⟨ready, done⟩ inside point
      rw [waitCall_table old done]
      exact (statusFits_iff accepts).mpr (guarded statusPtr oracle rfl accepts)
    · have framed := handle_framed (f := PCB.r1PageTable) sound.placed sound.family ready
        (fun _ _ _ => rfl) done
      have kept : t.pos a = s.pos a := (step.family.other old isCurr).2.1
      rw [framed.others a old isCurr]
      exact fit a old statusPtr (kept.symm.trans point)
  · change t.pos a = _ at born
    rw [point] at born
    cases born

/-- In every run whose wait calls are accepted with mapped pages only, each exit status goes to
four writable bytes. At an accepted wait call the mapped pages are what this needs. -/
theorem run_storesStatus {s : Kernel} (run : yallnix.Run StatusGuarded s) {i : Input}
    {statusPtr : Nat} (stores : s.StoresStatus statusPtr i) :
    (StatusGuarded s i → s.curr.r1PageTable.StatusFits statusPtr) ∧
      ∀ oracle, i = .kernelCall (.wait statusPtr) oracle →
        (s.curr.r1PageTable.StatusFits statusPtr ↔
          s.curr.r1PageTable.StatusMapped statusPtr) := by
  have fit : s.WaitersFit := by
    refine run.invariant_of_reachable (fun _ => reachable_sound) ?_ ?_
    · rintro u ⟨boot, done⟩ a live ptr point
      have plain : (u.pos a).isPlain = true := (kernelStart_fresh done).2.1.plain a live
      rw [point] at plain
      cases plain
    · intro u j v sound fit guarded next
      exact fit.step sound guarded next
  refine ⟨fun guarded => ?_, fun oracle act => ?_⟩
  · cases stores with
    | call accepts _ => exact (statusFits_iff accepts).mpr (guarded _ _ rfl accepts)
    | woken point _ =>
        have sound := reachable_sound run.reachable
        exact fit s.currPCB sound.placed.live statusPtr (s.pos_curr.trans point)
  · subst act
    cases stores with
    | call accepts _ => exact statusFits_iff accepts

end

section
attribute [local instance] smallHardware

/-- The running process may wait at 144 and has a zombie. -/
def waitsAt144 (s : Kernel) : Bool :=
  decide (getAddressProt s.curr.r1PageTable 144 = .ok protReadWrite) &&
    decide (0 < s.curr.numChildren) && decide (s.curr.zombieQ.getD makeQ ≠ [])

theorem waitsAt144_eq_true {s : Kernel} (waits : waitsAt144 s = true) :
    s.StoresStatus 144 (asks (.wait 144)) := by
  simp only [waitsAt144, Bool.and_eq_true, decide_eq_true_eq] at waits
  exact .call ⟨by decide, waits.1.1, waits.1.2⟩ waits.2

def isWait : Input → Bool
  | .kernelCall (.wait _) _ => true
  | _ => false

/-- The heap page of `init` takes the exit status of its child. -/
theorem run_storesStatus_small : ∃ s : Kernel, s.StoresStatus 144 (asks (.wait 144)) ∧
    s.curr.r1PageTable.StatusFits 144 := by
  obtain ⟨s, run, tested⟩ := exists_run (fun _ i => isWait i = false)
    (fun s => waitsAt144 s && s.curr.r1PageTable[1]?.all Pte.valid)
    [forks 2, goesOn, asks (.exit 7), goesOn, goesOn, .clock, goesOn] (by decide +kernel)
  rw [Bool.and_eq_true] at tested
  have guarded : yallnix.Run StatusGuarded s := run.mono fun _ i other statusPtr oracle act => by
    rw [act] at other
    cases other
  have stores := waitsAt144_eq_true tested.1
  have mapped : s.curr.r1PageTable.StatusMapped 144 := by
    refine ⟨fun pte found => ?_, ?_⟩
    · change s.curr.r1PageTable[1]? = some pte at found
      rw [found] at tested
      exact tested.2
    · intro k below differs
      have same : ∀ k < 4, (144 + k) / pageSize = 144 / pageSize := by decide
      exact absurd (same k below) differs
  have fits := (run_storesStatus guarded stores).1 fun statusPtr oracle act _ => by
    cases act
    exact mapped
  exact ⟨s, stores, fits⟩

/-- After a smaller break the checks still pass, and the status goes to a page without a frame. -/
theorem storesStatus_false : ∃ s : Kernel, yallnix.Reachable s ∧
    enabled s (asks (.wait 144)) = true ∧ s.StoresStatus 144 (asks (.wait 144)) ∧
      ¬s.curr.r1PageTable.StatusFits 144 := by
  obtain ⟨s, reachable, tested⟩ := exists_reachable
    (fun s => enabled s (asks (.wait 144)) && waitsAt144 s &&
      (s.curr.r1PageTable[1]?.all fun pte => !pte.valid))
    [forks 2, goesOn, asks (.exit 7), goesOn, goesOn, .clock, goesOn, asks (.brk 144)]
    (by decide +kernel)
  rw [Bool.and_eq_true, Bool.and_eq_true] at tested
  obtain ⟨⟨ready, waits⟩, unmapped⟩ := tested
  refine ⟨s, reachable, ready, waitsAt144_eq_true waits, fun fits => ?_⟩
  obtain ⟨-, pte, found, allows⟩ := fits 0 (by decide)
  change s.curr.r1PageTable[1]? = some pte at found
  rw [found] at unmapped
  rw [Pte.allows, (Bool.not_eq_true' _).mp unmapped] at allows
  cases allows

end

end Yallnix

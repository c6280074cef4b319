import Yallnix.Construction.ForkFailure
import Yallnix.Proof.FamilyInvariant
import Yallnix.Proof.FrameTaking

namespace Yallnix

section
variable [Hardware]

variable {memory : ForkMemory} {newPCB : Addr} {junk : PCB} {oracle : Oracle} {s t : Scheduler}

theorem takeStackSlots_eq {slots : List (Fin kernelStackPages)} {wasSet after : List PcbField}
    {taken : Bool} (done : takeStackSlots newPCB slots wasSet s = (taken, after, t)) :
    takeStackFrames newPCB slots s = (taken, t) := by
  induction slots generalizing wasSet s with
  | nil =>
      cases done
      rfl
  | cons i rest ih =>
      rw [takeStackSlots] at done
      rw [takeStackFrames]
      cases found : getFrame s.frameList with
      | mk pfn frames =>
          rw [found] at done
          cases pfn with
          | none =>
              cases done
              rfl
          | some pfn => exact ih done

/-- `malloc` finds memory for the whole PCB. -/
structure PcbMemory.Found (memory : PcbMemory) : Prop where
  pcb : memory.pcb = true
  uctxt : memory.uctxt = true
  childrenMap : memory.childrenMap = true
  r1PageTable : memory.r1PageTable = true

/-- With all its memory `initPCB` does what the machine of all calls says. -/
theorem initPCBWith_eq {memory : PcbMemory} (found : memory.Found) (newPCB : Addr) (junk : PCB)
    (s : Scheduler) :
    ((initPCBWith memory newPCB junk s).code, (initPCBWith memory newPCB junk s).scheduler) =
      initPCB newPCB junk s := by
  rw [initPCBWith, initPCB, found.pcb, found.uctxt, found.childrenMap, found.r1PageTable]
  simp only [Bool.not_true, Bool.false_eq_true, if_false, if_true, Scheduler.updatePcb,
    Function.update_self, Function.update_idem]
  generalize looped : takeStackSlots newPCB _ _ _ = result
  obtain ⟨taken, wasSet, t⟩ := result
  rw [takeStackSlots_eq looped]
  cases taken with
  | true => rfl
  | false => rfl

theorem forkProcessWith_eq (kctxt : memory.kctxt = true) (readyNode : memory.readyNode = true)
    (k : Pos) (child : Addr) (s : Scheduler) :
    forkProcessWith memory k child s = .ok (forkProcess k child s) := by
  rw [forkProcessWith, kctxt, readyNode]
  cases found : (s.pcbs child).parent with
  | none =>
      rw [forkProcess, found]
  | some parent =>
      simp only [forkProcess, found, Bool.not_true, Bool.false_eq_true, if_false]
      split <;> rfl

/-- With all its memory `KernelFork` does what the machine of all calls says. -/
theorem kernelForkWith_eq (found : memory.toPcbMemory.Found) (kctxt : memory.kctxt = true)
    (childNode : memory.childNode = true) (readyNode : memory.readyNode = true)
    (oracle : Oracle) (s : Scheduler) : kernelForkWith memory oracle s = kernelFork oracle s := by
  have made := initPCBWith_eq found oracle.pcb oracle.junk s
  rw [kernelForkWith, kernelFork, ← made]
  simp only [childNode, hashMapInsertWith, if_true, forkProcessWith_eq kctxt readyNode]
  rfl

/-- The machine of all calls finds all its memory. -/
def plenty : ForkMemory := ⟨⟨true, true, true, true, []⟩, true, true, true⟩

theorem handleWith_plenty (s : Kernel) (i : Input) : handleWith s ⟨i, plenty⟩ = handle s i := by
  unfold handleWith
  split
  · rename_i oracle isFork
    cases isFork
    rw [kernelForkWith_eq ⟨rfl, rfl, rfl, rfl⟩ rfl rfl rfl]
    rfl
  · rfl

/-- The machine of all calls is the machine that finds all its memory. -/
theorem Machine.Reachable.scarce {guard : Kernel → ScarceInput → Prop}
    (allows : ∀ s i, guard s ⟨i, plenty⟩) {s : Kernel} (reachable : yallnix.Reachable s) :
    scarceYallnix.Run guard s := by
  induction reachable with
  | start first => exact .start first
  | step _ _ next ih =>
      refine .step ih (allows _ _) ⟨next.1, ?_⟩
      rw [handleWith_plenty]
      exact next.2

/-- `initPCB` writes a PCB into the memory that `malloc` gave it. -/
def Scheduler.start (s : Scheduler) (newPCB : Addr) (pcb : PCB) : Scheduler :=
  { s.updatePcb newPCB fun _ => pcb with
    nextPid := s.nextPid + 1
    allocated := insert newPCB s.allocated }

/-- These are the ways in which `initPCB` can end. -/
inductive InitResult.Ends (memory : PcbMemory) (newPCB : Addr) (junk : PCB) (s : Scheduler) :
    InitResult → Prop where
  | nothing (missing : memory.pcb = false) : Ends memory newPCB junk s ⟨errorCode, s, [], []⟩
  | failed {wasSet : List PcbField} {pcb : PCB} (got : memory.pcb = true)
      (missing : ¬memory.Found) (unset : ∀ i, .stackPfn i ∉ wasSet)
      (stackPfns : pcb.stackPfns = (s.pcbs newPCB).stackPfns)
      (table : pcb.r1PageTable = if memory.uctxt && memory.childrenMap then memory.nullTable
        else (s.pcbs newPCB).r1PageTable) :
      Ends memory newPCB junk s (initFailed newPCB junk wasSet (s.start newPCB pcb))
  | starved {wasSet after : List PcbField} {pcb : PCB} {t : Scheduler} (found : memory.Found)
      (unset : ∀ i, .stackPfn i ∉ wasSet)
      (stackPfns : pcb.stackPfns = (s.pcbs newPCB).stackPfns)
      (table : pcb.r1PageTable = initializeRegionPageTable)
      (looped : takeStackSlots newPCB (List.finRange kernelStackPages) wasSet
        (s.start newPCB pcb) = (false, after, t)) :
      Ends memory newPCB junk s (initFailed newPCB junk after t)
  | made {wasSet after : List PcbField} {pcb : PCB} {t : Scheduler} (found : memory.Found)
      (pid : pcb.pid = s.nextPid)
      (looped : takeStackSlots newPCB (List.finRange kernelStackPages) wasSet
        (s.start newPCB pcb) = (true, after, t)) :
      Ends memory newPCB junk s ⟨successCode, t, after, []⟩

theorem initPCBWith_ends (memory : PcbMemory) (newPCB : Addr) (junk : PCB) (s : Scheduler) :
    InitResult.Ends memory newPCB junk s (initPCBWith memory newPCB junk s) := by
  cases pcb : memory.pcb with
  | false =>
      rw [initPCBWith, pcb]
      exact .nothing pcb
  | true =>
  cases uctxt : memory.uctxt with
  | false =>
      rw [initPCBWith, pcb, uctxt]
      refine .failed pcb (fun found => ?_) (by simp) rfl ?_
      · rw [found.uctxt] at uctxt
        cases uctxt
      · rw [uctxt]
        rfl
  | true =>
  cases childrenMap : memory.childrenMap with
  | false =>
      rw [initPCBWith, pcb, uctxt, childrenMap]
      refine .failed pcb (fun found => ?_) (by simp) rfl ?_
      · rw [found.childrenMap] at childrenMap
        cases childrenMap
      · rw [uctxt, childrenMap]
        rfl
  | true =>
  cases r1PageTable : memory.r1PageTable with
  | false =>
      rw [initPCBWith, pcb, uctxt, childrenMap, r1PageTable]
      simp only [Scheduler.updatePcb, Function.update_self, Function.update_idem]
      refine .failed pcb (fun found => ?_) (by simp) rfl ?_
      · rw [found.r1PageTable] at r1PageTable
        cases r1PageTable
      · rw [uctxt, childrenMap]
        rfl
  | true =>
      have found : memory.Found := ⟨pcb, uctxt, childrenMap, r1PageTable⟩
      rw [initPCBWith, pcb, uctxt, childrenMap, r1PageTable]
      simp only [Bool.not_true, Bool.false_eq_true, if_false, if_true, Scheduler.updatePcb,
        Function.update_self, Function.update_idem]
      generalize looped : takeStackSlots newPCB _ _ _ = result
      obtain ⟨taken, wasSet, t⟩ := result
      cases taken with
      | true =>
          refine .made found ?_ looped
          rfl
      | false =>
          refine .starved found ?_ ?_ ?_ looped
          · simp
          · rfl
          · rfl

/-- Without all its memory `initPCB` deletes what it began. -/
theorem initPCBWith_failed {memory : PcbMemory} (junk : PCB) (missing : ¬memory.Found)
    (fresh : newPCB ∉ s.allocated) :
    (initPCBWith memory newPCB junk s).code = errorCode ∧
      Apart newPCB s (initPCBWith memory newPCB junk s).scheduler := by
  have begun (pcb : PCB) : Apart newPCB s (s.start newPCB pcb) :=
    ⟨rfl, rfl, rfl, rfl, rfl, rfl, rfl, rfl, rfl, rfl, rfl, rfl, rfl,
      Int.le_add_one (le_refl s.nextPid), Finset.subset_insert _ _,
      fun _ other => Function.update_of_ne other _ _⟩
  have ends := initPCBWith_ends memory newPCB junk s
  generalize initPCBWith memory newPCB junk s = result at ends ⊢
  cases ends with
  | nothing _ => exact ⟨rfl, .refl _ _⟩
  | failed _ _ _ _ _ => exact ⟨rfl, deleteProcess_apart fresh (begun _) rfl⟩
  | starved found _ _ _ _ => exact absurd found missing
  | made found _ _ => exact absurd found missing

/-- `forkProcess` may find no node, and then the child stays outside of `readyQ`. -/
theorem forkProcessWith_cases {k : Pos} {child : Addr} {flow : Flow Scheduler}
    (done : forkProcessWith memory k child s = .ok flow) :
    flow = .ret s errorCode ∨ flow = forkProcess k child s := by
  rw [forkProcessWith] at done
  cases found : (s.pcbs child).parent with
  | none =>
      rw [found] at done
      exact .inl (Except.ok.inj done).symm
  | some parent =>
      rw [found] at done
      dsimp only at done
      split at done
      · exact .inl (Except.ok.inj done).symm
      split at done
      · exact .inl (Except.ok.inj done).symm
      split at done
      · cases done
      · exact .inr (Except.ok.inj done).symm

/-- A fork gives up before the child has a parent, or it ends in `forkProcess`. -/
theorem kernelForkWith_cases (placed : Placed s) (family : Family s.crowd)
    (fresh : oracle.pcb ∉ s.allocated) {flow : Flow Scheduler}
    (done : kernelForkWith memory oracle s = .ok flow) :
    (∃ t, flow = .ret t errorCode ∧ Apart oracle.pcb s t) ∨
      ∃ w childrenMap, NewChild s w oracle.pcb ∧
        (memory.childNode = true →
          childrenMap.entries.Perm ((s.nextPid, oracle.pcb) :: s.curr.childrenMap.entries)) ∧
        (flow = .ret (adopt w childrenMap) errorCode ∨
          flow = .go (forkTo (.fork s.currPCB oracle.pcb) oracle.pcb
            (({ adopt w childrenMap with
              readyQ := enqQ (adopt w childrenMap).readyQ (adopt w childrenMap).currPCB
              live := insert oracle.pcb (adopt w childrenMap).live } : Scheduler).record
                (.forked s.curr.pid s.nextPid)))) := by
  have notLive : oracle.pcb ∉ s.live := fun live => fresh (placed.allocated live)
  have differs : s.currPCB ≠ oracle.pcb := fun same => notLive (same ▸ placed.live)
  by_cases found : memory.toPcbMemory.Found
  · have result := initPCBWith_eq found oracle.pcb oracle.junk s
    rw [kernelForkWith] at done
    revert done result
    generalize initPCBWith memory.toPcbMemory oracle.pcb oracle.junk s = made
    intro done result
    obtain ⟨code, u, wasSet, wasRead⟩ := made
    obtain ⟨apart, nextPid, _, made⟩ := initPCB_apart fresh result.symm
    dsimp only at done made
    split at done
    · exact .inl ⟨u, (Except.ok.inj done).symm, apart⟩
    rename_i succeeded
    obtain ⟨_, allocated, pid, zombieQ, children, _⟩ := made.resolve_left succeeded
    cases copy : copyPages (u.pcbs s.currPCB).r1PageTable u.frameList
        (u.r0PageTable.getD tempIndex ⟨false, protNone, 0⟩) with
    | mk copied rest =>
    obtain ⟨table, frames, temp⟩ := rest
    rw [copy] at done
    dsimp only at done
    split at done
    · exact .inl ⟨_, (Except.ok.inj done).symm,
        apart.trans (apart_updatePcb oracle.pcb _ u frames _)⟩
    obtain ⟨inserted, outcome, done⟩ := Outcome.bind_eq_ok.mp done
    have new := NewChild.built apart nextPid allocated pid zombieQ children
      (u.pcbs s.currPCB).uctxt (u.pcbs s.currPCB).brk table frames
      ((u.r0PageTable.set tempIndex temp).set tempIndex ⟨false, protNone, 0⟩)
    rw [new.adopt_eq differs] at done
    refine .inr ⟨_, inserted.getD s.curr.childrenMap, new, fun node => ?_, ?_⟩
    · rw [hashMapInsertWith, if_pos node] at outcome
      obtain ⟨childrenMap, rfl, perm⟩ := new.inserts differs placed family outcome
      exact perm
    · rw [← forkProcess_go new differs]
      exact forkProcessWith_cases done
  · obtain ⟨code, apart⟩ := initPCBWith_failed oracle.junk found fresh
    rw [kernelForkWith] at done
    dsimp only at done
    rw [if_pos code] at done
    exact .inl ⟨_, (Except.ok.inj done).symm, apart⟩

end

end Yallnix

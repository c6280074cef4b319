import Yallnix.Proof.ForkMemory
import Yallnix.Construction.SmallMachine

namespace Yallnix

section
variable [Hardware]

variable {memory : PcbMemory} {newPCB : Addr} {junk : PCB} {s t : Scheduler}

/-- A failed `initPCB` keeps the free frames, and `delete_process` reads only fields that
`initPCB` set. -/
def InitResult.FreesOnlyTaken (result : InitResult) (s : Scheduler) : Prop :=
  result.code = errorCode →
    result.scheduler.frameList.frames = s.frameList.frames ∧ result.wasRead ⊆ result.wasSet

/-- The loop of `initPCB` ends early when it runs out of frames. -/
theorem takeStackSlots_taken {slots : List (Fin kernelStackPages)} {wasSet after : List PcbField}
    {taken : Bool} (done : takeStackSlots newPCB slots wasSet s = (taken, after, t)) :
    taken = true ↔ slots.length ≤ s.frameList.available := by
  induction slots generalizing wasSet s with
  | nil =>
      cases done
      simp
  | cons i rest ih =>
      rw [takeStackSlots] at done
      cases found : getFrame s.frameList with
      | mk pfn frames =>
          rw [found] at done
          cases pfn with
          | none =>
              cases done
              simp [available_of_none found]
          | some pfn =>
              rw [ih done, available_of_some found, List.length_cons, Nat.add_le_add_iff_right]
              rfl

/-- Then one slot of the stack stays unset. -/
theorem takeStackSlots_unset {slots : List (Fin kernelStackPages)} {wasSet after : List PcbField}
    (distinct : slots.Nodup) (unset : ∀ i ∈ slots, .stackPfn i ∉ wasSet)
    (done : takeStackSlots newPCB slots wasSet s = (false, after, t)) :
    ∃ i, PcbField.stackPfn i ∉ after := by
  induction slots generalizing wasSet s with
  | nil => cases done
  | cons i rest ih =>
      rw [takeStackSlots] at done
      obtain ⟨first, distinct⟩ := List.nodup_cons.mp distinct
      cases found : getFrame s.frameList with
      | mk pfn frames =>
          rw [found] at done
          cases pfn with
          | none =>
              cases done
              exact ⟨i, unset i List.mem_cons_self⟩
          | some pfn =>
              refine ih distinct (fun j inside => ?_) done
              rw [List.mem_cons, not_or]
              refine ⟨fun same => ?_, unset j (List.mem_cons_of_mem _ inside)⟩
              cases same
              exact first inside

/-- `delete_process` reads every slot of the stack. -/
theorem stackPfn_read (i : Fin kernelStackPages) : .stackPfn i ∈ deleteProcessReads :=
  List.mem_append_right _ (List.mem_map_of_mem (List.mem_finRange i))

/-- Every failure behind the first `malloc` reads a slot of the stack that is not set. -/
theorem initPCBWith_reads (stack : 0 < kernelStackPages) (pcb : memory.pcb = true)
    (short : ¬(memory.Found ∧ kernelStackPages ≤ s.frameList.available)) :
    (initPCBWith memory newPCB junk s).code = errorCode ∧
      ¬(initPCBWith memory newPCB junk s).wasRead ⊆ (initPCBWith memory newPCB junk s).wasSet := by
  have ends := initPCBWith_ends memory newPCB junk s
  generalize initPCBWith memory newPCB junk s = result at ends ⊢
  cases ends with
  | nothing missing =>
      rw [missing] at pcb
      cases pcb
  | failed _ _ unset _ _ =>
      exact ⟨rfl, fun inside => unset ⟨0, stack⟩ (inside (stackPfn_read _))⟩
  | starved _ unset _ _ looped =>
      obtain ⟨i, last⟩ := takeStackSlots_unset (List.nodup_finRange _) (fun i _ => unset i) looped
      exact ⟨rfl, fun inside => last (inside (stackPfn_read i))⟩
  | made found _ looped =>
      refine absurd ⟨found, ?_⟩ short
      have enough := (takeStackSlots_taken looped).mp rfl
      rwa [List.length_finRange] at enough

/-- With all its memory and enough frames `initPCB` does not fail. -/
theorem initPCBWith_succeeds (found : memory.Found)
    (enough : kernelStackPages ≤ s.frameList.available) :
    (initPCBWith memory newPCB junk s).code = successCode := by
  have ends := initPCBWith_ends memory newPCB junk s
  generalize initPCBWith memory newPCB junk s = result at ends ⊢
  cases ends with
  | nothing missing =>
      rw [found.pcb] at missing
      cases missing
  | failed _ missing _ _ _ => exact absurd found missing
  | starved _ _ _ _ looped =>
      have ended := takeStackSlots_taken looped
      rw [List.length_finRange] at ended
      exact absurd (ended.mpr enough) Bool.false_ne_true
  | made _ _ _ => rfl

/-- `initPCB` frees only what it took if it gets no PCB at all or does not fail. -/
theorem initPCBWith_freesOnlyTaken (stack : 0 < kernelStackPages) (memory : PcbMemory)
    (newPCB : Addr) (junk : PCB) (s : Scheduler) :
    (initPCBWith memory newPCB junk s).FreesOnlyTaken s ↔
      memory.pcb = false ∨ memory.Found ∧ kernelStackPages ≤ s.frameList.available := by
  constructor
  · intro holds
    by_contra neither
    rw [not_or, Bool.not_eq_false] at neither
    obtain ⟨failed, unset⟩ := initPCBWith_reads stack neither.1 neither.2
    exact unset (holds failed).2
  · rintro (pcb | ⟨found, enough⟩) failed
    · rw [initPCBWith, pcb]
      exact ⟨rfl, List.Subset.refl _⟩
    · rw [initPCBWith_succeeds found enough] at failed
      cases failed

end

section
attribute [local instance] smallHardware

/-- `initPCB` gets a user context or not, and all other memory. -/
def userContext (found : Bool) : PcbMemory := ⟨true, found, true, true, []⟩

theorem initPCBWith_freesOnlyTaken_small : ∃ s : Kernel, yallnix.Reachable s ∧
    (initPCBWith (userContext true) 2 zeroPCB s.toScheduler).FreesOnlyTaken s.toScheduler := by
  obtain ⟨s, reachable, tested⟩ := exists_reachable
    (fun s => decide (kernelStackPages ≤ s.frameList.available)) [] (by decide +kernel)
  exact ⟨s, reachable, (initPCBWith_freesOnlyTaken (by decide) _ _ _ _).mpr
    (.inr ⟨⟨rfl, rfl, rfl, rfl⟩, of_decide_eq_true tested⟩)⟩

/-- A PCB without a user context gives a frame of the kernel away. -/
theorem freesOnlyTaken_false : ¬∀ (memory : PcbMemory) (newPCB : Addr) (junk : PCB)
    (s : Scheduler), (initPCBWith memory newPCB junk s).FreesOnlyTaken s := by
  intro all
  obtain ⟨s, -, tested⟩ := exists_reachable
    (fun s => (initPCBWith (userContext false) 2 zeroPCB s.toScheduler).code == errorCode &&
      (initPCBWith (userContext false) 2 zeroPCB s.toScheduler).scheduler.frameList.frames !=
        s.frameList.frames) [] (by decide +kernel)
  rw [Bool.and_eq_true, beq_iff_eq, bne_iff_ne] at tested
  exact tested.2 (all (userContext false) 2 zeroPCB s.toScheduler tested.1).1

end

end Yallnix

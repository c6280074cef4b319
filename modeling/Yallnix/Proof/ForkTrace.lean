import Yallnix.Proof.FrameCalls
import Yallnix.Proof.InitFailure

namespace Yallnix

theorem firstFree_of_free {frames : List Frame} (first : FreeFirst frames) {frame : Frame}
    (listed : frame ∈ frames) (free : frame.isFree = true) : FirstFree frame.pfn frames := by
  induction frames with
  | nil => cases listed
  | cons head rest ih =>
      obtain ⟨behind, rest⟩ := List.pairwise_cons.mp first
      rw [FirstFree]
      rcases List.mem_cons.mp listed with rfl | listed
      · rw [if_pos rfl]
        exact free
      · rw [if_neg (behind frame listed free)]
        exact ih rest listed

/-- The loops take frames and change nothing else in the list. -/
theorem takeFrames_taken (count : Nat) (list : FrameList) :
    (takeFrames count list).2.slots.map Frame.taken = list.slots.map Frame.taken := by
  induction count generalizing list with
  | zero => rfl
  | succ count ih =>
      rw [takeFrames]
      cases taken : getFrame list with
      | mk found next =>
          cases found with
          | none => exact congrArg (List.map Frame.taken) (getFrame_none taken).2
          | some pfn =>
              obtain ⟨-, before, frame, after, old, new, -⟩ := getFrame_some taken
              refine (ih next).trans ?_
              simp only [old, new, List.map_append, List.map_cons, Frame.taken]

theorem takeFrames_frames_taken (count : Nat) (list : FrameList) :
    (takeFrames count list).2.frames.map Frame.taken = list.frames.map Frame.taken := by
  have slots := takeFrames_taken count list
  rw [FrameList.slots, FrameList.slots, List.map_append, List.map_append] at slots
  refine (List.append_inj slots ?_).1
  rw [List.length_map, List.length_map]
  exact takeFrames_frames_length count list

/-- Without a free frame in the array only the slot behind it can pass for free. -/
theorem available_le_one {list : FrameList} (used : ∀ frame ∈ list.frames, frame.isFree = false) :
    list.available ≤ 1 := by
  have none : list.frames.countP Frame.isFree = 0 := by
    refine List.countP_eq_zero.mpr fun frame listed => ?_
    rw [used frame listed]
    decide
  rw [FrameList.available, FrameList.slots, List.countP_append, none, Nat.zero_add]
  exact List.countP_le_length

/-- The loop of `KernelFork` takes one frame for each valid page, or all that are left. -/
theorem copyPages_frames (table : PageTable) (list : FrameList) (temp : Pte) :
    (copyPages table list temp).2.2.1 = (takeFrames (table.countP Pte.valid) list).2 ∧
      ((copyPages table list temp).1 = true ↔ table.countP Pte.valid ≤ list.available) := by
  induction table generalizing list temp with
  | nil => simp [copyPages, takeFrames]
  | cons pte rest ih =>
      rw [copyPages]
      cases valid : pte.valid with
      | false => simpa [valid] using ih list temp
      | true =>
          cases taken : getFrame list with
          | mk found next =>
              cases found with
              | none =>
                  have none := available_of_none taken
                  simp [valid, takeFrames, taken, none]
              | some pfn =>
                  have one := available_of_some taken
                  simpa [valid, takeFrames, taken, one] using ih next _

/-- Without a free frame the temporary entry stays. -/
theorem copyPages_temp {table : PageTable} {list : FrameList} {temp : Pte}
    (empty : list.available = 0) : (copyPages table list temp).2.2.2 = temp := by
  induction table with
  | nil => rfl
  | cons pte rest ih =>
      rw [copyPages]
      cases valid : pte.valid with
      | false => simpa using ih
      | true =>
          cases taken : getFrame list with
          | mk found next =>
              cases found with
              | none => simp
              | some pfn =>
                  rw [available_of_some taken] at empty
                  cases empty

theorem set_getD_getElem? {A : Type} (list : List A) (i : Nat) (default : A) :
    (list.set i (list.getD i default))[i]? = list[i]? := by
  rw [List.getElem?_set_self', List.getD_eq_getElem?_getD]
  cases list[i]? <;> simp

/-- The slots behind the taken frames are the unset ones. -/
theorem mem_drop_finRange {count n : Nat} {i : Fin n} :
    i ∈ (List.finRange n).drop count ↔ count ≤ i := by
  rw [List.mem_drop_iff_getElem]
  simp only [List.getElem_finRange, List.length_finRange]
  constructor
  · rintro ⟨j, _, rfl⟩
    exact Nat.le_add_right _ _
  · intro behind
    refine ⟨i - count, ?_, ?_⟩
    · omega
    · ext
      simp only [Fin.val_cast]
      omega

section
variable [Hardware]

variable {newPCB : Addr} {junk : PCB} {s t : Scheduler}

/-- `delete_process` calls `freeFrame` with these numbers. -/
def PCB.freedNumbers (pcb : PCB) : List Nat :=
  (pcb.r1PageTable.filter Pte.valid).map Pte.pfn ++
    (List.finRange kernelStackPages).map pcb.stackPfns

theorem deleteProcess_frames (pcbp : Addr) (junk : PCB) (s : Scheduler) :
    (deleteProcess pcbp junk s).frameList.frames =
      freed (s.pcbs pcbp).freedNumbers s.frameList.frames := by
  have folded : (deleteProcess pcbp junk s).frameList =
      (s.pcbs pcbp).freedNumbers.foldl freeFrame s.frameList := by
    rw [PCB.freedNumbers, List.foldl_append, ← freeValidFrames_eq, List.foldl_map]
    rfl
  rw [folded, foldl_freeFrame]

/-- The loop of `initPCB` puts the taken frames into the first slots of the stack. -/
theorem takeStackFrames_frames {slots : List (Fin kernelStackPages)} {taken : Bool}
    (distinct : slots.Nodup) (done : takeStackFrames newPCB slots s = (taken, t)) :
    t.frameList = (takeFrames slots.length s.frameList).2 ∧
      slots.map (t.pcbs newPCB).stackPfns = (takeFrames slots.length s.frameList).1 ++
        (slots.drop (takeFrames slots.length s.frameList).1.length).map
          (s.pcbs newPCB).stackPfns ∧
      ∀ i ∉ slots, (t.pcbs newPCB).stackPfns i = (s.pcbs newPCB).stackPfns i := by
  induction slots generalizing s with
  | nil =>
      cases done
      simp [takeFrames]
  | cons i rest ih =>
      rw [takeStackFrames] at done
      rw [List.length_cons, takeFrames]
      obtain ⟨first, distinct⟩ := List.nodup_cons.mp distinct
      cases found : getFrame s.frameList with
      | mk pfn frames =>
          rw [found] at done
          cases pfn with
          | none =>
              cases done
              simp
          | some pfn =>
              obtain ⟨list, stack, others⟩ := ih distinct done
              have old (j : Fin kernelStackPages) (other : j ≠ i) :
                  ((({ s with frameList := frames } : Scheduler).updatePcb newPCB fun pcb =>
                    { pcb with stackPfns := Function.update pcb.stackPfns i pfn }).pcbs
                      newPCB).stackPfns j = (s.pcbs newPCB).stackPfns j := by
                simp [Scheduler.updatePcb, other]
              refine ⟨list, ?_, ?_⟩
              · have own : (t.pcbs newPCB).stackPfns i = pfn := by
                  rw [others i first]
                  simp [Scheduler.updatePcb]
                rw [List.map_cons, own, stack]
                refine congrArg (fun tail => pfn :: (_ ++ tail)) ?_
                refine List.map_congr_left fun j inside => old j fun same => ?_
                exact first (same ▸ List.mem_of_mem_drop inside)
              · intro j outside
                rw [List.mem_cons, not_or] at outside
                rw [others j outside.2, old j outside.1]

/-- After a failed fork the free frames, the family and the page table of the parent, `readyQ` and
the temporary entry are as before. -/
structure NoTrace (s t : Scheduler) : Prop where
  frames : t.frameList.frames = s.frameList.frames
  childrenMap : (t.pcbs s.currPCB).childrenMap = s.curr.childrenMap
  numChildren : (t.pcbs s.currPCB).numChildren = s.curr.numChildren
  r1PageTable : (t.pcbs s.currPCB).r1PageTable = s.curr.r1PageTable
  readyQ : t.readyQ = s.readyQ
  temp : t.r0PageTable[tempIndex]? = s.r0PageTable[tempIndex]?

/-- If `KernelFork` returns ERROR to the parent, it leaves no trace. -/
def FailsCleanly (memory : ForkMemory) (oracle : Oracle) (s : Scheduler) : Prop :=
  ∀ t, kernelForkWith memory oracle s = .ok (.ret t errorCode) → NoTrace s t

/-- `delete_process` frees these numbers when a part of the new PCB is missing. -/
def PcbMemory.begunNumbers (memory : PcbMemory) (pcb : PCB) : List Nat :=
  { pcb with
    r1PageTable := if memory.uctxt && memory.childrenMap then memory.nullTable
      else pcb.r1PageTable }.freedNumbers

/-- No slot of the new stack that stays unset holds the number of a used frame, and the memory
behind the array does not pass for a free frame with such a number. -/
structure StackUndone (pcb : PCB) (list : FrameList) : Prop where
  first : FreeFirst list.frames
  unset : ∀ i : Fin kernelStackPages, list.available ≤ i → FirstFree (pcb.stackPfns i) list.frames
  past : list.past.isFree = true → FirstFree list.past.pfn list.frames

theorem stackUndone_iff {pcb : PCB} {list : FrameList} :
    ((∀ pfn ∈ (list.slots.filter Frame.isFree).map Frame.pfn ++
        ((List.finRange kernelStackPages).drop list.available).map pcb.stackPfns,
          FirstFree pfn list.frames) ∧
      FreeFirst list.frames ∧ ∀ frame ∈ list.frames, frame.isFree = true →
        frame.pfn ∈ (list.slots.filter Frame.isFree).map Frame.pfn ++
          ((List.finRange kernelStackPages).drop list.available).map pcb.stackPfns) ↔
      StackUndone pcb list := by
  have taken {frame : Frame} (slot : frame ∈ list.slots) (free : frame.isFree = true) :
      frame.pfn ∈ (list.slots.filter Frame.isFree).map Frame.pfn :=
    List.mem_map_of_mem (List.mem_filter.mpr ⟨slot, free⟩)
  constructor
  · rintro ⟨all, first, _⟩
    refine ⟨first, fun i behind => ?_, fun free => ?_⟩
    · refine all _ (List.mem_append_right _ (List.mem_map_of_mem ?_))
      exact mem_drop_finRange.mpr behind
    · refine all _ (List.mem_append_left _ (taken ?_ free))
      exact List.mem_append_right _ (List.mem_singleton_self _)
  · rintro ⟨first, unset, past⟩
    refine ⟨?_, first, ?_⟩
    · intro pfn listed
      rcases List.mem_append.mp listed with number | behind
      · obtain ⟨frame, inside, rfl⟩ := List.mem_map.mp number
        obtain ⟨slot, free⟩ := List.mem_filter.mp inside
        rcases List.mem_append.mp slot with inArray | last
        · exact firstFree_of_free first inArray free
        · rw [List.mem_singleton.mp last] at free ⊢
          exact past free
      · obtain ⟨i, inside, rfl⟩ := List.mem_map.mp behind
        exact unset i (mem_drop_finRange.mp inside)
    · intro frame listed free
      exact List.mem_append_left _ (taken (List.mem_append_left _ listed) free)

/-- Each way to fail has its own condition for a fork that leaves no trace. -/
structure CleanFork (memory : ForkMemory) (oracle : Oracle) (s : Scheduler) : Prop where
  part : memory.pcb = true → ¬memory.Found →
    ∀ pfn ∈ memory.begunNumbers (s.pcbs oracle.pcb), FirstFree pfn s.frameList.frames
  stack : memory.Found → s.frameList.available < kernelStackPages →
    StackUndone (s.pcbs oracle.pcb) s.frameList
  pages : memory.Found → kernelStackPages ≤ s.frameList.available →
    s.frameList.available < kernelStackPages + s.curr.r1PageTable.countP Pte.valid →
      ∀ frame ∈ s.frameList.frames, frame.isFree = false
  node : memory.Found →
    kernelStackPages + s.curr.r1PageTable.countP Pte.valid ≤ s.frameList.available →
      memory.readyNode = true ∨ ∃ stop, hashMapInsertWith memory.childNode s.curr.childrenMap
        s.nextPid oracle.pcb = .error stop

/-- Only the frames can differ when the new PCB is gone again. -/
theorem deleteProcess_noTrace (differs : newPCB ≠ s.currPCB) (readyQ : t.readyQ = s.readyQ)
    (r0PageTable : t.r0PageTable = s.r0PageTable)
    (pcbs : ∀ a, a ≠ newPCB → t.pcbs a = s.pcbs a) :
    NoTrace s (deleteProcess newPCB junk t) ↔
      freed (t.pcbs newPCB).freedNumbers t.frameList.frames = s.frameList.frames := by
  have frames := deleteProcess_frames newPCB junk t
  have curr : (deleteProcess newPCB junk t).pcbs s.currPCB = s.curr :=
    (Function.update_of_ne (Ne.symm differs) _ _).trans (pcbs _ (Ne.symm differs))
  constructor
  · intro clean
    rw [← frames]
    exact clean.frames
  · intro same
    refine ⟨frames.trans same, ?_, ?_, ?_, readyQ, ?_⟩
    · rw [curr]
    · rw [curr]
    · rw [curr]
    · change t.r0PageTable[tempIndex]? = _
      rw [r0PageTable]

/-- A fork with an incomplete PCB returns what `initPCB` leaves. -/
theorem failsCleanly_of_error {memory : ForkMemory} {oracle : Oracle} {result : InitResult}
    (made : initPCBWith memory.toPcbMemory oracle.pcb oracle.junk s = result)
    (failed : result.code = errorCode) :
    FailsCleanly memory oracle s ↔ NoTrace s result.scheduler := by
  have outcome : kernelForkWith memory oracle s = .ok (.ret result.scheduler errorCode) := by
    rw [kernelForkWith]
    dsimp only
    rw [made, if_pos failed]
    rfl
  constructor
  · intro clean
    exact clean _ outcome
  · intro same t done
    rw [outcome] at done
    cases done
    exact same

/-- A failed `malloc` leaves no trace if `delete_process` finds no number of a used frame. -/
theorem failsCleanly_part {memory : ForkMemory} {oracle : Oracle}
    (differs : oracle.pcb ≠ s.currPCB) (missing : ¬memory.Found) :
    FailsCleanly memory oracle s ↔ (memory.pcb = true →
      ∀ pfn ∈ memory.begunNumbers (s.pcbs oracle.pcb), FirstFree pfn s.frameList.frames) := by
  have ends := initPCBWith_ends memory.toPcbMemory oracle.pcb oracle.junk s
  generalize made : initPCBWith memory.toPcbMemory oracle.pcb oracle.junk s = result at ends
  cases ends with
  | nothing absent =>
      rw [failsCleanly_of_error made rfl, absent]
      constructor
      · intro _ got
        cases got
      · intro _
        exact ⟨rfl, rfl, rfl, rfl, rfl, rfl⟩
  | @failed wasSet pcb got _ _ stackPfns table =>
      have numbers : ((s.start oracle.pcb pcb).pcbs oracle.pcb).freedNumbers =
          memory.begunNumbers (s.pcbs oracle.pcb) := by
        simp only [Scheduler.start, Scheduler.updatePcb, Function.update_self,
          PCB.freedNumbers, PcbMemory.begunNumbers, stackPfns, table]
      refine (failsCleanly_of_error made rfl).trans ?_
      refine (deleteProcess_noTrace (t := s.start oracle.pcb pcb) differs rfl rfl fun a other =>
        Function.update_of_ne other _ _).trans ?_
      rw [numbers, forall_prop_of_true got]
      exact freed_eq_self
  | starved found _ _ _ _ => exact absurd found missing
  | made found _ _ => exact absurd found missing

/-- The stack loop of `initPCB` works on the PCB that was begun. -/
theorem takeStackSlots_frames {wasSet after : List PcbField} {pcb : PCB} {taken : Bool}
    (looped : takeStackSlots newPCB (List.finRange kernelStackPages) wasSet (s.start newPCB pcb) =
      (taken, after, t)) :
    Apart newPCB (s.start newPCB pcb) t ∧ t.r0PageTable = s.r0PageTable ∧
      t.frameList = (takeFrames kernelStackPages s.frameList).2 ∧
      (t.pcbs newPCB).r1PageTable = pcb.r1PageTable ∧
      (List.finRange kernelStackPages).map (t.pcbs newPCB).stackPfns =
        (takeFrames kernelStackPages s.frameList).1 ++
          ((List.finRange kernelStackPages).drop
            (takeFrames kernelStackPages s.frameList).1.length).map pcb.stackPfns ∧
      (t.pcbs newPCB).pid = pcb.pid := by
  have started : (s.start newPCB pcb).pcbs newPCB = pcb := Function.update_self _ _ _
  have done := takeStackSlots_eq looped
  obtain ⟨apart, -, -, r0PageTable, stackPfns, same⟩ := takeStackFrames_apart done
  obtain ⟨list, stack, -⟩ := takeStackFrames_frames (List.nodup_finRange _) done
  rw [List.length_finRange] at list stack
  rw [started] at same stack
  refine ⟨apart, r0PageTable, list, ?_, stack, ?_⟩
  · rw [same]
  · rw [same]

/-- Without enough frames for the stack the deletion gives back exactly what was free. -/
theorem failsCleanly_stack {memory : ForkMemory} {oracle : Oracle}
    (differs : oracle.pcb ≠ s.currPCB) (found : memory.Found)
    (short : s.frameList.available < kernelStackPages) :
    FailsCleanly memory oracle s ↔ StackUndone (s.pcbs oracle.pcb) s.frameList := by
  have ends := initPCBWith_ends memory.toPcbMemory oracle.pcb oracle.junk s
  generalize made : initPCBWith memory.toPcbMemory oracle.pcb oracle.junk s = result at ends
  cases ends with
  | nothing absent =>
      rw [found.pcb] at absent
      cases absent
  | failed _ missing _ _ _ => exact absurd found missing
  | @starved wasSet after pcb t _ _ stackPfns table looped =>
      obtain ⟨apart, r0PageTable, list, sameTable, stack, -⟩ := takeStackSlots_frames looped
      obtain ⟨numbers, -⟩ := takeFrames_all (Nat.le_of_lt short)
      have length := takeFrames_length kernelStackPages s.frameList
      rw [Nat.min_eq_right (Nat.le_of_lt short)] at length
      have frames : t.frameList.frames = s.frameList.frames.map Frame.taken := by
        rw [list]
        exact takeFrames_frames (Nat.le_of_lt short)
      have freedNumbers : (t.pcbs oracle.pcb).freedNumbers =
          (s.frameList.slots.filter Frame.isFree).map Frame.pfn ++
            ((List.finRange kernelStackPages).drop s.frameList.available).map
              (s.pcbs oracle.pcb).stackPfns := by
        rw [PCB.freedNumbers, sameTable, table, stack, stackPfns, length, numbers]
        simp [initializeRegionPageTable]
      refine (failsCleanly_of_error made rfl).trans ?_
      refine (deleteProcess_noTrace (t := t) differs apart.readyQ r0PageTable fun a other =>
        (apart.pcbs a other).trans (Function.update_of_ne other _ _)).trans ?_
      rw [frames, freed_taken, freedNumbers]
      exact stackUndone_iff
  | made _ _ looped =>
      have enough := (takeStackSlots_taken looped).mp rfl
      rw [List.length_finRange] at enough
      exact absurd short (Nat.not_lt.mpr enough)

/-- With all its memory and enough frames `initPCB` takes the frames for the stack. -/
structure MadePCB (s t : Scheduler) (newPCB : Addr) : Prop where
  currPCB : t.currPCB = s.currPCB
  readyQ : t.readyQ = s.readyQ
  r0PageTable : t.r0PageTable = s.r0PageTable
  frameList : t.frameList = (takeFrames kernelStackPages s.frameList).2
  pid : (t.pcbs newPCB).pid = s.nextPid
  others : ∀ a, a ≠ newPCB → t.pcbs a = s.pcbs a

theorem initPCBWith_made {memory : PcbMemory} (found : memory.Found)
    (enough : kernelStackPages ≤ s.frameList.available) (newPCB : Addr) (junk : PCB) :
    ∃ t after, initPCBWith memory newPCB junk s = ⟨successCode, t, after, []⟩ ∧
      MadePCB s t newPCB := by
  have ends := initPCBWith_ends memory newPCB junk s
  generalize initPCBWith memory newPCB junk s = result at ends ⊢
  cases ends with
  | nothing absent =>
      rw [found.pcb] at absent
      cases absent
  | failed _ missing _ _ _ => exact absurd found missing
  | starved _ _ _ _ looped =>
      have ended := takeStackSlots_taken looped
      rw [List.length_finRange] at ended
      exact absurd (ended.mpr enough) Bool.false_ne_true
  | @made wasSet after pcb t _ pid looped =>
      obtain ⟨apart, r0PageTable, list, -, -, samePid⟩ := takeStackSlots_frames looped
      exact ⟨t, after, rfl, apart.currPCB, apart.readyQ, r0PageTable, list, samePid.trans pid,
        fun a other => (apart.pcbs a other).trans (Function.update_of_ne other _ _)⟩

section
variable {memory : ForkMemory} {oracle : Oracle} {wasSet wasRead : List PcbField} {copied : Bool}
  {table : PageTable} {frames : FrameList} {temp : Pte}

/-- A copy without enough frames leaves the child half built. -/
theorem kernelForkWith_short
    (made : initPCBWith memory.toPcbMemory oracle.pcb oracle.junk s =
      ⟨successCode, t, wasSet, wasRead⟩)
    (pcb : MadePCB s t oracle.pcb) (differs : oracle.pcb ≠ s.currPCB)
    (copy : copyPages s.curr.r1PageTable t.frameList
      (s.r0PageTable.getD tempIndex ⟨false, protNone, 0⟩) = (false, table, frames, temp)) :
    kernelForkWith memory oracle s = .ok (.ret { t.updatePcb oracle.pcb fun pcb =>
      { pcb with uctxt := s.curr.uctxt, brk := s.curr.brk, r1PageTable := table } with
        frameList := frames
        r0PageTable := s.r0PageTable.set tempIndex temp } errorCode) := by
  have curr : t.pcbs s.currPCB = s.curr := pcb.others _ (Ne.symm differs)
  rw [kernelForkWith]
  dsimp only
  rw [made]
  dsimp only
  rw [if_neg (by decide), curr, pcb.r0PageTable, copy]
  rfl

/-- After the copy the child gets its parent. -/
def copiedChild (s t : Scheduler) (child : Addr) (table : PageTable) (frames : FrameList)
    (temp : Pte) : Scheduler :=
  { t.updatePcb child fun pcb =>
    { pcb with uctxt := s.curr.uctxt, brk := s.curr.brk, r1PageTable := table } with
      frameList := frames
      r0PageTable := (s.r0PageTable.set tempIndex temp).set tempIndex
        ⟨false, protNone, 0⟩ }.updatePcb child fun pcb => { pcb with parent := some s.currPCB }

/-- The parent counts the child. -/
def countedChild (s w : Scheduler) (inserted : Option (HashMap Addr)) : Scheduler :=
  w.updatePcb s.currPCB fun pcb =>
    { pcb with
      childrenMap := inserted.getD pcb.childrenMap
      numChildren := pcb.numChildren + 1 }

theorem kernelForkWith_copied
    (made : initPCBWith memory.toPcbMemory oracle.pcb oracle.junk s =
      ⟨successCode, t, wasSet, wasRead⟩)
    (pcb : MadePCB s t oracle.pcb) (differs : oracle.pcb ≠ s.currPCB)
    (copy : copyPages s.curr.r1PageTable t.frameList
      (s.r0PageTable.getD tempIndex ⟨false, protNone, 0⟩) = (true, table, frames, temp)) :
    kernelForkWith memory oracle s =
      hashMapInsertWith memory.childNode s.curr.childrenMap s.nextPid oracle.pcb >>=
        fun inserted => forkProcessWith memory (.fork s.currPCB oracle.pcb) oracle.pcb
          (countedChild s (copiedChild s t oracle.pcb table frames temp) inserted) := by
  have other : s.currPCB ≠ oracle.pcb := Ne.symm differs
  have curr : t.pcbs s.currPCB = s.curr := pcb.others _ other
  have parentMap : ((copiedChild s t oracle.pcb table frames temp).pcbs s.currPCB).childrenMap =
      s.curr.childrenMap := by
    simp only [copiedChild, Scheduler.updatePcb, Function.update_of_ne other, curr]
  have childPid : ((copiedChild s t oracle.pcb table frames temp).pcbs oracle.pcb).pid =
      s.nextPid := by
    simp only [copiedChild, Scheduler.updatePcb, Function.update_self, pcb.pid]
  rw [kernelForkWith, ← parentMap, ← childPid]
  dsimp only
  rw [made]
  dsimp only
  rw [if_neg (by decide), curr, pcb.r0PageTable, copy]
  rfl

/-- The parent of the child is the running process. -/
theorem countedChild_forks (pcb : MadePCB s t oracle.pcb) (differs : oracle.pcb ≠ s.currPCB)
    (table : PageTable) (frames : FrameList) (temp : Pte) (inserted : Option (HashMap Addr)) :
    ((countedChild s (copiedChild s t oracle.pcb table frames temp) inserted).pcbs
        oracle.pcb).parent = some s.currPCB ∧
      (countedChild s (copiedChild s t oracle.pcb table frames temp) inserted).currPCB =
        s.currPCB ∧
      ((countedChild s (copiedChild s t oracle.pcb table frames temp) inserted).pcbs
        s.currPCB).numChildren = s.curr.numChildren + 1 := by
  have other : s.currPCB ≠ oracle.pcb := Ne.symm differs
  have curr : t.pcbs s.currPCB = s.curr := pcb.others _ other
  refine ⟨?_, pcb.currPCB, ?_⟩
  · simp only [countedChild, copiedChild, Scheduler.updatePcb, Function.update_of_ne differs,
      Function.update_self]
  · simp only [countedChild, copiedChild, Scheduler.updatePcb, Function.update_of_ne other,
      Function.update_self, curr]

end

/-- A child of the running process fails only without a node of `readyQ`. -/
theorem forkProcessWith_error {memory : ForkMemory} {k : Pos} {child : Addr} {w u : Scheduler}
    (parent : (w.pcbs child).parent = some w.currPCB) :
    forkProcessWith memory k child w = .ok (.ret u errorCode) ↔
      memory.readyNode = false ∧ u = w := by
  rw [forkProcessWith, parent]
  dsimp only
  rw [if_neg (by simp [Scheduler.curr])]
  cases memory.readyNode with
  | false =>
      simp only [Bool.not_false, if_true]
      constructor
      · intro done
        cases done
        exact ⟨trivial, rfl⟩
      · rintro ⟨-, rfl⟩
        rfl
  | true =>
      simp only [Bool.not_true, Bool.false_eq_true, if_false, Bool.true_eq_false, false_and,
        iff_false]
      cases memory.kctxt with
      | false =>
          intro done
          cases done
      | true =>
          rw [forkProcess, parent]
          intro done
          simp [Scheduler.curr] at done

/-- The frames for the stack stay in use when a page of the parent finds no frame. -/
theorem failsCleanly_pages {memory : ForkMemory} {oracle : Oracle} (stack : 0 < kernelStackPages)
    (differs : oracle.pcb ≠ s.currPCB) (found : memory.Found)
    (enough : kernelStackPages ≤ s.frameList.available)
    (short : s.frameList.available < kernelStackPages + s.curr.r1PageTable.countP Pte.valid) :
    FailsCleanly memory oracle s ↔ ∀ frame ∈ s.frameList.frames, frame.isFree = false := by
  obtain ⟨t, after, begun, made⟩ := initPCBWith_made found enough oracle.pcb oracle.junk
  have curr : t.pcbs s.currPCB = s.curr := made.others _ (Ne.symm differs)
  have left : t.frameList.available = s.frameList.available - kernelStackPages := by
    rw [made.frameList]
    exact takeFrames_available _ _
  have fewer : t.frameList.available < s.curr.r1PageTable.countP Pte.valid := by omega
  obtain ⟨taken, copied⟩ := copyPages_frames s.curr.r1PageTable t.frameList
    (s.r0PageTable.getD tempIndex ⟨false, protNone, 0⟩)
  have unchanged : t.frameList.available = 0 → (copyPages s.curr.r1PageTable t.frameList
      (s.r0PageTable.getD tempIndex ⟨false, protNone, 0⟩)).2.2.2 =
        s.r0PageTable.getD tempIndex ⟨false, protNone, 0⟩ := copyPages_temp
  generalize copy : copyPages s.curr.r1PageTable t.frameList
    (s.r0PageTable.getD tempIndex ⟨false, protNone, 0⟩) = result at taken copied unchanged
  obtain ⟨success, table, frames, temp⟩ := result
  dsimp only at taken copied unchanged
  cases success with
  | true => exact absurd fewer (Nat.not_lt.mpr (copied.mp rfl))
  | false =>
  have outcome := kernelForkWith_short begun made differs copy
  have allTaken : frames.frames = s.frameList.frames.map Frame.taken := by
    rw [taken, takeFrames_frames (Nat.le_of_lt fewer), made.frameList]
    exact takeFrames_frames_taken _ _
  constructor
  · intro clean frame listed
    have same := (clean _ outcome).frames
    change frames.frames = _ at same
    rw [allTaken] at same
    rw [← same] at listed
    obtain ⟨before, _, rfl⟩ := List.mem_map.mp listed
    rfl
  · intro used u done
    rw [outcome] at done
    cases done
    have parent (pcb : PCB) : Function.update t.pcbs oracle.pcb pcb s.currPCB = s.curr :=
      (Function.update_of_ne (Ne.symm differs) _ _).trans curr
    have empty : t.frameList.available = 0 := by
      have one := available_le_one used
      omega
    refine ⟨allTaken.trans (map_taken_of_used used), congrArg PCB.childrenMap (parent _),
      congrArg PCB.numChildren (parent _), congrArg PCB.r1PageTable (parent _), made.readyQ, ?_⟩
    rw [unchanged empty]
    exact set_getD_getElem? _ _ _

/-- A node of `readyQ` is missing only after the parent counted the child. -/
theorem failsCleanly_node {memory : ForkMemory} {oracle : Oracle}
    (differs : oracle.pcb ≠ s.currPCB) (found : memory.Found)
    (enough : kernelStackPages + s.curr.r1PageTable.countP Pte.valid ≤ s.frameList.available) :
    FailsCleanly memory oracle s ↔ (memory.readyNode = true ∨
      ∃ stop, hashMapInsertWith memory.childNode s.curr.childrenMap s.nextPid oracle.pcb =
        .error stop) := by
  have room : kernelStackPages ≤ s.frameList.available := by omega
  obtain ⟨t, after, begun, made⟩ := initPCBWith_made found room oracle.pcb oracle.junk
  have curr : t.pcbs s.currPCB = s.curr := made.others _ (Ne.symm differs)
  have left : t.frameList.available = s.frameList.available - kernelStackPages := by
    rw [made.frameList]
    exact takeFrames_available _ _
  have copied := (copyPages_frames s.curr.r1PageTable t.frameList
    (s.r0PageTable.getD tempIndex ⟨false, protNone, 0⟩)).2
  generalize copy : copyPages s.curr.r1PageTable t.frameList
    (s.r0PageTable.getD tempIndex ⟨false, protNone, 0⟩) = result at copied
  obtain ⟨success, table, frames, temp⟩ := result
  have success : success = true := copied.mpr (by omega)
  subst success
  have outcome := kernelForkWith_copied begun made differs copy
  constructor
  · intro clean
    cases node : memory.readyNode with
    | true => exact .inl rfl
    | false =>
    cases insertion : hashMapInsertWith memory.childNode s.curr.childrenMap s.nextPid
        oracle.pcb with
    | error stop => exact .inr ⟨stop, rfl⟩
    | ok inserted =>
        obtain ⟨parent, running, counted⟩ := countedChild_forks made differs table frames temp
          inserted
        rw [← running] at parent
        have failed := (forkProcessWith_error (k := .fork s.currPCB oracle.pcb) parent).mpr
          ⟨node, rfl⟩
        rw [insertion] at outcome
        have same := (clean _ (outcome.trans failed)).numChildren
        rw [counted] at same
        omega
  · rintro node u done
    rw [outcome] at done
    obtain ⟨inserted, insertion, done⟩ := Outcome.bind_eq_ok.mp done
    obtain ⟨parent, running, -⟩ := countedChild_forks made differs table frames temp
      inserted
    rw [← running] at parent
    obtain ⟨missing, -⟩ := (forkProcessWith_error parent).mp done
    rcases node with node | ⟨stop, fails⟩
    · rw [node] at missing
      cases missing
    · rw [fails] at insertion
      cases insertion

/-- A failed fork leaves no trace only under the condition for its way to fail. -/
theorem kernelForkWith_failsCleanly (stack : 0 < kernelStackPages) (memory : ForkMemory)
    {oracle : Oracle} (differs : oracle.pcb ≠ s.currPCB) :
    FailsCleanly memory oracle s ↔ CleanFork memory oracle s := by
  constructor
  · intro clean
    refine ⟨?_, ?_, ?_, ?_⟩
    · intro got missing
      exact (failsCleanly_part differs missing).mp clean got
    · intro found short
      exact (failsCleanly_stack differs found short).mp clean
    · intro found enough short
      exact (failsCleanly_pages stack differs found enough short).mp clean
    · intro found enough
      exact (failsCleanly_node differs found enough).mp clean
  · intro clean
    by_cases found : memory.Found
    · by_cases short : s.frameList.available < kernelStackPages
      · exact (failsCleanly_stack differs found short).mpr (clean.stack found short)
      have enough := Nat.le_of_not_lt short
      by_cases pages : s.frameList.available <
          kernelStackPages + s.curr.r1PageTable.countP Pte.valid
      · exact (failsCleanly_pages stack differs found enough pages).mpr
          (clean.pages found enough pages)
      · exact (failsCleanly_node differs found (Nat.le_of_not_lt pages)).mpr
          (clean.node found (Nat.le_of_not_lt pages))
    · exact (failsCleanly_part differs found).mpr fun got => clean.part got found

end

section
attribute [local instance] smallHardware

/-- A fork without memory for the PCB leaves no trace. -/
theorem kernelForkWith_failsCleanly_small : ∃ s : Kernel, yallnix.Reachable s ∧
    FailsCleanly { plenty with pcb := false } (answer 2) s.toScheduler := by
  obtain ⟨s, reachable, tested⟩ := exists_reachable (fun s => decide (2 ≠ s.currPCB)) []
    (by decide +kernel)
  refine ⟨s, reachable, (kernelForkWith_failsCleanly (by decide) _
    (of_decide_eq_true tested)).mpr ⟨?_, ?_, ?_, ?_⟩⟩
  · intro got
    cases got
  · intro found
    cases found.pcb
  · intro found
    cases found.pcb
  · intro found
    cases found.pcb

/-- A call failed and left the temporary entry valid. -/
def mapsTemp : Outcome (Flow Scheduler) → Bool
  | .ok (.ret t code) => code == errorCode && t.r0PageTable[tempIndex]?.map Pte.valid == some true
  | _ => false

theorem mapsTemp_eq_true {outcome : Outcome (Flow Scheduler)} (mapped : mapsTemp outcome = true) :
    ∃ t, outcome = .ok (.ret t errorCode) ∧
      t.r0PageTable[tempIndex]?.map Pte.valid = some true := by
  unfold mapsTemp at mapped
  split at mapped
  · rename_i t code
    rw [Bool.and_eq_true, beq_iff_eq, beq_iff_eq] at mapped
    obtain ⟨rfl, valid⟩ := mapped
    exact ⟨t, rfl, valid⟩
  · cases mapped

/-- The third fork finds one frame for the stack and one for a page, and it keeps both. -/
theorem failsCleanly_false : ¬∀ (s : Kernel) (memory : ForkMemory) (oracle : Oracle),
    scarceYallnix.Reachable s → enabled s (.kernelCall .fork oracle) = true →
      FailsCleanly memory oracle s.toScheduler := by
  intro all
  obtain ⟨s, reachable, tested⟩ := exists_reachable
    (fun s => enabled s (forks 7) && mapsTemp (kernelForkWith plenty (answer 7) s.toScheduler) &&
      s.r0PageTable[tempIndex]?.map Pte.valid == some false)
    [asks (.brk 176), forks 2, goesOn, forks 3, goesOn] (by decide +kernel)
  rw [Bool.and_eq_true, Bool.and_eq_true, beq_iff_eq] at tested
  obtain ⟨⟨ready, mapped⟩, before⟩ := tested
  obtain ⟨t, failed, valid⟩ := mapsTemp_eq_true mapped
  have clean := all s plenty (answer 7) (reachable.scarce fun _ _ => trivial) ready t failed
  rw [clean.temp, before] at valid
  cases valid

end

end Yallnix

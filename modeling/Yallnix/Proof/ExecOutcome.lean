import Yallnix.Proof.ExitFrames
import Yallnix.Proof.PageWrites

namespace Yallnix

section
variable [Hardware]

/-- With the old image free, `getFrame` can hand out this many frames. -/
def Scheduler.loadable (s : Scheduler) : Nat := (freedFrames s.curr s.frameList).available

/-- The loops map these pages, one after the other. -/
def loadPages (li : LoadInfo) (request : ExecRequest) (s : Scheduler) : List Int :=
  pagesFrom (loadText li) (min li.tNpg s.loadable) ++
    pagesFrom (loadData li) (min (li.idNpg + li.udNpg) (s.loadable - li.tNpg)) ++
    pagesFrom (maxPtLen - loadStackPages request.argLengths)
      (min (loadStackPages request.argLengths).toNat
        (s.loadable - li.tNpg - (li.idNpg + li.udNpg)))

/-- The loops take these frames, one after the other. -/
def takenFrames (li : LoadInfo) (request : ExecRequest) (s : Scheduler) : List Nat :=
  (textFrames li s.curr s.frameList).1 ++ (dataFrames li s.curr s.frameList).1 ++
    (stackFrames li request s.curr s.frameList).1

/-- A frame has one entry that `getFrame` can take, and the kernel stack has no free frame. -/
structure Scheduler.OwnsFrames (s : Scheduler) : Prop where
  distinct : s.frameList.numbers.Nodup
  past : s.frameList.past.isFree = true → s.frameList.past.pfn ∉ s.frameList.numbers
  stack : ∀ i, s.curr.stackPfns i ∉ (freedFrames s.curr s.frameList).freeNumbers

/-- Each loop gets the frames that it needs or all that are left. -/
theorem imageFrames_length (li : LoadInfo) (request : ExecRequest) (s : Scheduler) :
    (textFrames li s.curr s.frameList).1.length = min li.tNpg s.loadable ∧
      (dataFrames li s.curr s.frameList).1.length =
        min (li.idNpg + li.udNpg) (s.loadable - li.tNpg) ∧
      (stackFrames li request s.curr s.frameList).1.length =
        min (loadStackPages request.argLengths).toNat
          (s.loadable - li.tNpg - (li.idNpg + li.udNpg)) := by
  refine ⟨takeFrames_length _ _, ?_, ?_⟩
  · rw [dataFrames, takeFrames_length, textFrames, takeFrames_available]
    rfl
  · rw [stackFrames, takeFrames_length, dataFrames, takeFrames_available, textFrames,
      takeFrames_available]
    rfl

theorem loadPages_eq (li : LoadInfo) (request : ExecRequest) (s : Scheduler) :
    loadPages li request s =
      pagesFrom (loadText li) (textFrames li s.curr s.frameList).1.length ++
        pagesFrom (loadData li) (dataFrames li s.curr s.frameList).1.length ++
        pagesFrom (maxPtLen - loadStackPages request.argLengths)
          (stackFrames li request s.curr s.frameList).1.length := by
  obtain ⟨text, data, stack⟩ := imageFrames_length li request s
  rw [text, data, stack, loadPages]

/-- The image that the loops map holds the taken frames on the pages of the loops. -/
theorem MapsImage.writes {li : LoadInfo} {request : ExecRequest} {s : Scheduler}
    {table next : PageTable} (image : MapsImage (loadText li) (loadData li)
      (maxPtLen - loadStackPages request.argLengths) (textFrames li s.curr s.frameList).1
      (dataFrames li s.curr s.frameList).1 (stackFrames li request s.curr s.frameList).1
      table next) :
    Writes (loadPages li request s) (takenFrames li request s) table next ∧
      ∀ page ∈ loadPages li request s, 0 ≤ page ∧ page < table.length := by
  obtain ⟨first, second, text, data, stack⟩ := image
  have textInside := text.inside
  have dataInside := data.inside
  have stackInside := stack.inside
  rw [text.length] at dataInside
  rw [data.length, text.length] at stackInside
  rw [loadPages_eq]
  constructor
  · refine Writes.append (fun page listed => ?_) (Writes.append (fun page listed => ?_)
      text.writes data.writes) stack.writes
    · rcases List.mem_append.mp listed with listed | listed
      · exact (textInside page listed).1
      · exact (dataInside page listed).1
    · exact (textInside page listed).1
  · intro page listed
    rcases List.mem_append.mp listed with listed | listed
    · rcases List.mem_append.mp listed with listed | listed
      · exact textInside page listed
      · exact dataInside page listed
    · exact stackInside page listed

/-- With one entry for each frame `getFrame` hands out each number once. -/
theorem Scheduler.OwnsFrames.handedOut {s : Scheduler} (owns : s.OwnsFrames) :
    (freedFrames s.curr s.frameList).handedOut.Nodup := by
  have numbers : (freedFrames s.curr s.frameList).numbers = s.frameList.numbers := by
    rw [freedFrames, freeValidFrames_eq, foldl_freeFrame_numbers]
  have past : (freedFrames s.curr s.frameList).past = s.frameList.past := by
    rw [freedFrames, freeValidFrames_eq, foldl_freeFrame_past]
  have known := FrameList.freeNumbers_sublist (freedFrames s.curr s.frameList)
  rw [numbers] at known
  have distinct : (freedFrames s.curr s.frameList).freeNumbers.Nodup := owns.distinct.sublist known
  rw [FrameList.handedOut_eq, past]
  split
  · rename_i free
    refine List.nodup_append.mpr ⟨distinct, List.nodup_singleton _, ?_⟩
    rintro pfn listed _ single rfl
    rw [List.mem_singleton.mp single] at listed
    exact owns.past free (known.subset listed)
  · rw [List.append_nil]
    exact distinct

end

section
attribute [local instance] smallHardware

end

end Yallnix

import Mathlib.Data.List.Basic

namespace Yallnix

structure Frame where
  pfn : Nat
  isFree : Bool
  deriving DecidableEq, Repr

/-- The array of frames is followed by memory that its owner does not control. -/
structure FrameList where
  frames : List Frame
  past : Frame
  /-- This ghost bit records a call of `getFrame` without a free frame. -/
  starved : Bool
  deriving DecidableEq, Repr

/-- The loop of `getFrame` tests `isFree` before it tests the index. -/
def scanFrames : List Frame → Frame → Option (Nat × List Frame × Frame)
  | [], past =>
      if past.isFree then some (past.pfn, [], { past with isFree := false }) else none
  | currFrame :: next, past =>
      if currFrame.isFree then
        some (currFrame.pfn, { currFrame with isFree := false } :: next, past)
      else (scanFrames next past).map fun found => (found.1, currFrame :: found.2.1, found.2.2)

/-- `getFrame` writes no pfn when it returns ERROR. -/
def getFrame (list : FrameList) : Option Nat × FrameList :=
  let starved := list.starved || list.frames.all fun frame => !frame.isFree
  match scanFrames list.frames list.past with
  | none => (none, { list with starved := starved })
  | some (pfn, frames, past) => (some pfn, ⟨frames, past, starved⟩)

/-- `freeFrame` stops at the first frame with the number. -/
def freeFrame (list : FrameList) (pfn : Nat) : FrameList :=
  { list with frames := mark list.frames }
where
  mark : List Frame → List Frame
    | [] => []
    | currFrame :: next =>
        if currFrame.pfn = pfn then { currFrame with isFree := true } :: next
        else currFrame :: mark next

end Yallnix

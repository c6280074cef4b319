import Yallnix.Proof.FrameTaking
import Yallnix.Proof.FreeNumbers

namespace Yallnix

/-- The loop of `getFrame` reads these entries, and it writes at most the last of them. -/
def entriesRead : List Frame → Nat → List Nat
  | [], index => [index]
  | currFrame :: next, index =>
      index :: if currFrame.isFree then [] else entriesRead next (index + 1)

namespace FrameList

/-- This entry is free, and no entry before it is. -/
def LowestFree (list : FrameList) (before : List Frame) (frame : Frame) (after : List Frame) :
    Prop :=
  list.frames = before ++ frame :: after ∧ frame.isFree = true ∧
    ∀ other ∈ before, other.isFree = false

/-- Both lists have the same memory. -/
def SameMemory (list other : FrameList) : Prop :=
  list.frames = other.frames ∧ list.past = other.past

/-- `getFrame` stays inside the list, takes the lowest free frame and can give it back. -/
structure Exact (list : FrameList) : Prop where
  inside : ∀ index ∈ entriesRead list.frames 0, index < list.frames.length
  answers : (getFrame list).1.isSome = true ↔ ∃ frame ∈ list.frames, frame.isFree = true
  takes : ∀ before frame after, list.LowestFree before frame after →
    (getFrame list).1 = some frame.pfn ∧
      (getFrame list).2.frames = before ++ { frame with isFree := false } :: after ∧
      (getFrame list).2.past = list.past ∧
      (freeFrame (getFrame list).2 frame.pfn).SameMemory list
  refuses : (∀ frame ∈ list.frames, frame.isFree = false) →
    (getFrame list).1 = none ∧ (getFrame list).2.SameMemory list

end FrameList

/-- A scan without a free entry ends behind the list. -/
theorem entriesRead_full {frames : List Frame} (index : Nat)
    (full : ∀ frame ∈ frames, frame.isFree = false) :
    index + frames.length ∈ entriesRead frames index := by
  induction frames generalizing index with
  | nil => exact List.mem_singleton_self index
  | cons first rest ih =>
      have reached := ih (index + 1) fun frame listed => full frame (by simp [listed])
      rw [entriesRead, full first (by simp)]
      refine List.mem_cons_of_mem _ ?_
      rwa [List.length_cons, show index + (rest.length + 1) = index + 1 + rest.length by omega]

/-- A scan with a free entry ends inside the list. -/
theorem entriesRead_lt {frames : List Frame} {index read : Nat}
    (free : ∃ frame ∈ frames, frame.isFree = true) (listed : read ∈ entriesRead frames index) :
    read < index + frames.length := by
  induction frames generalizing index with
  | nil =>
      obtain ⟨frame, inside, -⟩ := free
      cases inside
  | cons first rest ih =>
      rw [List.length_cons]
      rw [entriesRead] at listed
      rcases List.mem_cons.mp listed with rfl | listed
      · omega
      · split at listed
        · cases listed
        · rename_i used
          obtain ⟨frame, inside, isFree⟩ := free
          have later : frame ∈ rest := by
            rcases List.mem_cons.mp inside with rfl | later
            · exact absurd isFree used
            · exact later
          have bound := ih ⟨frame, later, isFree⟩ listed
          omega

/-- The scan stops at the lowest free entry. -/
theorem scanFrames_lowest {before : List Frame} {frame : Frame} (after : List Frame) (past : Frame)
    (free : frame.isFree = true) (used : ∀ other ∈ before, other.isFree = false) :
    scanFrames (before ++ frame :: after) past =
      some (frame.pfn, before ++ { frame with isFree := false } :: after, past) := by
  induction before with
  | nil => rw [List.nil_append, scanFrames, if_pos free, List.nil_append]
  | cons first rest ih =>
      have first_used : ¬first.isFree = true := by
        rw [used first (by simp)]
        decide
      rw [List.cons_append, scanFrames, if_neg first_used,
        ih fun other listed => used other (by simp [listed])]
      rfl

/-- Without a free entry the scan ends at the memory behind the list. -/
theorem scanFrames_used {frames : List Frame} (past : Frame)
    (used : ∀ frame ∈ frames, frame.isFree = false) :
    scanFrames frames past =
      if past.isFree then some (past.pfn, frames, { past with isFree := false }) else none := by
  induction frames with
  | nil => rfl
  | cons first rest ih =>
      have first_used : ¬first.isFree = true := by
        rw [used first (by simp)]
        decide
      rw [scanFrames, if_neg first_used, ih fun frame listed => used frame (by simp [listed])]
      split <;> rfl

/-- A list with a free entry has a lowest one. -/
theorem FrameList.exists_lowestFree {list : FrameList}
    (free : ∃ frame ∈ list.frames, frame.isFree = true) :
    ∃ before frame after, list.LowestFree before frame after := by
  obtain ⟨frame, listed, isFree⟩ := free
  have found : (list.frames.find? Frame.isFree).isSome = true :=
    List.find?_isSome.mpr ⟨frame, listed, isFree⟩
  obtain ⟨lowest, same⟩ := Option.isSome_iff_exists.mp found
  obtain ⟨lowestFree, before, after, split, used⟩ := List.find?_eq_some_iff_append.mp same
  refine ⟨before, lowest, after, split, lowestFree, fun other inside => ?_⟩
  have notFree := used other inside
  rwa [Bool.not_eq_true'] at notFree

/-- `freeFrame` marks the only frame with the number. -/
theorem freeFrame_mark {before : List Frame} {frame : Frame} (after : List Frame)
    (other : ∀ frame' ∈ before, frame'.pfn ≠ frame.pfn) :
    freeFrame.mark frame.pfn (before ++ { frame with isFree := false } :: after) =
      before ++ { frame with isFree := true } :: after := by
  induction before with
  | nil => rw [List.nil_append, freeFrame.mark, if_pos rfl, List.nil_append]
  | cons first rest ih =>
      rw [List.cons_append, freeFrame.mark, if_neg (other first (by simp)),
        ih fun frame' listed => other frame' (by simp [listed]), List.cons_append]

/-- With a free entry `getFrame` takes the lowest one, and `freeFrame` gives it back. -/
theorem getFrame_lowest {list : FrameList} (distinct : list.numbers.Nodup)
    {before after : List Frame} {frame : Frame} (lowest : list.LowestFree before frame after) :
    (getFrame list).1 = some frame.pfn ∧
      (getFrame list).2.frames = before ++ { frame with isFree := false } :: after ∧
      (getFrame list).2.past = list.past ∧
      (freeFrame (getFrame list).2 frame.pfn).SameMemory list := by
  obtain ⟨split, free, used⟩ := lowest
  have scanned := scanFrames_lowest after list.past free used
  rw [← split] at scanned
  have others : ∀ frame' ∈ before, frame'.pfn ≠ frame.pfn := by
    intro frame' listed same
    rw [FrameList.numbers, split, List.map_append, List.map_cons] at distinct
    have apart := (List.nodup_append.mp distinct).2.2
    exact apart _ (List.mem_map_of_mem listed) _ List.mem_cons_self same
  have restored : freeFrame.mark frame.pfn
      (before ++ { frame with isFree := false } :: after) = list.frames := by
    rw [freeFrame_mark after others, split]
    cases frame
    cases free
    rfl
  rw [getFrame, scanned]
  exact ⟨rfl, rfl, rfl, restored, rfl⟩

/-- `getFrame` stays inside a list and is exact exactly when the list has a free entry. -/
theorem getFrame_exact_iff (list : FrameList) (distinct : list.numbers.Nodup) :
    list.Exact ↔ ∃ frame ∈ list.frames, frame.isFree = true := by
  constructor
  · intro exact
    by_contra full
    have used : ∀ frame ∈ list.frames, frame.isFree = false := fun frame listed => by
      by_contra free
      exact full ⟨frame, listed, (Bool.not_eq_false _).mp free⟩
    have bound := exact.inside _ (entriesRead_full 0 used)
    omega
  · intro free
    have lowest := FrameList.exists_lowestFree free
    refine ⟨fun index listed => ?_, ?_, fun before frame after => getFrame_lowest distinct, ?_⟩
    · have bound := entriesRead_lt free listed
      rwa [Nat.zero_add] at bound
    · obtain ⟨before, frame, after, found⟩ := lowest
      rw [(getFrame_lowest distinct found).1]
      exact ⟨fun _ => free, fun _ => rfl⟩
    · intro full
      obtain ⟨frame, listed, isFree⟩ := free
      rw [full frame listed] at isFree
      cases isFree

/-- The second of two frames is free. -/
theorem getFrame_exact_second :
    FrameList.Exact ⟨[⟨4, false⟩, ⟨5, true⟩], ⟨9, true⟩, false⟩ ↔
      ∃ frame ∈ [(⟨4, false⟩ : Frame), ⟨5, true⟩], frame.isFree = true :=
  getFrame_exact_iff ⟨[⟨4, false⟩, ⟨5, true⟩], ⟨9, true⟩, false⟩ (by decide)

/-- A full list hands out the memory behind it. -/
theorem getFrame_exact_full :
    (FrameList.numbers ⟨[⟨4, false⟩, ⟨5, false⟩], ⟨9, true⟩, false⟩).Nodup ∧
      getFrame ⟨[⟨4, false⟩, ⟨5, false⟩], ⟨9, true⟩, false⟩ =
        (some 9, ⟨[⟨4, false⟩, ⟨5, false⟩], ⟨9, false⟩, true⟩) ∧
      ¬FrameList.Exact ⟨[⟨4, false⟩, ⟨5, false⟩], ⟨9, true⟩, false⟩ := by
  refine ⟨by decide, rfl, fun exact => ?_⟩
  exact absurd (exact.inside 2 (by decide)) (by decide)

end Yallnix

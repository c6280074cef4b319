import Yallnix.Construction.FrameList
import Mathlib.Data.List.Nodup

namespace Yallnix

namespace FrameList

/-- The numbers of all frames. -/
def numbers (list : FrameList) : List Nat := list.frames.map Frame.pfn

/-- The numbers of the free frames, in the order in which `getFrame` hands them out. -/
def freeNumbers (list : FrameList) : List Nat :=
  (list.frames.filter Frame.isFree).map Frame.pfn

/-- The frame with this number is marked in this way. -/
def Marks (list : FrameList) (pfn : Nat) (free : Bool) : Prop :=
  ∃ frame ∈ list.frames, frame.pfn = pfn ∧ frame.isFree = free

variable {list next : FrameList} {pfn : Nat}

theorem mem_freeNumbers : pfn ∈ list.freeNumbers ↔ list.Marks pfn true := by
  simp only [freeNumbers, Marks, List.mem_map, List.mem_filter]
  constructor
  · rintro ⟨frame, ⟨listed, free⟩, number⟩
    exact ⟨frame, listed, number, free⟩
  · rintro ⟨frame, listed, number, free⟩
    exact ⟨frame, ⟨listed, free⟩, number⟩

theorem freeNumbers_sublist (list : FrameList) : list.freeNumbers.Sublist list.numbers :=
  List.filter_sublist.map _

/-- A frame that is not free is in use. -/
theorem marks_used (listed : pfn ∈ list.numbers) (used : pfn ∉ list.freeNumbers) :
    list.Marks pfn false := by
  obtain ⟨frame, inside, number⟩ := List.mem_map.mp listed
  refine ⟨frame, inside, number, (Bool.not_eq_true _).mp fun free => ?_⟩
  exact used (mem_freeNumbers.mpr ⟨frame, inside, number, free⟩)

/-- With one frame for each number a used frame is not free. -/
theorem notMem_freeNumbers (distinct : list.numbers.Nodup) (used : list.Marks pfn false) :
    pfn ∉ list.freeNumbers := by
  intro free
  obtain ⟨one, inOne, numberOne, free⟩ := mem_freeNumbers.mp free
  obtain ⟨two, inTwo, numberTwo, used⟩ := used
  have same := List.inj_on_of_nodup_map distinct inOne inTwo (numberOne.trans numberTwo.symm)
  rw [same, used] at free
  cases free

end FrameList

theorem scanFrames_of_free {frames : List Frame} (past : Frame) {pfn : Nat} {rest : List Nat}
    (free : (frames.filter Frame.isFree).map Frame.pfn = pfn :: rest) :
    ∃ frames', scanFrames frames past = some (pfn, frames', past) ∧
      (frames'.filter Frame.isFree).map Frame.pfn = rest ∧
      frames'.map Frame.pfn = frames.map Frame.pfn := by
  induction frames with
  | nil => cases free
  | cons first others ih =>
      rw [scanFrames]
      cases isFree : first.isFree with
      | true =>
          simp only [List.filter_cons, isFree, if_true, List.map_cons, List.cons.injEq] at free
          obtain ⟨rfl, rfl⟩ := free
          exact ⟨_, rfl, by simp, by simp⟩
      | false =>
          rw [List.filter_cons_of_neg (by rw [isFree]; decide)] at free
          obtain ⟨frames', scanned, left, numbers⟩ := ih free
          refine ⟨first :: frames', by simp [scanned], ?_, ?_⟩
          · rw [List.filter_cons_of_neg (by rw [isFree]; decide), left]
          · rw [List.map_cons, numbers, List.map_cons]

/-- Some code takes these frames in order, and it may take more. -/
structure Takes (pfns : List Nat) (list next : FrameList) : Prop where
  numbers : next.numbers = list.numbers
  order : (pfns ++ next.freeNumbers).Sublist list.freeNumbers

namespace Takes

variable {list next last : FrameList} {pfns more : List Nat}

/-- The order of the frames does not matter later. -/
theorem forget (takes : Takes pfns list next) : Takes [] list next :=
  ⟨takes.numbers, (List.sublist_append_right _ _).trans takes.order⟩

theorem refl (list : FrameList) : Takes [] list list := ⟨rfl, List.Sublist.refl _⟩

theorem trans (first : Takes pfns list next) (second : Takes more next last) :
    Takes (pfns ++ more) list last where
  numbers := second.numbers.trans first.numbers
  order := by
    rw [List.append_assoc]
    exact (second.order.append_left pfns).trans first.order

/-- What stays free was free. -/
theorem free (takes : Takes pfns list next) {pfn : Nat} (free : pfn ∈ next.freeNumbers) :
    pfn ∈ list.freeNumbers :=
  takes.order.subset (List.mem_append_right _ free)

/-- Each taken frame was free and is in use now. -/
theorem taken (takes : Takes pfns list next) (distinct : list.numbers.Nodup) {pfn : Nat}
    (taken : pfn ∈ pfns) : pfn ∈ list.freeNumbers ∧ pfn ∉ next.freeNumbers := by
  refine ⟨takes.order.subset (List.mem_append_left _ taken), fun free => ?_⟩
  have nodup := (distinct.sublist list.freeNumbers_sublist).sublist takes.order
  exact (List.nodup_append.mp nodup).2.2 pfn taken pfn free rfl

theorem nodup (takes : Takes pfns list next) (distinct : list.numbers.Nodup) : pfns.Nodup :=
  ((distinct.sublist list.freeNumbers_sublist).sublist takes.order).sublist
    (List.sublist_append_left _ _)

end Takes

/-- `getFrame` hands out the first free number. -/
theorem getFrame_takes {list : FrameList} {pfn : Nat} {rest : List Nat}
    (free : list.freeNumbers = pfn :: rest) :
    ∃ next, getFrame list = (some pfn, next) ∧ Takes [pfn] list next ∧
      next.freeNumbers = rest := by
  obtain ⟨frames', scanned, left, numbers⟩ := scanFrames_of_free list.past free
  rw [getFrame, scanned]
  refine ⟨_, rfl, ⟨numbers, ?_⟩, left⟩
  rw [free]
  exact List.Sublist.cons_cons pfn (left ▸ List.Sublist.refl _)

end Yallnix

import Yallnix.Construction.PageTable
import Yallnix.Proof.FrameReturn
import Yallnix.Proof.FreeNumbers
import Mathlib.Logic.Relation

namespace Yallnix

/-- The kernel changes the frame list with these two calls only. -/
inductive FrameCall : FrameList → FrameList → Prop where
  | get (list : FrameList) : FrameCall list (getFrame list).2
  | free (list : FrameList) (pfn : Nat) : FrameCall list (freeFrame list pfn)

/-- Kernel code makes any number of these calls. -/
abbrev FrameCalls : FrameList → FrameList → Prop := Relation.ReflTransGen FrameCall

theorem FrameCalls.of_get {list next : FrameList} {found : Option Nat}
    (got : getFrame list = (found, next)) : FrameCalls list next := by
  have call := FrameCall.get list
  rw [got] at call
  exact .single call

theorem FrameCalls.foldl (list : FrameList) (pfns : List Nat) :
    FrameCalls list (pfns.foldl freeFrame list) := by
  induction pfns generalizing list with
  | nil => exact .refl
  | cons pfn rest ih => exact .head (.free list pfn) (ih _)

/-- The loop of `delete_process` frees the frames of the valid entries. -/
theorem freeValidFrames_eq (table : PageTable) (list : FrameList) :
    freeValidFrames table list =
      ((table.filter Pte.valid).map Pte.pfn).foldl freeFrame list := by
  rw [freeValidFrames]
  induction table generalizing list with
  | nil => rfl
  | cons pte rest ih =>
      rw [List.foldl_cons, ih]
      cases valid : pte.valid <;> simp [valid]

/-- What is free after a scan was free before it. -/
theorem scanFrames_free {frames frames' : List Frame} {past past' : Frame} {pfn : Nat}
    (scanned : scanFrames frames past = some (pfn, frames', past')) :
    ∀ frame ∈ frames', frame.isFree = true → frame ∈ frames := by
  induction frames generalizing frames' with
  | nil =>
      rw [scanFrames] at scanned
      split at scanned
      · cases scanned
        exact fun frame listed => absurd listed List.not_mem_nil
      · cases scanned
  | cons first rest ih =>
      rw [scanFrames] at scanned
      split at scanned
      · cases scanned
        intro frame listed free
        rcases List.mem_cons.mp listed with rfl | listed
        · cases free
        · exact List.mem_cons_of_mem _ listed
      · obtain ⟨⟨number, others, last⟩, found, same⟩ := Option.map_eq_some_iff.mp scanned
        cases same
        intro frame listed free
        rcases List.mem_cons.mp listed with rfl | listed
        · exact List.mem_cons_self
        · exact List.mem_cons_of_mem _ (ih found frame listed free)

theorem scanFrames_order {frames frames' : List Frame} {past past' : Frame} {pfn : Nat}
    (scanned : scanFrames frames past = some (pfn, frames', past')) (order : FreeFirst frames) :
    FreeFirst frames' := by
  induction frames generalizing frames' with
  | nil =>
      rw [scanFrames] at scanned
      split at scanned
      · cases scanned
        exact order
      · cases scanned
  | cons first rest ih =>
      obtain ⟨ahead, order⟩ := List.pairwise_cons.mp order
      rw [scanFrames] at scanned
      split at scanned
      · cases scanned
        exact List.pairwise_cons.mpr ⟨ahead, order⟩
      · obtain ⟨⟨number, others, last⟩, found, same⟩ := Option.map_eq_some_iff.mp scanned
        cases same
        refine List.pairwise_cons.mpr ⟨fun later listed free => ?_, ih found order⟩
        exact ahead later (scanFrames_free found later listed free) free

theorem getFrame_order {list next : FrameList} {found : Option Nat}
    (got : getFrame list = (found, next)) (order : FreeFirst list.frames) :
    FreeFirst next.frames := by
  unfold getFrame at got
  split at got
  · cases got
    exact order
  · rename_i scanned
    cases got
    exact scanFrames_order scanned order

/-- A freed frame is the first one with its number. -/
theorem freeFrame_order {list : FrameList} (pfn : Nat) (order : FreeFirst list.frames) :
    FreeFirst (freeFrame list pfn).frames := by
  have marks : ∀ frames : List Frame, FreeFirst frames →
      FreeFirst (freeFrame.mark pfn frames) ∧
        ∀ frame ∈ freeFrame.mark pfn frames, frame ∈ frames ∨ frame.pfn = pfn := by
    intro frames order
    induction frames with
    | nil => exact ⟨order, fun _ => Or.inl⟩
    | cons first rest ih =>
        obtain ⟨ahead, order⟩ := List.pairwise_cons.mp order
        obtain ⟨after, listed⟩ := ih order
        rw [freeFrame.mark]
        split
        · rename_i same
          refine ⟨List.pairwise_cons.mpr ⟨ahead, order⟩, fun frame member => ?_⟩
          rcases List.mem_cons.mp member with rfl | member
          · exact Or.inr same
          · exact Or.inl (List.mem_cons_of_mem _ member)
        · rename_i other
          refine ⟨List.pairwise_cons.mpr ⟨fun later member free => ?_, after⟩,
            fun frame member => ?_⟩
          · rcases listed later member with old | number
            · exact ahead later old free
            · rwa [number]
          · rcases List.mem_cons.mp member with rfl | member
            · exact Or.inl List.mem_cons_self
            · exact (listed frame member).imp_left (List.mem_cons_of_mem _)
  exact (marks list.frames order).1

theorem getFrame_starved (list : FrameList) : (getFrame list).2.starved =
    (list.starved || list.frames.all fun frame => !frame.isFree) := by
  unfold getFrame
  split <;> rfl

namespace FrameCalls

variable {list next : FrameList}

theorem order (calls : FrameCalls list next) (order : FreeFirst list.frames) :
    FreeFirst next.frames := by
  induction calls with
  | refl => exact order
  | tail _ call ih =>
      cases call with
      | get => exact getFrame_order rfl ih
      | free pfn => exact freeFrame_order _ ih

/-- The ghost bit stays once it is set. -/
theorem fed (calls : FrameCalls list next) (fed : next.starved = false) :
    list.starved = false := by
  induction calls with
  | refl => exact fed
  | tail _ call ih =>
      refine ih ?_
      cases call with
      | get =>
          rw [getFrame_starved, Bool.or_eq_false_iff] at fed
          exact fed.1
      | free pfn => exact fed

end FrameCalls

/-- The numbers of the free frames are different. -/
theorem FreeFirst.nodup {list : FrameList} (order : FreeFirst list.frames) :
    list.freeNumbers.Nodup := by
  refine List.pairwise_map.mpr ((order.filter _).imp_of_mem fun _ listed differ => ?_)
  exact differ (List.mem_filter.mp listed).2

/-- A call that finds a free frame takes it out of the free numbers. -/
theorem getFrame_fresh {list next : FrameList} {found : Option Nat}
    (got : getFrame list = (found, next)) (fed : next.starved = false)
    (order : FreeFirst list.frames) : ∃ pfn, found = some pfn ∧ pfn ∈ list.freeNumbers ∧
      ∀ other, other ∈ next.freeNumbers → other ∈ list.freeNumbers ∧ other ≠ pfn := by
  cases free : list.freeNumbers with
  | nil =>
      rw [FrameList.freeNumbers, List.map_eq_nil_iff, List.filter_eq_nil_iff] at free
      have starved := getFrame_starved list
      rw [got] at starved
      dsimp only at starved
      rw [starved, Bool.or_eq_false_iff, List.all_eq_false] at fed
      obtain ⟨frame, listed, isFree⟩ := fed.2
      rw [Bool.not_eq_true, Bool.not_eq_false'] at isFree
      exact absurd isFree (free frame listed)
  | cons pfn rest =>
      obtain ⟨after, taken, takes, left⟩ := getFrame_takes free
      cases got.symm.trans taken
      have nodup := order.nodup
      rw [free] at nodup
      refine ⟨pfn, rfl, List.mem_cons_self, fun other listed => ?_⟩
      rw [left] at listed
      refine ⟨List.mem_cons_of_mem _ listed, ?_⟩
      rintro rfl
      exact (List.nodup_cons.mp nodup).1 listed

end Yallnix

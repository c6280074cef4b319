import Yallnix.Proof.FrameTaking

namespace Yallnix

/-- `getFrame` marks a frame in this way. -/
def Frame.taken (frame : Frame) : Frame := { frame with isFree := false }

theorem Frame.eq_iff {frame other : Frame} :
    frame = other ↔ frame.pfn = other.pfn ∧ frame.isFree = other.isFree := by
  cases frame
  cases other
  exact Frame.mk.injEq .. ▸ Iff.rfl

theorem map_taken_of_used {frames : List Frame} (used : ∀ frame ∈ frames, frame.isFree = false) :
    frames.map Frame.taken = frames := by
  conv_rhs => rw [← List.map_id frames]
  refine List.map_congr_left fun frame listed => ?_
  rw [Frame.taken, ← used frame listed]
  rfl

theorem filter_of_used {frames : List Frame} (used : ∀ frame ∈ frames, frame.isFree = false) :
    frames.filter Frame.isFree = [] := by
  rw [List.filter_eq_nil_iff]
  intro frame listed
  rw [used frame listed]
  decide

theorem used_of_available {list : FrameList} (empty : list.available = 0) :
    ∀ frame ∈ list.slots, frame.isFree = false := by
  intro frame listed
  exact (Bool.not_eq_true _).mp (List.countP_eq_zero.mp empty frame listed)

/-- Without enough free slots the loops take all of them in order. -/
theorem takeFrames_all {count : Nat} {list : FrameList} (short : list.available ≤ count) :
    (takeFrames count list).1 = (list.slots.filter Frame.isFree).map Frame.pfn ∧
      (takeFrames count list).2.slots = list.slots.map Frame.taken := by
  induction count generalizing list with
  | zero =>
      have used := used_of_available (Nat.le_zero.mp short)
      rw [filter_of_used used, map_taken_of_used used]
      exact ⟨rfl, rfl⟩
  | succ count ih =>
      rw [takeFrames]
      cases taken : getFrame list with
      | mk found next =>
          cases found with
          | none =>
              obtain ⟨used, same⟩ := getFrame_none taken
              rw [filter_of_used used, map_taken_of_used used]
              exact ⟨rfl, same⟩
          | some pfn =>
              have fewer : next.available ≤ count := by
                have one := available_of_some taken
                omega
              obtain ⟨pfns, slots⟩ := ih fewer
              obtain ⟨-, before, frame, after, old, new, free, number, skipped⟩ :=
                getFrame_some taken
              have rest := filter_of_used skipped
              constructor
              · simp only [pfns, old, new, List.filter_append, rest, List.nil_append,
                  List.filter_cons, free, if_true, Bool.false_eq_true, if_false, List.map_cons,
                  number]
              · simp only [slots, old, new, List.map_append, List.map_cons, Frame.taken]

theorem takeFrames_frames_length (count : Nat) (list : FrameList) :
    (takeFrames count list).2.frames.length = list.frames.length := by
  induction count generalizing list with
  | zero => rfl
  | succ count ih =>
      rw [takeFrames]
      cases taken : getFrame list with
      | mk found next =>
          cases found with
          | none =>
              unfold getFrame at taken
              split at taken
              · cases taken
                rfl
              · cases taken
          | some pfn => exact (ih next).trans (getFrame_some taken).1

/-- Then no frame of the array is free. -/
theorem takeFrames_frames {count : Nat} {list : FrameList} (short : list.available ≤ count) :
    (takeFrames count list).2.frames = list.frames.map Frame.taken := by
  have slots := (takeFrames_all short).2
  rw [FrameList.slots, FrameList.slots, List.map_append] at slots
  refine (List.append_inj slots ?_).1
  rw [List.length_map]
  exact takeFrames_frames_length count list

/-- The calls of `freeFrame` in a loop free the first frame of each number. -/
def freed (numbers : List Nat) : List Frame → List Frame
  | [] => []
  | frame :: rest =>
      { frame with isFree := frame.isFree || decide (frame.pfn ∈ numbers) } ::
        freed (numbers.filter (· ≠ frame.pfn)) rest

theorem freed_nil (frames : List Frame) : freed [] frames = frames := by
  induction frames with
  | nil => rfl
  | cons frame rest ih => simp [freed, ih]

theorem freed_cons (pfn : Nat) (numbers : List Nat) (frames : List Frame) :
    freed (pfn :: numbers) frames = freed numbers (freeFrame.mark pfn frames) := by
  induction frames generalizing numbers with
  | nil => rfl
  | cons frame rest ih =>
      by_cases same : frame.pfn = pfn
      · subst same
        simp [freeFrame.mark, freed]
      · have other : pfn ≠ frame.pfn := Ne.symm same
        simp [freeFrame.mark, freed, same, other, ih]

theorem foldl_freeFrame (numbers : List Nat) (list : FrameList) :
    numbers.foldl freeFrame list = { list with frames := freed numbers list.frames } := by
  induction numbers generalizing list with
  | nil => simp [freed_nil]
  | cons pfn rest ih =>
      rw [List.foldl_cons, ih, freed_cons]
      rfl

/-- No frame has the number, or the first frame with the number is free. -/
def FirstFree (pfn : Nat) : List Frame → Prop
  | [] => True
  | frame :: rest => if frame.pfn = pfn then frame.isFree = true else FirstFree pfn rest

/-- No free frame stands behind another frame with its number. -/
def FreeFirst (frames : List Frame) : Prop :=
  frames.Pairwise fun earlier later => later.isFree = true → earlier.pfn ≠ later.pfn

theorem forall_firstFree_cons {numbers : List Nat} {frame : Frame} {rest : List Frame} :
    (∀ pfn ∈ numbers, FirstFree pfn (frame :: rest)) ↔
      (frame.pfn ∈ numbers → frame.isFree = true) ∧
        ∀ pfn ∈ numbers.filter (· ≠ frame.pfn), FirstFree pfn rest := by
  constructor
  · intro all
    constructor
    · intro listed
      simpa [FirstFree] using all frame.pfn listed
    · intro pfn inside
      obtain ⟨listed, other⟩ := List.mem_filter.mp inside
      have free := all pfn listed
      rwa [FirstFree, if_neg (Ne.symm (of_decide_eq_true other))] at free
  · rintro ⟨first, others⟩ pfn listed
    rw [FirstFree]
    split
    · rename_i same
      exact first (same ▸ listed)
    · rename_i other
      exact others pfn (List.mem_filter.mpr ⟨listed, decide_eq_true (Ne.symm other)⟩)

/-- A loop frees nothing that is in use if each number comes first at a free frame. -/
theorem freed_eq_self {numbers : List Nat} {frames : List Frame} :
    freed numbers frames = frames ↔ ∀ pfn ∈ numbers, FirstFree pfn frames := by
  induction frames generalizing numbers with
  | nil => simp [freed, FirstFree]
  | cons frame rest ih =>
      have head : { frame with isFree := frame.isFree || decide (frame.pfn ∈ numbers) } = frame ↔
          (frame.pfn ∈ numbers → frame.isFree = true) := by
        rw [Frame.eq_iff]
        cases frame.isFree <;> simp
      rw [freed, List.cons.injEq, ih, head, forall_firstFree_cons]

/-- A loop gives the taken frames back if it frees exactly these. -/
theorem freed_taken {numbers : List Nat} {frames : List Frame} :
    freed numbers (frames.map Frame.taken) = frames ↔
      (∀ pfn ∈ numbers, FirstFree pfn frames) ∧ FreeFirst frames ∧
        ∀ frame ∈ frames, frame.isFree = true → frame.pfn ∈ numbers := by
  induction frames generalizing numbers with
  | nil => simp [freed, FirstFree, FreeFirst]
  | cons frame rest ih =>
      have head : { frame.taken with
          isFree := frame.taken.isFree || decide (frame.taken.pfn ∈ numbers) } = frame ↔
          (frame.pfn ∈ numbers ↔ frame.isFree = true) := by
        rw [Frame.eq_iff]
        by_cases listed : frame.pfn ∈ numbers <;> cases frame.isFree <;> simp [Frame.taken, listed]
      have number : frame.taken.pfn = frame.pfn := rfl
      rw [List.map_cons, freed, List.cons.injEq, head, number, ih, FreeFirst, FreeFirst,
        List.pairwise_cons, forall_firstFree_cons]
      constructor
      · rintro ⟨first, others, ordered, back⟩
        refine ⟨⟨first.mp, others⟩, ⟨?_, ordered⟩, ?_⟩
        · intro later inside free
          have kept := (List.mem_filter.mp (back later inside free)).2
          exact Ne.symm (of_decide_eq_true kept)
        · intro other inside free
          rcases List.mem_cons.mp inside with rfl | inside
          · exact first.mpr free
          · exact (List.mem_filter.mp (back other inside free)).1
      · rintro ⟨⟨first, others⟩, ⟨behind, ordered⟩, back⟩
        refine ⟨⟨first, back frame List.mem_cons_self⟩, others, ordered, ?_⟩
        intro later inside free
        refine List.mem_filter.mpr ⟨back later (List.mem_cons_of_mem _ inside) free, ?_⟩
        exact decide_eq_true (Ne.symm (behind later inside free))

end Yallnix

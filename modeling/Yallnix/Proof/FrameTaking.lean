import Yallnix.Construction.FrameList

namespace Yallnix

/-- The loop of `getFrame` also looks at the memory right behind the array. -/
def FrameList.slots (list : FrameList) : List Frame := list.frames ++ [list.past]

/-- `getFrame` can hand out this many frames. -/
def FrameList.available (list : FrameList) : Nat := list.slots.countP Frame.isFree

theorem scanFrames_eq_none {frames : List Frame} {past : Frame} :
    scanFrames frames past = none ↔ ∀ frame ∈ frames ++ [past], frame.isFree = false := by
  induction frames with
  | nil =>
      rw [scanFrames]
      cases free : past.isFree <;> simp [free]
  | cons first rest ih =>
      rw [scanFrames]
      cases free : first.isFree with
      | true => simp [free]
      | false => simp [free, ih]

/-- The scan takes the first free slot. -/
theorem scanFrames_eq_some {frames frames' : List Frame} {past past' : Frame} {pfn : Nat}
    (found : scanFrames frames past = some (pfn, frames', past')) :
    frames'.length = frames.length ∧ ∃ before frame after,
      frames ++ [past] = before ++ frame :: after ∧
      frames' ++ [past'] = before ++ { frame with isFree := false } :: after ∧
      frame.isFree = true ∧ frame.pfn = pfn ∧ ∀ other ∈ before, other.isFree = false := by
  induction frames generalizing frames' past' with
  | nil =>
      rw [scanFrames] at found
      split at found
      · rename_i free
        cases found
        exact ⟨rfl, [], past, [], rfl, rfl, free, rfl, nofun⟩
      · cases found
  | cons first rest ih =>
      rw [scanFrames] at found
      split at found
      · rename_i free
        cases found
        exact ⟨rfl, [], first, rest ++ [past], rfl, rfl, free, rfl, nofun⟩
      · rename_i used
        obtain ⟨⟨_, tail, last⟩, scanned, same⟩ := Option.map_eq_some_iff.mp found
        cases same
        obtain ⟨length, before, frame, after, old, new, free, number, skipped⟩ := ih scanned
        refine ⟨congrArg (· + 1) length, first :: before, frame, after, ?_, ?_, free, number, ?_⟩
        · rw [List.cons_append, old, List.cons_append]
        · rw [List.cons_append, new, List.cons_append]
        · intro other listed
          rcases List.mem_cons.mp listed with rfl | listed
          · exact (Bool.not_eq_true _).mp used
          · exact skipped other listed

/-- A failed `getFrame` found no free slot and only records that. -/
theorem getFrame_none {list next : FrameList} (done : getFrame list = (none, next)) :
    (∀ frame ∈ list.slots, frame.isFree = false) ∧ next.slots = list.slots := by
  unfold getFrame at done
  split at done
  · rename_i missing
    cases done
    exact ⟨scanFrames_eq_none.mp missing, rfl⟩
  · cases done

/-- A successful `getFrame` marks the first free slot and returns its number. -/
theorem getFrame_some {list next : FrameList} {pfn : Nat}
    (done : getFrame list = (some pfn, next)) :
    next.frames.length = list.frames.length ∧ ∃ before frame after,
      list.slots = before ++ frame :: after ∧
      next.slots = before ++ { frame with isFree := false } :: after ∧
      frame.isFree = true ∧ frame.pfn = pfn ∧ ∀ other ∈ before, other.isFree = false := by
  unfold getFrame at done
  split at done
  · cases done
  · rename_i found
    cases done
    exact scanFrames_eq_some found

theorem available_of_none {list next : FrameList} (done : getFrame list = (none, next)) :
    list.available = 0 := by
  refine List.countP_eq_zero.mpr fun frame listed => ?_
  rw [(getFrame_none done).1 frame listed]
  decide

theorem available_of_some {list next : FrameList} {pfn : Nat}
    (done : getFrame list = (some pfn, next)) : list.available = next.available + 1 := by
  obtain ⟨-, before, frame, after, old, new, free, -, -⟩ := getFrame_some done
  simp only [FrameList.available, old, new, List.countP_append, List.countP_cons, free,
    Bool.false_eq_true, if_true, if_false]
  omega

/-- The growth loops take frames until one is missing. -/
def takeFrames : Nat → FrameList → List Nat × FrameList
  | 0, list => ([], list)
  | count + 1, list =>
      match getFrame list with
      | (none, list) => ([], list)
      | (some pfn, list) =>
          let (pfns, list) := takeFrames count list
          (pfn :: pfns, list)

theorem takeFrames_length (count : Nat) (list : FrameList) :
    (takeFrames count list).1.length = min count list.available := by
  induction count generalizing list with
  | zero => simp [takeFrames]
  | succ count ih =>
      rw [takeFrames]
      cases taken : getFrame list with
      | mk found next =>
          cases found with
          | none => simp [available_of_none taken]
          | some pfn => simp [ih, available_of_some taken]

/-- Without a free slot the loops take nothing. -/
theorem takeFrames_of_available {count : Nat} {list : FrameList} (empty : list.available = 0) :
    (takeFrames count list).1 = [] ∧ (takeFrames count list).2.slots = list.slots := by
  cases count with
  | zero => exact ⟨rfl, rfl⟩
  | succ count =>
      rw [takeFrames]
      cases taken : getFrame list with
      | mk found next =>
          cases found with
          | none => exact ⟨rfl, (getFrame_none taken).2⟩
          | some pfn =>
              rw [available_of_some taken] at empty
              cases empty

/-- After a shortage no frame is left. -/
theorem takeFrames_available (count : Nat) (list : FrameList) :
    (takeFrames count list).2.available = list.available - count := by
  induction count generalizing list with
  | zero => simp [takeFrames]
  | succ count ih =>
      rw [takeFrames]
      cases taken : getFrame list with
      | mk found next =>
          cases found with
          | none =>
              have none := available_of_none taken
              have same : next.available = list.available :=
                congrArg (List.countP Frame.isFree) (getFrame_none taken).2
              simp only [same, none]
              omega
          | some pfn =>
              simp only [ih, available_of_some taken]
              omega

end Yallnix

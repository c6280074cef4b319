import Yallnix.Proof.ForkTrace
import Yallnix.Proof.FrameBounds
import Yallnix.Proof.MmuStep
import Yallnix.Proof.StackGap

namespace Yallnix

theorem FrameList.used_of_freeNumbers {list : FrameList} (full : list.freeNumbers = []) :
    ∀ frame ∈ list.frames, frame.isFree = false := by
  intro frame listed
  rw [FrameList.freeNumbers, List.map_eq_nil_iff, List.filter_eq_nil_iff] at full
  exact (Bool.not_eq_true _).mp (full frame listed)

/-- A full array stays as it is. -/
theorem getFrame_full {list : FrameList} (full : list.freeNumbers = []) :
    (getFrame list).2.frames = list.frames := by
  rw [getFrame, scanFrames_used list.past (FrameList.used_of_freeNumbers full)]
  cases list.past.isFree <;> rfl

/-- The loops take free frames from the front and change nothing else. -/
theorem takeFrames_free (count : Nat) (list : FrameList) :
    (takeFrames count list).2.numbers = list.numbers ∧
      (takeFrames count list).2.freeNumbers = list.freeNumbers.drop count := by
  induction count generalizing list with
  | zero => exact ⟨rfl, rfl⟩
  | succ count ih =>
      rw [takeFrames]
      cases free : list.freeNumbers with
      | cons pfn rest =>
          obtain ⟨next, taken, takes, left⟩ := getFrame_takes free
          obtain ⟨numbers, after⟩ := ih next
          rw [taken]
          dsimp only
          rw [left] at after
          exact ⟨numbers.trans takes.numbers, after⟩
      | nil =>
          have same := getFrame_full free
          cases taken : getFrame list with
          | mk found next =>
              rw [taken] at same
              have numbers : next.numbers = list.numbers := congrArg (List.map Frame.pfn) same
              have empty : next.freeNumbers = [] := by
                rw [← free]
                exact congrArg (fun frames => (frames.filter Frame.isFree).map Frame.pfn) same
              cases found with
              | none => exact ⟨numbers, empty⟩
              | some pfn =>
                  obtain ⟨later, after⟩ := ih next
                  rw [empty] at after
                  exact ⟨later.trans numbers, after.trans List.drop_nil⟩

/-- `getFrame` hands out these numbers in this order. -/
def FrameList.handedOut (list : FrameList) : List Nat :=
  (list.slots.filter Frame.isFree).map Frame.pfn

theorem takeFrames_handedOut (count : Nat) (list : FrameList) :
    (takeFrames count list).1 = list.handedOut.take count ∧
      (takeFrames count list).2.handedOut = list.handedOut.drop count := by
  induction count generalizing list with
  | zero => exact ⟨rfl, rfl⟩
  | succ count ih =>
      rw [takeFrames]
      cases taken : getFrame list with
      | mk found next =>
          cases found with
          | none =>
              obtain ⟨used, same⟩ := getFrame_none taken
              have empty : list.handedOut = [] := by
                rw [FrameList.handedOut, List.filter_eq_nil_iff.mpr, List.map_nil]
                intro frame listed
                rw [used frame listed]
                exact Bool.false_ne_true
              have left : next.handedOut = [] := by
                rw [FrameList.handedOut, same]
                exact empty
              rw [empty]
              exact ⟨rfl, left⟩
          | some pfn =>
              obtain ⟨-, before, frame, after, old, new, free, number, used⟩ := getFrame_some taken
              have skipped : before.filter Frame.isFree = [] := by
                refine List.filter_eq_nil_iff.mpr fun other listed => ?_
                rw [used other listed]
                exact Bool.false_ne_true
              have first : list.handedOut = pfn :: next.handedOut := by
                simp only [FrameList.handedOut, old, new, List.filter_append, List.filter_cons,
                  skipped, free, if_true, Bool.false_eq_true, if_false, List.nil_append,
                  List.map_cons, number]
              obtain ⟨pfns, left⟩ := ih next
              rw [first]
              exact ⟨congrArg (pfn :: ·) pfns, left⟩

theorem FrameList.handedOut_eq (list : FrameList) :
    list.handedOut = list.freeNumbers ++ if list.past.isFree then [list.past.pfn] else [] := by
  rw [handedOut, slots, List.filter_append, List.map_append, freeNumbers]
  cases free : list.past.isFree <;> simp [free]

theorem FrameList.length_handedOut (list : FrameList) :
    list.handedOut.length = list.available := by
  rw [handedOut, List.length_map, available, List.countP_eq_length_filter]

theorem takeFrames_enough {count : Nat} {list : FrameList}
    (enough : count ≤ list.freeNumbers.length) :
    (takeFrames count list).1 = list.freeNumbers.take count := by
  rw [(takeFrames_handedOut count list).1, list.handedOut_eq, List.take_append_of_le_length enough]

/-- One call of `freeFrame` frees a number of the list and keeps the others. -/
theorem mem_freeFrame {list : FrameList} {pfn other : Nat} :
    other ∈ (freeFrame list pfn).freeNumbers ↔
      other ∈ list.freeNumbers ∨ other = pfn ∧ pfn ∈ list.numbers := by
  simp only [FrameList.freeNumbers, FrameList.numbers, freeFrame]
  induction list.frames with
  | nil => simp [freeFrame.mark]
  | cons first rest ih =>
      rw [freeFrame.mark]
      by_cases same : first.pfn = pfn
      · subst same
        cases free : first.isFree <;> simp [free, or_comm]
      · cases free : first.isFree <;> simp [free, same, Ne.symm same, ih, or_assoc]

theorem freeFrame_numbers (list : FrameList) (pfn : Nat) :
    (freeFrame list pfn).numbers = list.numbers := by
  simp only [FrameList.numbers, freeFrame]
  induction list.frames with
  | nil => rfl
  | cons first rest ih =>
      rw [freeFrame.mark]
      split
      · rfl
      · rw [List.map_cons, ih, List.map_cons]

/-- The loops of `freeFrame` free these numbers of the list and keep the others. -/
theorem mem_foldl_freeFrame {pfns : List Nat} {list : FrameList} {other : Nat} :
    other ∈ (pfns.foldl freeFrame list).freeNumbers ↔
      other ∈ list.freeNumbers ∨ other ∈ pfns ∧ other ∈ list.numbers := by
  induction pfns generalizing list with
  | nil => simp
  | cons pfn rest ih =>
      rw [List.foldl_cons, ih, mem_freeFrame, freeFrame_numbers, List.mem_cons]
      constructor
      · rintro ((free | ⟨rfl, known⟩) | ⟨listed, known⟩)
        · exact .inl free
        · exact .inr ⟨.inl rfl, known⟩
        · exact .inr ⟨.inr listed, known⟩
      · rintro (free | ⟨rfl | listed, known⟩)
        · exact .inl (.inl free)
        · exact .inl (.inr ⟨rfl, known⟩)
        · exact .inr ⟨listed, known⟩

theorem foldl_freeFrame_numbers (pfns : List Nat) (list : FrameList) :
    (pfns.foldl freeFrame list).numbers = list.numbers := by
  induction pfns generalizing list with
  | nil => rfl
  | cons pfn rest ih => rw [List.foldl_cons, ih, freeFrame_numbers]

theorem foldl_freeFrame_past (pfns : List Nat) (list : FrameList) :
    (pfns.foldl freeFrame list).past = list.past := by
  induction pfns generalizing list with
  | nil => rfl
  | cons pfn rest ih => exact ih (freeFrame list pfn)

theorem mem_validFrames {table : PageTable} {pfn : Nat} :
    pfn ∈ (table.filter Pte.valid).map Pte.pfn ↔
      ∃ pte ∈ table, pte.valid = true ∧ pte.pfn = pfn := by
  rw [List.mem_map]
  simp only [List.mem_filter, and_assoc]

/-- A loop maps these frames to the pages from the index on. -/
structure MapsTo (prot : Prot) (index : Int) (pfns : List Nat) (table next : PageTable) :
    Prop where
  length : next.length = table.length
  fits : pfns = [] ∨ 0 ≤ index ∧ index + pfns.length ≤ table.length
  mapped : ∀ (i k pfn : Nat), (i : Int) = index + k → pfns[k]? = some pfn →
    next[i]? = some ⟨true, prot, pfn⟩
  outside : ∀ i : Nat, (i : Int) < index ∨ index + pfns.length ≤ i → next[i]? = table[i]?

/-- The growth loop maps the frames that it gets, and it has them all when it says so. -/
theorem mapPages_eq_ok {prot : Prot} {count : Nat} {index : Int} {table next : PageTable}
    {list after : FrameList} {mapped : Bool} :
    mapPages prot count index (table, list) = .ok (mapped, next, after) →
      (mapped = true ↔ (takeFrames count list).1.length = count) ∧
        after = (takeFrames count list).2 ∧
        MapsTo prot index (takeFrames count list).1 table next := by
  intro done
  induction count generalizing index table list with
  | zero =>
      cases done
      refine ⟨iff_of_true rfl rfl, rfl, rfl, .inl rfl, fun i k pfn _ found => ?_, fun _ _ => rfl⟩
      cases found
  | succ count ih =>
      rw [mapPages] at done
      rw [takeFrames]
      cases taken : getFrame list with
      | mk found rest =>
          rw [taken] at done
          cases found with
          | none =>
              cases done
              refine ⟨iff_of_false Bool.false_ne_true (Nat.succ_ne_zero count).symm, rfl, rfl,
                .inl rfl, fun i k pfn _ listed => ?_, fun _ _ => rfl⟩
              cases listed
          | some pfn =>
              obtain ⟨middle, wrote, done⟩ := Outcome.bind_eq_ok.mp done
              obtain ⟨low, high, rfl⟩ := setPageTableEntry_eq_ok.mp wrote
              obtain ⟨all, frames, maps⟩ := ih done
              dsimp only
              have length : (table.set index.toNat ⟨true, prot, pfn⟩).length = table.length :=
                List.length_set
              have count : ((pfn :: (takeFrames count rest).1).length : Int) =
                  (takeFrames count rest).1.length + 1 := by
                rw [List.length_cons]
                rfl
              refine ⟨by rw [all, List.length_cons, Nat.succ_inj], frames,
                maps.length.trans length, .inr ⟨low, ?_⟩, fun i k other place listed => ?_,
                fun i outside => ?_⟩
              · rw [count]
                rcases maps.fits with none | ⟨-, inside⟩
                · rw [none, List.length_nil]
                  omega
                · rw [length] at inside
                  omega
              · cases k with
                | zero =>
                    rw [maps.outside i (.inl (by omega)), show index.toNat = i by omega,
                      List.getElem?_set_self (by omega)]
                    exact congrArg some (congrArg (Pte.mk true prot) (Option.some.inj listed))
                | succ k => exact maps.mapped i k other (by omega) listed
              · rw [count] at outside
                rw [maps.outside i (by omega), List.getElem?_set_ne (by omega)]

/-- The growth loop ends when its pages fit into the table. -/
theorem mapPages_ok (prot : Prot) {count : Nat} {index : Int} {table : PageTable}
    {list : FrameList} (fits : (takeFrames count list).1 = [] ∨
      0 ≤ index ∧ index + (takeFrames count list).1.length ≤ table.length) :
    ∃ result, mapPages prot count index (table, list) = .ok result := by
  induction count generalizing index table list with
  | zero => exact ⟨_, rfl⟩
  | succ count ih =>
      rw [mapPages]
      rw [takeFrames] at fits
      cases taken : getFrame list with
      | mk found rest =>
          cases found with
          | none => exact ⟨_, rfl⟩
          | some pfn =>
              simp only [taken, List.length_cons, reduceCtorEq, false_or] at fits
              push_cast at fits
              have wrote : setPageTableEntry table index ⟨true, prot, pfn⟩ =
                  .ok (table.set index.toNat ⟨true, prot, pfn⟩) :=
                setPageTableEntry_eq_ok.mpr ⟨fits.1, by omega, rfl⟩
              dsimp only
              rw [wrote, Outcome.ok_bind]
              refine ih (.inr ⟨by omega, ?_⟩)
              rw [List.length_set]
              omega

end Yallnix

import Yallnix.Proof.FrameBounds
import Yallnix.Proof.StackGap
import Yallnix.Proof.BufferCheck
import Mathlib.Data.Finset.Card
import Mathlib.Order.Interval.Finset.Nat

namespace Yallnix

namespace FrameList

/-- These entries of the array are free. -/
def freeSlots (list : FrameList) : Finset Nat :=
  (Finset.range list.frames.length).filter fun k => list.frames[k]?.any Frame.isFree = true

theorem mem_freeSlots {list : FrameList} {k : Nat} :
    k ∈ list.freeSlots ↔ ∃ frame, list.frames[k]? = some frame ∧ frame.isFree = true := by
  rw [freeSlots, Finset.mem_filter, Finset.mem_range, Option.any_eq_true]
  constructor
  · rintro ⟨-, frame, found, free⟩
    exact ⟨frame, found, free⟩
  · rintro ⟨frame, found, free⟩
    exact ⟨(List.getElem?_eq_some_iff.mp found).1, frame, found, free⟩

theorem freeSlots_eq_empty {list : FrameList} :
    list.freeSlots = ∅ ↔ ∀ frame ∈ list.frames, frame.isFree = false := by
  rw [Finset.eq_empty_iff_forall_notMem]
  constructor
  · intro empty frame listed
    obtain ⟨k, inside, found⟩ := List.mem_iff_getElem.mp listed
    by_contra free
    refine empty k (mem_freeSlots.mpr ⟨frame, ?_, (Bool.not_eq_false _).mp free⟩)
    rw [List.getElem?_eq_getElem inside, found]
  · intro used k inside
    obtain ⟨frame, found, free⟩ := mem_freeSlots.mp inside
    rw [used frame (List.mem_of_getElem? found)] at free
    cases free

/-- `getFrame` takes an entry of the array, then the memory behind it, and then nothing. -/
inductive Gets (list : FrameList) : Option Nat → FrameList → Prop where
  | slot {k : Nat} {frame : Frame} {next : FrameList} (found : list.frames[k]? = some frame)
      (free : frame.isFree = true)
      (frames : next.frames = list.frames.set k { frame with isFree := false })
      (past : next.past = list.past) : Gets list (some frame.pfn) next
  | past {next : FrameList} (full : list.freeSlots = ∅) (free : list.past.isFree = true)
      (frames : next.frames = list.frames) (used : next.past.isFree = false) :
      Gets list (some list.past.pfn) next
  | missing {next : FrameList} (full : list.freeSlots = ∅) (used : list.past.isFree = false)
      (frames : next.frames = list.frames) (past : next.past = list.past) : Gets list none next

theorem getFrame_gets (list : FrameList) : list.Gets (getFrame list).1 (getFrame list).2 := by
  by_cases free : ∃ frame ∈ list.frames, frame.isFree = true
  · obtain ⟨before, frame, after, split, isFree, used⟩ := exists_lowestFree free
    have scanned := scanFrames_lowest after list.past isFree used
    rw [← split] at scanned
    rw [getFrame, scanned]
    refine .slot (k := before.length) ?_ isFree ?_ rfl
    · rw [split, List.getElem?_append_right le_rfl, Nat.sub_self, List.getElem?_cons_zero]
    · rw [split, List.set_append_right _ _ le_rfl, Nat.sub_self, List.set_cons_zero]
  · have used : ∀ frame ∈ list.frames, frame.isFree = false := fun frame listed => by
      by_contra isFree
      exact free ⟨frame, listed, (Bool.not_eq_false _).mp isFree⟩
    have scanned := scanFrames_used list.past used
    have full := freeSlots_eq_empty.mpr used
    rw [getFrame, scanned]
    cases past : list.past.isFree with
    | true => exact .past full past rfl rfl
    | false => exact .missing full past rfl rfl

theorem freeSlots_congr {list next : FrameList} (frames : next.frames = list.frames) :
    next.freeSlots = list.freeSlots := by
  rw [freeSlots, frames, freeSlots]

/-- The taken entry is no longer free. -/
theorem freeSlots_set {list next : FrameList} {k : Nat} {frame : Frame}
    (found : list.frames[k]? = some frame)
    (frames : next.frames = list.frames.set k { frame with isFree := false }) :
    next.freeSlots = list.freeSlots.erase k := by
  ext j
  rw [Finset.mem_erase, mem_freeSlots, mem_freeSlots, frames]
  by_cases same : j = k
  · subst same
    rw [List.getElem?_set_self (List.getElem?_eq_some_iff.mp found).1]
    simp
  · rw [List.getElem?_set_ne (Ne.symm same)]
    simp [same]

end FrameList

open FrameList (Gets)

namespace PageTable

/-- These pages of the range are not mapped. -/
def missing (table : PageTable) (low high : Nat) : Finset Nat :=
  (Finset.Ico low high).filter fun i => table.maps i = false

theorem mem_missing {table : PageTable} {low high i : Nat} :
    i ∈ table.missing low high ↔ low ≤ i ∧ i < high ∧ table.maps i = false := by
  rw [missing, Finset.mem_filter, Finset.mem_Ico, and_assoc]

/-- An entry behind the range does not matter. -/
theorem missing_set (table : PageTable) (low high : Nat) (pte : Pte) :
    missing (table.set high pte) low high = table.missing low high := by
  ext i
  rw [mem_missing, mem_missing]
  refine and_congr_right fun above => and_congr_right fun below => ?_
  rw [maps, List.getElem?_set_ne (by omega), maps]

/-- The last page of a range is missing or not. -/
theorem card_missing_succ {table : PageTable} {low high : Nat} (ordered : low ≤ high) :
    (table.missing low (high + 1)).card =
      (table.missing low high).card + if table.maps high then 0 else 1 := by
  rw [missing, Nat.Ico_succ_right_eq_insert_Ico ordered, Finset.filter_insert]
  cases table.maps high with
  | true => simp [missing]
  | false => simp [missing]

end PageTable

/-- The range is mapped, each new page lies on its own free frame, and all else stays. -/
structure GrowsStack (low high : Nat) (table : PageTable) (list : FrameList) (next : PageTable)
    (after : FrameList) : Prop where
  length : next.length = table.length
  mapped : ∀ i, low ≤ i → i < high → next.maps i = true
  kept : ∀ i, table.maps i = true → next[i]? = table[i]?
  outside : ∀ i, i < low ∨ high ≤ i → next[i]? = table[i]?
  own : ∃ slot : Nat → Nat,
    (∀ i ∈ table.missing low high, ∀ j ∈ table.missing low high, slot i = slot j → i = j) ∧
    (∀ i ∈ table.missing low high, ∃ frame, list.frames[slot i]? = some frame ∧
      frame.isFree = true ∧ next[i]? = some ⟨true, protReadWrite, frame.pfn⟩ ∧
        after.frames[slot i]? = some { frame with isFree := false }) ∧
    ∀ k, (∀ i ∈ table.missing low high, slot i ≠ k) → after.frames[k]? = list.frames[k]?

namespace GrowsStack

variable {low mid high : Nat} {table next last : PageTable} {list after final : FrameList}

theorem refl (low : Nat) (table : PageTable) (list : FrameList) :
    GrowsStack low low table list table list := by
  have none : ∀ i, i ∉ table.missing low low := fun i inside => by
    obtain ⟨above, below, -⟩ := PageTable.mem_missing.mp inside
    omega
  exact ⟨rfl, fun i above below => by omega, fun _ _ => rfl, fun _ _ => rfl, fun i => i,
    fun i inside => absurd inside (none i), fun i inside => absurd inside (none i),
    fun _ _ => rfl⟩

/-- A valid page needs no frame. -/
theorem keep (valid : table.maps low = true) : GrowsStack low (low + 1) table list table list := by
  have none : ∀ i, i ∉ table.missing low (low + 1) := fun i inside => by
    obtain ⟨above, below, invalid⟩ := PageTable.mem_missing.mp inside
    obtain rfl : i = low := by omega
    rw [valid] at invalid
    cases invalid
  refine ⟨rfl, fun i above below => ?_, fun _ _ => rfl, fun _ _ => rfl, fun i => i,
    fun i inside => absurd inside (none i), fun i inside => absurd inside (none i),
    fun _ _ => rfl⟩
  obtain rfl : i = low := by omega
  exact valid

/-- A missing page takes one frame. -/
theorem take {k : Nat} {frame : Frame} (inside : low < table.length)
    (invalid : table.maps low = false) (found : list.frames[k]? = some frame)
    (free : frame.isFree = true)
    (frames : after.frames = list.frames.set k { frame with isFree := false }) :
    GrowsStack low (low + 1) table list (table.set low ⟨true, protReadWrite, frame.pfn⟩) after := by
  have wrote : (table.set low ⟨true, protReadWrite, frame.pfn⟩)[low]? =
      some ⟨true, protReadWrite, frame.pfn⟩ := List.getElem?_set_self inside
  have others (i : Nat) (differs : i ≠ low) :
      (table.set low ⟨true, protReadWrite, frame.pfn⟩)[i]? = table[i]? :=
    List.getElem?_set_ne (Ne.symm differs)
  have only : ∀ i ∈ table.missing low (low + 1), i = low := fun i listed => by
    obtain ⟨above, below, -⟩ := PageTable.mem_missing.mp listed
    omega
  refine ⟨List.length_set, fun i above below => ?_, fun i valid => others i ?_,
    fun i outside => others i (by omega), fun _ => k, fun i one j two _ => ?_, ?_, fun j other => ?_⟩
  · obtain rfl : i = low := by omega
    rw [PageTable.maps, wrote]
    rfl
  · rintro rfl
    rw [valid] at invalid
    cases invalid
  · rw [only i one, only j two]
  · intro i listed
    rw [only i listed, frames, List.getElem?_set_self (List.getElem?_eq_some_iff.mp found).1]
    exact ⟨frame, found, free, wrote, rfl⟩
  · have differs := other low (PageTable.mem_missing.mpr ⟨le_rfl, Nat.lt_succ_self _, invalid⟩)
    rw [frames, List.getElem?_set_ne differs]

/-- The loop fills the upper part first. -/
theorem trans_down (ordered : low ≤ mid) (further : mid ≤ high)
    (first : GrowsStack mid high table list next after)
    (second : GrowsStack low mid next after last final) :
    GrowsStack low high table list last final := by
  obtain ⟨slot, apart, owns, rest⟩ := first.own
  obtain ⟨slot', apart', owns', rest'⟩ := second.own
  have upper {i : Nat} (listed : i ∈ table.missing low high) (above : mid ≤ i) :
      i ∈ table.missing mid high := by
    obtain ⟨-, below, invalid⟩ := PageTable.mem_missing.mp listed
    exact PageTable.mem_missing.mpr ⟨above, below, invalid⟩
  have lower {i : Nat} (listed : i ∈ table.missing low high) (below : ¬mid ≤ i) :
      i ∈ next.missing low mid := by
    obtain ⟨above, -, invalid⟩ := PageTable.mem_missing.mp listed
    refine PageTable.mem_missing.mpr ⟨above, by omega, ?_⟩
    rw [PageTable.maps, first.outside i (.inl (by omega))]
    exact invalid
  have differ {i j : Nat} (one : i ∈ table.missing mid high) (two : j ∈ next.missing low mid) :
      slot i ≠ slot' j := by
    intro same
    obtain ⟨frame, -, -, -, used⟩ := owns i one
    obtain ⟨other, found, free, -, -⟩ := owns' j two
    rw [same, found] at used
    rw [Option.some.inj used] at free
    cases free
  refine ⟨second.length.trans first.length, fun i above below => ?_, fun i valid => ?_,
    fun i outside => ?_, fun i => if mid ≤ i then slot i else slot' i, ?_, ?_, ?_⟩
  · by_cases before : i < mid
    · exact second.mapped i above before
    · rw [PageTable.maps, second.outside i (.inr (by omega))]
      exact first.mapped i (by omega) below
  · have same := first.kept i valid
    have still : next.maps i = true := by
      rw [PageTable.maps, same]
      exact valid
    exact (second.kept i still).trans same
  · rw [second.outside i (by omega), first.outside i (by omega)]
  · intro i one j two same
    dsimp only at same
    split at same <;> split at same <;> rename_i highI highJ
    · exact apart i (upper one highI) j (upper two highJ) same
    · exact absurd same (differ (upper one highI) (lower two highJ))
    · exact absurd same.symm (differ (upper two highJ) (lower one highI))
    · exact apart' i (lower one highI) j (lower two highJ) same
  · intro i listed
    dsimp only
    split <;> rename_i place
    · obtain ⟨frame, found, free, entry, used⟩ := owns i (upper listed place)
      refine ⟨frame, found, free, ?_, ?_⟩
      · rw [second.outside i (.inr place)]
        exact entry
      · rw [rest' _ fun j inside => (differ (upper listed place) inside).symm]
        exact used
    · obtain ⟨frame, found, free, entry, used⟩ := owns' i (lower listed place)
      refine ⟨frame, ?_, free, entry, used⟩
      rw [← rest _ fun j inside => differ inside (lower listed place)]
      exact found
  · intro k other
    have early : after.frames[k]? = list.frames[k]? := rest k fun i listed same => by
      obtain ⟨above, below, invalid⟩ := PageTable.mem_missing.mp listed
      exact other i (PageTable.mem_missing.mpr ⟨by omega, below, invalid⟩)
        ((if_pos above).trans same)
    have late : final.frames[k]? = after.frames[k]? := rest' k fun i listed same => by
      obtain ⟨above, below, invalid⟩ := PageTable.mem_missing.mp listed
      rw [PageTable.maps, first.outside i (.inl below)] at invalid
      exact other i (PageTable.mem_missing.mpr ⟨above, by omega, invalid⟩)
        ((if_neg (by omega)).trans same)
    exact late.trans early

/-- Each new page needs a free frame. -/
theorem card_le (grows : GrowsStack low high table list next after) :
    (table.missing low high).card ≤ list.freeSlots.card := by
  obtain ⟨slot, apart, owns, -⟩ := grows.own
  refine Finset.card_le_card_of_injOn slot (fun i listed => ?_) fun i one j two => apart i one j two
  obtain ⟨frame, found, free, -, -⟩ := owns i listed
  exact FrameList.mem_freeSlots.mpr ⟨frame, found, free⟩

end GrowsStack

/-- The loop of the memory trap ends with all pages mapped exactly when it finds enough frames, and
with enough frames in the array it grows the stack. -/
theorem growStack_grows (count : Nat) {high : Nat} {index : Int} {table : PageTable}
    (list : FrameList) (start : index + 1 = high) (enough : count ≤ high) (inside : high ≤ table.length) :
    ∃ mapped next after, growStack count index (table, list) = .ok (mapped, next, after) ∧
      (mapped = true ↔ (table.missing (high - count) high).card ≤
        list.freeSlots.card + list.past.isFree.toNat) ∧
      ((table.missing (high - count) high).card ≤ list.freeSlots.card →
        GrowsStack (high - count) high table list next after) := by
  induction count generalizing high index table list with
  | zero =>
      refine ⟨true, table, list, rfl, ?_, fun _ => .refl high table list⟩
      simp [PageTable.missing]
  | succ count ih =>
      obtain ⟨low, rfl⟩ : ∃ low, high = low + 1 := ⟨high - 1, by omega⟩
      obtain rfl : index = low := by omega
      have next : (low : Int) - 1 + 1 = low := by omega
      have short : low < table.length := by omega
      have read : readEntry table low = .ok table[low] := by
        rw [readEntry, if_pos (by omega), Int.toNat_natCast, List.getElem?_eq_getElem short]
      have valid : table.maps low = table[low].valid := by
        rw [PageTable.maps, List.getElem?_eq_getElem short]
        rfl
      rw [growStack, read, Outcome.ok_bind, Nat.add_sub_add_right,
        PageTable.card_missing_succ (Nat.sub_le _ _), valid]
      cases used : table[low].valid with
      | true =>
          obtain ⟨mapped, last, final, done, all, grows⟩ := ih list next (by omega) short.le
          refine ⟨mapped, last, final, done, ?_, fun frames => ?_⟩
          · simpa using all
          · exact .trans_down (by omega) (by omega) (.keep (valid.trans used))
              (grows (by simpa using frames))
      | false =>
          have write (pte : Pte) : setPageTableEntry table low pte = .ok (table.set low pte) := by
            rw [setPageTableEntry, if_pos ⟨by omega, by omega⟩, Int.toNat_natCast]
          have gets := FrameList.getFrame_gets list
          simp only [Bool.false_eq_true, if_false]
          generalize getFrame list = got at gets
          obtain ⟨found, after⟩ := got
          have kept (pte : Pte) : low ≤ (table.set low pte).length :=
            (short.trans_eq List.length_set.symm).le
          cases gets with
          | @slot k frame _ found free frames past =>
              have slot := FrameList.mem_freeSlots.mpr ⟨frame, found, free⟩
              have some := Finset.card_pos.mpr ⟨k, slot⟩
              obtain ⟨mapped, last, final, done, all, grows⟩ :=
                ih after next (by omega) (kept ⟨true, protReadWrite, frame.pfn⟩)
              rw [PageTable.missing_set, FrameList.freeSlots_set found frames,
                Finset.card_erase_of_mem slot] at all grows
              rw [past] at all
              refine ⟨mapped, last, final, ?_, all.trans (by omega), fun enough => ?_⟩
              · dsimp only
                rw [write, Outcome.ok_bind]
                exact done
              · exact .trans_down (by omega) (by omega)
                  (.take short (valid.trans used) found free frames) (grows (by omega))
          | past full free frames taken =>
              obtain ⟨mapped, last, final, done, all, -⟩ :=
                ih after next (by omega) (kept ⟨true, protReadWrite, list.past.pfn⟩)
              rw [PageTable.missing_set, FrameList.freeSlots_congr frames, full, taken] at all
              rw [full, free]
              refine ⟨mapped, last, final, ?_, ?_, fun enough => absurd enough (by simp)⟩
              · dsimp only
                rw [write, Outcome.ok_bind]
                exact done
              · simpa using all
          | missing full taken frames past =>
              rw [full, taken]
              exact ⟨false, table, after, rfl, by simp, fun enough => absurd enough (by simp)⟩

section
variable [Hardware]

/-- `handleTrapMemory` ends the process if it may not grow the stack or has too few frames, and
otherwise it maps the faulting page and all pages above it. -/
def ResolvesFault (addr : Nat) (s : Scheduler) : Prop :=
  ∃ t, handleTrapMemory addr s = .ok t ∧
    if addr / pageSize ≤ s.curr.brk / pageSize + 1 ∨ s.frameList.freeSlots.card <
        (s.curr.r1PageTable.missing (addr / pageSize - userBaseVpn) maxPtLen).card then
      t.cpu = .exit errorCode
    else t.cpu = s.cpu ∧ t.curr.r1PageTable.maps (addr / pageSize - userBaseVpn) = true ∧
      GrowsStack (addr / pageSize - userBaseVpn) maxPtLen s.curr.r1PageTable s.frameList
        t.curr.r1PageTable t.frameList

/-- The page may not be mapped, or it lies in the region and the loop does not hand out the memory
behind the array for the one frame that the array lacks. -/
def FaultFits (addr : Nat) (s : Scheduler) : Prop :=
  addr / pageSize ≤ s.curr.brk / pageSize + 1 ∨ addr / pageSize < 2 * maxPtLen ∧
    ¬((s.curr.r1PageTable.missing (addr / pageSize - userBaseVpn) maxPtLen).card =
      s.frameList.freeSlots.card + 1 ∧ s.frameList.past.isFree = true)

/-- Above the page behind the break the handler runs its loop and ends the process if it failed. -/
theorem handleTrapMemory_eq {s : Scheduler} {addr : Nat} {mapped : Bool} {next : PageTable}
    {after : FrameList} (far : ¬addr / pageSize ≤ s.curr.brk / pageSize + 1)
    (done : growStack (2 * maxPtLen - addr / pageSize) (maxPtLen - 1)
      (s.curr.r1PageTable, s.frameList) = .ok (mapped, next, after)) :
    ∃ t, handleTrapMemory addr s = .ok t ∧
      t.cpu = (if mapped then s.cpu else .exit errorCode) ∧ t.curr.r1PageTable = next ∧
        t.frameList = after := by
  have table : (s.setMemory (next, after)).curr.r1PageTable = next := by
    change (Function.update s.pcbs s.currPCB _ s.currPCB).r1PageTable = next
    rw [Function.update_self]
  rw [handleTrapMemory]
  dsimp only
  rw [if_neg far, done]
  cases mapped with
  | true => exact ⟨_, rfl, rfl, table, rfl⟩
  | false => exact ⟨_, rfl, rfl, table, rfl⟩

/-- A memory trap resolves the fault exactly when the fault fits. -/
theorem handleTrapMemory_resolves {s : Scheduler} (addr : Nat) (user : s.cpu = .user)
    (length : s.curr.r1PageTable.length = maxPtLen) (region : getAddressRegion s.curr.brk = 1) :
    ResolvesFault addr s ↔ FaultFits addr s := by
  obtain ⟨low, high⟩ := getAddressRegion_eq_one.mp region
  rw [ResolvesFault, FaultFits, userBaseVpn_eq]
  by_cases near : addr / pageSize ≤ s.curr.brk / pageSize + 1
  · simp only [near, true_or, if_true, iff_true]
    rw [handleTrapMemory]
    dsimp only
    rw [if_pos near]
    exact ⟨_, rfl, rfl⟩
  obtain ⟨mapped, next, after, done, all, grows⟩ :=
    growStack_grows (2 * maxPtLen - addr / pageSize) s.frameList (Int.sub_add_cancel maxPtLen 1)
      (by omega) length.ge
  obtain ⟨t, handled, cpu, table, frames⟩ := handleTrapMemory_eq near done
  have only : ∀ u, handleTrapMemory addr s = .ok u → u = t := fun u same =>
    Except.ok.inj (same.symm.trans handled)
  simp only [near, false_or]
  by_cases inside : addr / pageSize < 2 * maxPtLen
  swap
  · have empty : s.curr.r1PageTable.missing (addr / pageSize - maxPtLen) maxPtLen = ∅ := by
      rw [PageTable.missing, Finset.Ico_eq_empty (by omega), Finset.filter_empty]
    have outside : maxPtLen - (2 * maxPtLen - addr / pageSize) = maxPtLen := by omega
    rw [outside] at grows
    have kept := (grows (by simp [PageTable.missing])).length
    simp only [empty, inside, false_and, iff_false, Finset.card_empty]
    rintro ⟨u, same, -, maps, -⟩
    rw [only u same, table, PageTable.maps, List.getElem?_eq_none (by omega)] at maps
    cases maps
  have first : maxPtLen - (2 * maxPtLen - addr / pageSize) = addr / pageSize - maxPtLen := by
    omega
  rw [first] at all grows
  by_cases enough : (s.curr.r1PageTable.missing (addr / pageSize - maxPtLen) maxPtLen).card ≤
      s.frameList.freeSlots.card
  · have grown := grows enough
    rw [all.mpr (Nat.le_add_right_of_le enough), if_pos rfl] at cpu
    refine iff_of_true ⟨t, handled, ?_⟩ ⟨inside, fun short => by omega⟩
    rw [if_neg (not_lt.mpr enough), table, frames]
    exact ⟨cpu, grown.mapped _ le_rfl (by omega), grown⟩
  · simp only [not_le.mp enough, if_true, inside, true_and]
    cases mapped with
    | false =>
        refine iff_of_true ⟨t, handled, cpu⟩ ?_
        rintro ⟨one, past⟩
        rw [past, one] at all
        exact Bool.false_ne_true (all.mpr le_rfl)
    | true =>
        have taken := all.mp rfl
        refine iff_of_false ?_ (not_not_intro ?_)
        · rintro ⟨u, same, exits⟩
          rw [only u same, cpu, if_pos rfl, user] at exits
          cases exits
        · cases past : s.frameList.past.isFree with
          | true =>
              rw [past, Bool.toNat_true] at taken
              exact ⟨by omega, rfl⟩
          | false =>
              rw [past, Bool.toNat_false] at taken
              omega

end

section
attribute [local instance] smallHardware

/-- The running process has a page table of the right length and a break in region 1. -/
def canFault (s : Kernel) : Bool :=
  s.cpu.isUser && decide (s.curr.r1PageTable.length = maxPtLen) &&
    decide (getAddressRegion s.curr.brk = 1)

theorem canFault_eq_true {s : Kernel} (can : canFault s = true) :
    s.cpu = .user ∧ s.curr.r1PageTable.length = maxPtLen ∧ getAddressRegion s.curr.brk = 1 := by
  simp only [canFault, Bool.and_eq_true, decide_eq_true_eq] at can
  obtain ⟨⟨user, length⟩, region⟩ := can
  refine ⟨?_, length, region⟩
  cases point : s.cpu <;> first | rfl | (rw [point] at user; cases user)

/-- The first process touches a page two pages below its stack. -/
theorem handleTrapMemory_resolves_small :
    ∃ s : Kernel, yallnix.Reachable s ∧ (ResolvesFault 208 s.toScheduler ↔
      FaultFits 208 s.toScheduler) := by
  obtain ⟨s, reachable, can⟩ := exists_reachable canFault [] (by decide +kernel)
  obtain ⟨user, length, region⟩ := canFault_eq_true can
  exact ⟨s, reachable, handleTrapMemory_resolves 208 user length region⟩

/-- The handler returns without a change. -/
def ignores (addr : Nat) (s : Kernel) : Bool :=
  decide (s.curr.brk / pageSize + 1 < addr / pageSize) &&
    match handleTrapMemory addr s.toScheduler with
    | .ok t => t.cpu.isUser && !t.curr.r1PageTable.maps (addr / pageSize - userBaseVpn)
    | .error _ => false

/-- The first process touches an address above region 1, and the page stays unmapped. -/
theorem resolvesFault_false :
    ∃ s : Kernel, yallnix.Reachable s ∧ canFault s = true ∧ ¬ResolvesFault 300 s.toScheduler := by
  obtain ⟨s, reachable, tested⟩ := exists_reachable (fun s => canFault s && ignores 300 s) []
    (by decide +kernel)
  rw [Bool.and_eq_true] at tested
  refine ⟨s, reachable, tested.1, ?_⟩
  rintro ⟨t, handled, resolves⟩
  have ignored := tested.2
  rw [ignores, handled, Bool.and_eq_true, Bool.and_eq_true] at ignored
  obtain ⟨-, user, unmapped⟩ := ignored
  split at resolves
  · rw [resolves] at user
    cases user
  · rw [resolves.2.1] at unmapped
    cases unmapped

end

end Yallnix

import Yallnix.Construction.Hardware
import Mathlib.Data.List.Range

namespace Yallnix

section
variable [Hardware]

/-- The first page that starts at or above an address. -/
def pageCeil (addr : Nat) : Nat := (addr + pageSize - 1) / pageSize

theorem pageCeil_le {addr page : Nat} : pageCeil addr ≤ page ↔ addr ≤ page * pageSize := by
  have size := pageSize_pos
  rw [pageCeil, ← Nat.lt_succ_iff, Nat.div_lt_iff_lt_mul size, Nat.succ_mul]
  omega

theorem lt_pageCeil {addr page : Nat} : page < pageCeil addr ↔ page * pageSize < addr := by
  rw [← Nat.not_le, pageCeil_le, Nat.not_le]

theorem pageCeil_mono {low high : Nat} (le : low ≤ high) : pageCeil low ≤ pageCeil high :=
  pageCeil_le.mpr (le.trans (pageCeil_le.mp le_rfl))

theorem pageCeil_mul (page : Nat) : pageCeil (page * pageSize) = page :=
  le_antisymm (pageCeil_le.mpr le_rfl)
    (Nat.le_of_mul_le_mul_right (pageCeil_le.mp le_rfl) pageSize_pos)

/-- An address at the start of a page belongs to its own page. -/
theorem pageCeil_eq (addr : Nat) :
    pageCeil addr = if downToPage addr = addr then addr / pageSize else addr / pageSize + 1 := by
  have size := pageSize_pos
  have split := Nat.div_add_mod' addr pageSize
  have below := Nat.mod_lt addr size
  unfold downToPage
  split
  · rename_i aligned
    refine le_antisymm (pageCeil_le.mpr aligned.ge) ?_
    rw [Nat.div_le_iff_le_mul_add_pred size]
    have above := pageCeil_le.mp (le_refl (pageCeil addr))
    rw [Nat.mul_comm]
    omega
  · rename_i inside
    refine le_antisymm (pageCeil_le.mpr ?_) (lt_pageCeil.mpr ?_)
    · rw [Nat.succ_mul]
      omega
    · omega

/-- The pages that start in a range of addresses, in order. -/
def pagesBetween (low high : Nat) : List Nat :=
  List.range' (pageCeil low) (pageCeil high - pageCeil low)

theorem mem_pagesBetween {low high page : Nat} :
    page ∈ pagesBetween low high ↔ low ≤ page * pageSize ∧ page * pageSize < high := by
  rw [pagesBetween, List.mem_range'_1, ← pageCeil_le, ← lt_pageCeil]
  omega

theorem nodup_pagesBetween (low high : Nat) : (pagesBetween low high).Nodup :=
  List.nodup_range'

/-- The three cases of the page comparison unmap or map the pages between the two breaks. -/
theorem breakCases_eq {A : Type} (addr currBrk : Nat) (unmap map : Nat → Nat → A) {keep : A}
    (unmapNone : ∀ page, unmap 0 page = keep) (mapNone : ∀ page, map 0 page = keep) :
    (if addr / pageSize < currBrk / pageSize then
        unmap ((if downToPage currBrk = currBrk then currBrk / pageSize - 1
            else currBrk / pageSize) + 1 -
          if downToPage addr = addr then addr / pageSize else addr / pageSize + 1)
          (if downToPage addr = addr then addr / pageSize else addr / pageSize + 1)
      else if addr / pageSize = currBrk / pageSize then
        if addr < currBrk ∧ downToPage addr = addr then unmap 1 (addr / pageSize)
        else if currBrk < addr ∧ downToPage currBrk = currBrk then map 1 (addr / pageSize)
        else keep
      else
        map ((if downToPage addr = addr then addr / pageSize - 1 else addr / pageSize) + 1 -
          if downToPage currBrk = currBrk then currBrk / pageSize else currBrk / pageSize + 1)
          (if downToPage currBrk = currBrk then currBrk / pageSize else currBrk / pageSize + 1)) =
      if addr < currBrk then unmap (pageCeil currBrk - pageCeil addr) (pageCeil addr)
      else map (pageCeil addr - pageCeil currBrk) (pageCeil currBrk) := by
  have lower : addr / pageSize < currBrk / pageSize → addr < currBrk := fun less =>
    lt_of_not_ge fun le => Nat.not_lt.mpr (Nat.div_le_div_right le) less
  have higher : currBrk / pageSize < addr / pageSize → currBrk < addr := fun less =>
    lt_of_not_ge fun le => Nat.not_lt.mpr (Nat.div_le_div_right le) less
  have newPage := pageCeil_eq addr
  have oldPage := pageCeil_eq currBrk
  have newFloor : downToPage addr ≤ addr := Nat.div_mul_le_self _ _
  have oldFloor : downToPage currBrk ≤ currBrk := Nat.div_mul_le_self _ _
  have sameFloor : addr / pageSize = currBrk / pageSize → downToPage addr = downToPage currBrk :=
    fun same => congrArg (· * pageSize) same
  rw [← newPage, ← oldPage]
  generalize addr / pageSize = addrVpn at *
  generalize currBrk / pageSize = currBrkVpn at *
  by_cases less : addrVpn < currBrkVpn
  · have last : (if downToPage currBrk = currBrk then currBrkVpn - 1 else currBrkVpn) + 1 =
        pageCeil currBrk := by
      rw [oldPage]
      split <;> omega
    rw [if_pos less, if_pos (lower less), last]
  rw [if_neg less]
  by_cases same : addrVpn = currBrkVpn
  · have floors := sameFloor same
    rw [if_pos same]
    by_cases shrinks : addr < currBrk
    · have ceil : pageCeil currBrk = addrVpn + 1 := by
        rw [oldPage, if_neg (by omega), same]
      rw [if_pos shrinks, ceil, newPage]
      by_cases aligned : downToPage addr = addr
      · rw [if_pos ⟨shrinks, aligned⟩, if_pos aligned, Nat.add_sub_cancel_left]
      · rw [if_neg fun both => aligned both.2, if_neg aligned, Nat.sub_self,
          if_neg fun both => absurd both.1 (by omega), unmapNone]
    · rw [if_neg fun both => shrinks both.1, if_neg shrinks]
      by_cases grows : currBrk < addr ∧ downToPage currBrk = currBrk
      · have ceil : pageCeil addr = addrVpn + 1 := by
          rw [newPage, if_neg (by omega)]
        rw [if_pos grows, ceil, oldPage, if_pos grows.2, ← same, Nat.add_sub_cancel_left]
      · have none : pageCeil addr - pageCeil currBrk = 0 := by
          rw [newPage, oldPage]
          split <;> split <;> omega
        rw [if_neg grows, none, mapNone]
  · have last : (if downToPage addr = addr then addrVpn - 1 else addrVpn) + 1 = pageCeil addr := by
      rw [newPage]
      split <;> omega
    have grows := higher (by omega)
    rw [if_neg same, last, if_neg (by omega : ¬addr < currBrk)]

end

end Yallnix

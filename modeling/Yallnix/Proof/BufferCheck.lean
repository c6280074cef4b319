import Yallnix.Construction.GeneralKernelCalls
import Yallnix.Construction.SmallMachine
import Yallnix.Proof.PageRange

namespace Yallnix

/-- A valid page includes the wanted protection. -/
def Pte.allows (pte : Pte) (prot : Prot) : Bool := pte.valid && pte.prot.includes prot

/-- The loop of `isValidBuffer` reads these entries before it answers. -/
def pagesRead (table : Nat → Pte) (prot : Prot) : Nat → Nat → List Nat
  | 0, _ => []
  | pages + 1, index =>
      index :: if (table index).allows prot then pagesRead table prot pages (index + 1) else []

theorem isValidPages_eq_true {table : Nat → Pte} {prot : Prot} {pages index : Nat} :
    isValidPages table prot pages index = true ↔
      ∀ i, index ≤ i → i < index + pages → (table i).allows prot = true := by
  induction pages generalizing index with
  | zero =>
      simp only [isValidPages, true_iff]
      intro i above below
      omega
  | succ pages ih =>
      rw [isValidPages, Bool.and_eq_true, ih]
      constructor
      · rintro ⟨first, rest⟩ i above below
        by_cases same : i = index
        · subst same
          exact first
        · exact rest i (by omega) (by omega)
      · intro all
        exact ⟨all index le_rfl (by omega), fun i above below => all i (by omega) (by omega)⟩

theorem mem_pagesRead {table : Nat → Pte} {prot : Prot} {pages index i : Nat} :
    i ∈ pagesRead table prot pages index ↔
      index ≤ i ∧ i < index + pages ∧
        ∀ j, index ≤ j → j < i → (table j).allows prot = true := by
  induction pages generalizing index with
  | zero =>
      simp only [pagesRead, List.not_mem_nil, false_iff]
      omega
  | succ pages ih =>
      rw [pagesRead, List.mem_cons]
      by_cases same : i = index
      · subst same
        simp only [true_or, true_iff]
        exact ⟨le_rfl, by omega, fun j above below => by omega⟩
      · simp only [same, false_or]
        split
        · rename_i allowed
          rw [ih]
          constructor
          · rintro ⟨above, below, before⟩
            refine ⟨by omega, by omega, fun j low high => ?_⟩
            by_cases first : j = index
            · subst first
              exact allowed
            · exact before j (by omega) high
          · rintro ⟨above, below, before⟩
            exact ⟨by omega, by omega, fun j low high => before j (by omega) high⟩
        · rename_i refused
          simp only [List.not_mem_nil, false_iff]
          rintro ⟨above, -, before⟩
          exact refused (before index le_rfl (by omega))

/-- The answer depends only on the entries that the loop reads. -/
theorem isValidPages_congr {table other : Nat → Pte} {prot : Prot} {pages index : Nat}
    (same : ∀ i ∈ pagesRead table prot pages index, table i = other i) :
    isValidPages table prot pages index = isValidPages other prot pages index := by
  induction pages generalizing index with
  | zero => rfl
  | succ pages ih =>
      have first := same index (by simp [pagesRead])
      rw [isValidPages, isValidPages, ← first]
      cases allowed : (table index).allows prot with
      | false =>
          rw [Pte.allows] at allowed
          rw [allowed, Bool.false_and, Bool.false_and]
      | true =>
          rw [ih fun i listed => same i (by simp [pagesRead, allowed, listed])]

section
variable [Hardware]

/-- The number of pages that the loop of `isValidBuffer` visits. -/
def pagesChecked (len : Int) : Nat := pageCeil len.toNat

/-- The page of the last byte of a buffer. -/
def lastPageVpn (buffer : Nat) (len : Int) : Nat := (buffer + len.toNat - 1) / pageSize

/-- `isValidBuffer` reads these entries of the table of one region. -/
def bufferReads (r0 r1 : Nat → Pte) (buffer : Nat) (len : Int) (prot : Prot) : List Nat :=
  let firstPageVpn := buffer / pageSize
  if firstPageVpn < maxPtLen then pagesRead r0 prot (pagesChecked len) firstPageVpn
  else if firstPageVpn < maxPtLen * 2 then
    pagesRead r1 prot (pagesChecked len) (firstPageVpn - userBaseVpn)
  else []

/-- All bytes lie in one region, and each page with one of them allows the access. -/
def BufferValid (r0 r1 : Nat → Pte) (buffer : Nat) (len : Int) (prot : Prot) : Prop :=
  (∀ addr, buffer ≤ addr → addr < buffer + len.toNat →
    getAddressRegion addr = 0 ∧ (r0 (addr / pageSize)).allows prot = true) ∨
  (∀ addr, buffer ≤ addr → addr < buffer + len.toNat →
    getAddressRegion addr = 1 ∧ (r1 (addr / pageSize - userBaseVpn)).allows prot = true)

/-- Some visited page of the region refuses, or the page of the last byte lies in the region and
allows the access. -/
def PagesDecide (table : Nat → Pte) (prot : Prot) (first pages last : Nat) : Prop :=
  (∃ i, first ≤ i ∧ i < first + pages ∧ i < maxPtLen ∧ (table i).allows prot = false) ∨
    last < maxPtLen ∧ (table last).allows prot = true

/-- The buffer begins outside both regions, or the visited pages decide its validity. -/
def BufferDecided (r0 r1 : Nat → Pte) (buffer : Nat) (len : Int) (prot : Prot) : Prop :=
  let firstPageVpn := buffer / pageSize
  if firstPageVpn < maxPtLen then
    PagesDecide r0 prot firstPageVpn (pagesChecked len) (lastPageVpn buffer len)
  else if firstPageVpn < maxPtLen * 2 then
    PagesDecide r1 prot (firstPageVpn - userBaseVpn) (pagesChecked len)
      (lastPageVpn buffer len - userBaseVpn)
  else True

/-- The loop visits every page of a buffer, or it stops one page short. -/
theorem lastPageVpn_bounds (buffer : Nat) {len : Int} (positive : 0 < len) :
    buffer / pageSize + pagesChecked len ≤ lastPageVpn buffer len + 1 ∧
      lastPageVpn buffer len ≤ buffer / pageSize + pagesChecked len := by
  have size := pageSize_pos
  have bytes : 0 < len.toNat := by omega
  rw [pagesChecked, lastPageVpn]
  generalize len.toNat = n at bytes
  constructor
  · rw [← Nat.add_div_right _ size, pageCeil]
    refine (Nat.div_add_div_le_add_div).trans (Nat.div_le_div_right ?_)
    omega
  · rw [← Nat.lt_succ_iff, Nat.div_lt_iff_lt_mul size, Nat.succ_mul, Nat.add_mul]
    have covered := pageCeil_le.mp (le_refl (pageCeil n))
    have inside := Nat.lt_div_mul_add size (a := buffer)
    omega

/-- The loop over one table is right and stays inside the table exactly when its pages decide. -/
theorem isValidPages_decides {table : Nat → Pte} {prot : Prot} {first pages last : Nat}
    (start : first < maxPtLen) (nonempty : 0 < pages) (covers : first + pages ≤ last + 1)
    (near : last ≤ first + pages) :
    ((isValidPages table prot pages first = true ↔
        last < maxPtLen ∧ ∀ i, first ≤ i → i ≤ last → (table i).allows prot = true) ∧
      ∀ i ∈ pagesRead table prot pages first, i < maxPtLen) ↔
      PagesDecide table prot first pages last := by
  rw [isValidPages_eq_true]
  constructor
  · rintro ⟨answer, inside⟩
    by_cases refuses : ∃ i, first ≤ i ∧ i < first + pages ∧ i < maxPtLen ∧
        (table i).allows prot = false
    · exact Or.inl refuses
    · have allowed : ∀ i, first ≤ i → i < first + pages → i < maxPtLen →
          (table i).allows prot = true := fun i above below short => by
        by_contra refused
        exact refuses ⟨i, above, below, short, Bool.eq_false_of_not_eq_true refused⟩
      have short : first + pages ≤ maxPtLen := by
        by_contra beyond
        refine absurd (inside maxPtLen (mem_pagesRead.mpr ⟨start.le, by omega, ?_⟩)) (lt_irrefl _)
        exact fun j above below => allowed j above (by omega) below
      obtain ⟨lastInside, all⟩ := answer.mp fun i above below => allowed i above below (by omega)
      exact Or.inr ⟨lastInside, all last (by omega) le_rfl⟩
  · rintro (⟨i, above, below, short, refused⟩ | ⟨lastInside, lastAllowed⟩)
    · refine ⟨⟨fun all => ?_, fun both => ?_⟩, fun j listed => ?_⟩
      · rw [all i above below] at refused
        cases refused
      · rw [both.2 i above (by omega)] at refused
        cases refused
      · obtain ⟨low, high, before⟩ := mem_pagesRead.mp listed
        by_contra outside
        rw [before i above (by omega)] at refused
        cases refused
    · refine ⟨⟨fun all => ⟨lastInside, fun i above below => ?_⟩, fun both i above below => ?_⟩,
        fun j listed => ?_⟩
      · by_cases same : i = last
        · rw [same]
          exact lastAllowed
        · exact all i above (by omega)
      · exact both.2 i above (by omega)
      · obtain ⟨low, high, -⟩ := mem_pagesRead.mp listed
        omega

/-- A condition on every byte of a buffer is a condition on each of its pages. -/
theorem forall_buffer_iff {buffer : Nat} {len : Int} (positive : 0 < len) (page : Nat → Prop) :
    (∀ addr, buffer ≤ addr → addr < buffer + len.toNat → page (addr / pageSize)) ↔
      ∀ vpn, buffer / pageSize ≤ vpn → vpn ≤ lastPageVpn buffer len → page vpn := by
  have size := pageSize_pos
  rw [lastPageVpn]
  constructor
  · intro bytes vpn above below
    have reached := (Nat.le_div_iff_mul_le size).mp below
    have inside := (Nat.div_lt_iff_lt_mul size).mp (Nat.lt_succ_of_le above)
    rw [Nat.succ_mul] at inside
    by_cases start : buffer ≤ vpn * pageSize
    · have holds := bytes (vpn * pageSize) start (by omega)
      rwa [Nat.mul_div_cancel _ size] at holds
    · have same : buffer / pageSize = vpn :=
        le_antisymm above ((Nat.le_div_iff_mul_le size).mpr (by omega))
      rw [← same]
      exact bytes buffer le_rfl (by omega)
  · intro pages addr above below
    exact pages _ (Nat.div_le_div_right above) (Nat.div_le_div_right (by omega))

theorem getAddressRegion_eq_zero {addr : Nat} :
    getAddressRegion addr = 0 ↔ addr / pageSize < maxPtLen := by
  have size := pageSize_pos
  rw [Nat.div_lt_iff_lt_mul size]
  unfold getAddressRegion vmem1Base
  split
  · omega
  · split <;> omega

theorem getAddressRegion_eq_one {addr : Nat} :
    getAddressRegion addr = 1 ↔ maxPtLen ≤ addr / pageSize ∧ addr / pageSize < 2 * maxPtLen := by
  have size := pageSize_pos
  rw [Nat.div_lt_iff_lt_mul size, Nat.le_div_iff_mul_le size]
  unfold getAddressRegion vmem1Base vmem1Limit
  split
  · omega
  · split <;> omega

/-- The buffer is valid in the region of its first page exactly when its pages are. -/
theorem bufferValid_iff {r0 r1 : Nat → Pte} {buffer : Nat} {len : Int} {prot : Prot}
    (positive : 0 < len) :
    BufferValid r0 r1 buffer len prot ↔
      if buffer / pageSize < maxPtLen then
        lastPageVpn buffer len < maxPtLen ∧ ∀ i, buffer / pageSize ≤ i →
          i ≤ lastPageVpn buffer len → (r0 i).allows prot = true
      else if buffer / pageSize < maxPtLen * 2 then
        lastPageVpn buffer len - userBaseVpn < maxPtLen ∧ ∀ i, buffer / pageSize - userBaseVpn ≤ i →
          i ≤ lastPageVpn buffer len - userBaseVpn → (r1 i).allows prot = true
      else False := by
  have reached : buffer / pageSize ≤ lastPageVpn buffer len :=
    Nat.div_le_div_right (by omega)
  rw [BufferValid]
  simp only [getAddressRegion_eq_zero, getAddressRegion_eq_one]
  rw [forall_buffer_iff positive fun vpn => vpn < maxPtLen ∧ (r0 vpn).allows prot = true,
    forall_buffer_iff positive fun vpn => (maxPtLen ≤ vpn ∧ vpn < 2 * maxPtLen) ∧
      (r1 (vpn - userBaseVpn)).allows prot = true]
  simp only [userBaseVpn_eq]
  generalize buffer / pageSize = first at *
  generalize lastPageVpn buffer len = last at *
  split
  · rename_i inside
    constructor
    · rintro (pages | pages)
      · exact ⟨(pages last reached le_rfl).1, fun i above below => (pages i above below).2⟩
      · have outside := (pages first le_rfl reached).1.1
        omega
    · rintro ⟨below, pages⟩
      exact Or.inl fun i low high => ⟨by omega, pages i low high⟩
  · rename_i outside
    split
    · rename_i inside
      constructor
      · rintro (pages | pages)
        · exact absurd (pages first le_rfl reached).1 outside
        · have below := (pages last reached le_rfl).1.2
          refine ⟨by omega, fun i low high => ?_⟩
          have allowed := (pages (i + maxPtLen) (by omega) (by omega)).2
          rwa [Nat.add_sub_cancel] at allowed
      · rintro ⟨below, pages⟩
        exact Or.inr fun i low high => ⟨by omega, pages _ (by omega) (by omega)⟩
    · rename_i above
      simp only [iff_false]
      rintro (pages | pages)
      · exact outside (pages first le_rfl reached).1
      · have below := (pages first le_rfl reached).1.2
        omega

/-- `isValidBuffer` decides the validity of a buffer from its own region exactly when the pages
that its loop visits decide it. -/
theorem isValidBuffer_decides (r0 r1 : Nat → Pte) {buffer : Nat} {len : Int} (prot : Prot)
    (notNull : buffer ≠ 0) (positive : 0 < len) :
    ((isValidBuffer r0 r1 buffer len prot = true ↔ BufferValid r0 r1 buffer len prot) ∧
      ∀ index ∈ bufferReads r0 r1 buffer len prot, index < maxPtLen) ↔
      BufferDecided r0 r1 buffer len prot := by
  obtain ⟨covers, near⟩ := lastPageVpn_bounds buffer positive
  have nonempty : 0 < pagesChecked len := lt_pageCeil.mpr (by omega)
  have count : (len.toNat + pageSize - 1) / pageSize = pagesChecked len := rfl
  have notShort : ¬len ≤ 0 := by omega
  rw [bufferValid_iff positive, isValidBuffer, if_neg notNull, if_neg notShort, bufferReads,
    BufferDecided, count]
  simp only [userBaseVpn_eq]
  generalize buffer / pageSize = first at *
  generalize lastPageVpn buffer len = last at *
  split
  · rename_i inside
    exact isValidPages_decides inside nonempty covers near
  · split
    · exact isValidPages_decides (by omega) nonempty (by omega) (by omega)
    · simp

end

section
attribute [local instance] smallHardware

/-- Only the first page of the region is mapped. -/
def onePageMapped (index : Nat) : Pte :=
  if index = 0 then ⟨true, protReadWrite, 0⟩ else ⟨false, protNone, 0⟩

/-- Two bytes inside the mapped page are decided. -/
theorem isValidBuffer_decides_onePage :
    ((isValidBuffer (fun _ => ⟨false, protNone, 0⟩) onePageMapped 140 2 ⟨true, false, false⟩ = true ↔
        BufferValid (fun _ => ⟨false, protNone, 0⟩) onePageMapped 140 2 ⟨true, false, false⟩) ∧
      ∀ index ∈ bufferReads (fun _ => ⟨false, protNone, 0⟩) onePageMapped 140 2
        ⟨true, false, false⟩, index < maxPtLen) ↔
      BufferDecided (fun _ => ⟨false, protNone, 0⟩) onePageMapped 140 2 ⟨true, false, false⟩ :=
  isValidBuffer_decides _ _ _ (by decide) (by decide)

/-- The second of two bytes lies in an unmapped page that the loop does not visit. -/
theorem isValidBuffer_unvisited :
    ¬((isValidBuffer (fun _ => ⟨false, protNone, 0⟩) onePageMapped 143 2 ⟨true, false, false⟩ = true ↔
        BufferValid (fun _ => ⟨false, protNone, 0⟩) onePageMapped 143 2 ⟨true, false, false⟩) ∧
      ∀ index ∈ bufferReads (fun _ => ⟨false, protNone, 0⟩) onePageMapped 143 2
        ⟨true, false, false⟩, index < maxPtLen) := by
  rintro ⟨answer, -⟩
  rcases answer.mp (by decide) with bytes | bytes
  · exact absurd (bytes 143 (by decide) (by decide)).1 (by decide)
  · exact absurd (bytes 144 (by decide) (by decide)).2 (by decide)

end

end Yallnix

import Yallnix.Proof.BufferCheck

namespace Yallnix

/-- The inner loop of `isValidString` reads these bytes. -/
def charsRead (memory : Nat → Byte) : Nat → Nat → List Nat
  | 0, _ => []
  | count + 1, currChar =>
      currChar :: if memory currChar == 0 then [] else charsRead memory count (currChar + 1)

theorem hasZero_eq_true {memory : Nat → Byte} {count currChar : Nat} :
    hasZero memory count currChar = true ↔
      ∃ addr, currChar ≤ addr ∧ addr < currChar + count ∧ memory addr = 0 := by
  induction count generalizing currChar with
  | zero =>
      simp only [hasZero, Bool.false_eq_true, false_iff]
      rintro ⟨addr, above, below, -⟩
      omega
  | succ count ih =>
      rw [hasZero, Bool.or_eq_true, beq_iff_eq, ih]
      constructor
      · rintro (zero | ⟨addr, above, below, zero⟩)
        · exact ⟨currChar, le_rfl, by omega, zero⟩
        · exact ⟨addr, by omega, by omega, zero⟩
      · rintro ⟨addr, above, below, zero⟩
        by_cases same : addr = currChar
        · exact Or.inl (same ▸ zero)
        · exact Or.inr ⟨addr, by omega, by omega, zero⟩

theorem mem_charsRead {memory : Nat → Byte} {count currChar addr : Nat} :
    addr ∈ charsRead memory count currChar ↔
      currChar ≤ addr ∧ addr < currChar + count ∧
        ∀ before, currChar ≤ before → before < addr → memory before ≠ 0 := by
  induction count generalizing currChar with
  | zero =>
      simp only [charsRead, List.not_mem_nil, false_iff]
      omega
  | succ count ih =>
      rw [charsRead, List.mem_cons]
      by_cases same : addr = currChar
      · subst same
        simp only [true_or, true_iff]
        exact ⟨le_rfl, by omega, fun before above below => by omega⟩
      · simp only [same, false_or, beq_iff_eq]
        split
        · rename_i zero
          simp only [List.not_mem_nil, false_iff]
          rintro ⟨above, -, others⟩
          exact others currChar le_rfl (by omega) zero
        · rename_i nonzero
          rw [ih]
          constructor
          · rintro ⟨above, below, others⟩
            refine ⟨by omega, by omega, fun before low high => ?_⟩
            by_cases first : before = currChar
            · rw [first]
              exact nonzero
            · exact others before (by omega) high
          · rintro ⟨above, below, others⟩
            exact ⟨by omega, by omega, fun before low high => others before (by omega) high⟩

section
variable [Hardware]

/-- The loop of `isValidString` reads these bytes. -/
def stringPagesRead (currPte : Pte) (memory : Nat → Byte) : Nat → Nat → Nat → List Nat
  | 0, _, _ => []
  | pages + 1, currChar, nextPageBase =>
      if !(currPte.valid && currPte.prot.includes protRead) then []
      else charsRead memory (nextPageBase - currChar) currChar ++
        if hasZero memory (nextPageBase - currChar) currChar then []
        else stringPagesRead currPte memory pages nextPageBase (nextPageBase + pageSize)

/-- `isValidString` reads these bytes. -/
def stringReads (r0 r1 : Nat → Pte) (memory : Nat → Byte) (string : Nat) : List Nat :=
  if string = 0 then []
  else
    let firstPageVpn := string / pageSize
    let nextPageBase := firstPageVpn * pageSize + pageSize
    if firstPageVpn < maxPtLen then
      stringPagesRead (r0 firstPageVpn) memory (maxPtLen - firstPageVpn) string nextPageBase
    else if firstPageVpn < maxPtLen * 2 then
      stringPagesRead (r1 (firstPageVpn - userBaseVpn)) memory (maxPtLen * 2 - firstPageVpn)
        string nextPageBase
    else []

/-- The page lies in a region, and its own entry is valid and readable. -/
def pageReadable (r0 r1 : Nat → Pte) (vpn : Nat) : Bool :=
  if vpn < maxPtLen then (r0 vpn).allows protRead
  else if vpn < maxPtLen * 2 then (r1 (vpn - userBaseVpn)).allows protRead
  else false

/-- The string ends in its region, and each page of it is readable. -/
def StringValid (r0 r1 : Nat → Pte) (memory : Nat → Byte) (string : Nat) : Prop :=
  ∃ last, string ≤ last ∧ getAddressRegion last = getAddressRegion string ∧ memory last = 0 ∧
    ∀ vpn, string / pageSize ≤ vpn → vpn ≤ last / pageSize → pageReadable r0 r1 vpn = true

/-- Each page of the region from the first one to that of the first zero byte is readable. -/
def StringPagesReadable (r0 r1 : Nat → Pte) (memory : Nat → Byte) (string : Nat) : Prop :=
  ∀ vpn, string / pageSize ≤ vpn →
    getAddressRegion (vpn * pageSize) = getAddressRegion string →
      (∀ addr, string ≤ addr → addr < vpn * pageSize → memory addr ≠ 0) →
        pageReadable r0 r1 vpn = true

/-- The string is NULL and no string begins there, or its first page is bad, or its pages are
readable. -/
def StringDecided (r0 r1 : Nat → Pte) (memory : Nat → Byte) (string : Nat) : Prop :=
  if string = 0 then ¬StringValid r0 r1 memory 0
  else pageReadable r0 r1 (string / pageSize) = false ∨ StringPagesReadable r0 r1 memory string

/-- With a good first entry the loop finds any zero byte up to the end of the region. -/
theorem isValidStringPages_eq_true {currPte : Pte} {memory : Nat → Byte}
    (good : currPte.allows protRead = true) {pages currChar base : Nat} (above : base ≤ currChar)
    (near : currChar ≤ base + pageSize) :
    isValidStringPages currPte memory pages currChar (base + pageSize) = true ↔
      ∃ addr, currChar ≤ addr ∧ addr < base + pages * pageSize ∧ memory addr = 0 := by
  induction pages generalizing currChar base with
  | zero =>
      simp only [isValidStringPages, Bool.false_eq_true, false_iff]
      rintro ⟨addr, low, high, -⟩
      omega
  | succ pages ih =>
      rw [Pte.allows] at good
      rw [isValidStringPages, good, Bool.not_true, if_neg Bool.false_ne_true, Nat.succ_mul]
      split
      · rename_i found
        obtain ⟨addr, low, high, zero⟩ := hasZero_eq_true.mp found
        exact ⟨fun _ => ⟨addr, low, by omega, zero⟩, fun _ => rfl⟩
      · rename_i missing
        rw [ih le_rfl (Nat.le_add_right _ _)]
        constructor
        · rintro ⟨addr, low, high, zero⟩
          exact ⟨addr, by omega, by omega, zero⟩
        · rintro ⟨addr, low, high, zero⟩
          have later : base + pageSize ≤ addr := by
            by_contra early
            exact missing (hasZero_eq_true.mpr ⟨addr, low, by omega, zero⟩)
          exact ⟨addr, later, by omega, zero⟩

/-- With a good first entry the loop reads all bytes up to the first zero byte. -/
theorem mem_stringPagesRead {currPte : Pte} {memory : Nat → Byte}
    (good : currPte.allows protRead = true) {pages currChar base addr : Nat}
    (above : base ≤ currChar) (near : currChar ≤ base + pageSize) :
    addr ∈ stringPagesRead currPte memory pages currChar (base + pageSize) ↔
      currChar ≤ addr ∧ addr < base + pages * pageSize ∧
        ∀ before, currChar ≤ before → before < addr → memory before ≠ 0 := by
  induction pages generalizing currChar base with
  | zero =>
      simp only [stringPagesRead, List.not_mem_nil, false_iff]
      rintro ⟨low, high, -⟩
      omega
  | succ pages ih =>
      rw [Pte.allows] at good
      rw [stringPagesRead, good, Bool.not_true, if_neg Bool.false_ne_true, List.mem_append,
        mem_charsRead, Nat.succ_mul]
      split
      · rename_i found
        obtain ⟨ending, low, high, isZero⟩ := hasZero_eq_true.mp found
        simp only [List.not_mem_nil, or_false]
        constructor
        · rintro ⟨first, last, others⟩
          exact ⟨first, by omega, others⟩
        · rintro ⟨first, last, others⟩
          have early : addr ≤ ending := by
            by_contra late
            exact others ending low (by omega) isZero
          exact ⟨first, by omega, others⟩
      · rename_i missing
        have nonzero : ∀ before, currChar ≤ before → before < base + pageSize →
            memory before ≠ 0 := fun before low high isZero =>
          missing (hasZero_eq_true.mpr ⟨before, low, by omega, isZero⟩)
        rw [ih le_rfl (Nat.le_add_right _ _)]
        constructor
        · rintro (⟨first, last, others⟩ | ⟨first, last, others⟩)
          · exact ⟨first, by omega, others⟩
          · refine ⟨by omega, by omega, fun before low high => ?_⟩
            by_cases early : before < base + pageSize
            · exact nonzero before low early
            · exact others before (by omega) high
        · rintro ⟨first, last, others⟩
          by_cases early : addr < base + pageSize
          · exact Or.inl ⟨first, by omega, others⟩
          · exact Or.inr ⟨by omega, by omega, fun before low high => others before (by omega) high⟩

/-- With a bad first entry the loop refuses and reads nothing. -/
theorem isValidStringPages_bad {currPte : Pte} (memory : Nat → Byte)
    (bad : currPte.allows protRead = false) (pages currChar nextPageBase : Nat) :
    isValidStringPages currPte memory pages currChar nextPageBase = false ∧
      stringPagesRead currPte memory pages currChar nextPageBase = [] := by
  rw [Pte.allows] at bad
  cases pages with
  | zero => exact ⟨rfl, rfl⟩
  | succ pages =>
      rw [isValidStringPages, stringPagesRead, bad]
      exact ⟨rfl, rfl⟩

/-- The loop over one region is right and reads only good pages exactly when the first page is bad
or all pages of the string are readable. -/
theorem isValidStringPages_decides {currPte : Pte} {memory : Nat → Byte} {string maxVpn : Nat}
    {readable : Nat → Bool} (start : string / pageSize < maxVpn)
    (own : readable (string / pageSize) = currPte.allows protRead) :
    ((isValidStringPages currPte memory (maxVpn - string / pageSize) string
          (string / pageSize * pageSize + pageSize) = true ↔
        ∃ last, string ≤ last ∧ last < maxVpn * pageSize ∧ memory last = 0 ∧
          ∀ vpn, string / pageSize ≤ vpn → vpn ≤ last / pageSize → readable vpn = true) ∧
      ∀ addr ∈ stringPagesRead currPte memory (maxVpn - string / pageSize) string
        (string / pageSize * pageSize + pageSize), readable (addr / pageSize) = true) ↔
      readable (string / pageSize) = false ∨
        ∀ vpn, string / pageSize ≤ vpn → vpn < maxVpn →
          (∀ addr, string ≤ addr → addr < vpn * pageSize → memory addr ≠ 0) →
            readable vpn = true := by
  have size := pageSize_pos
  cases good : currPte.allows protRead with
  | false =>
      obtain ⟨refused, nothing⟩ := isValidStringPages_bad memory good
        (maxVpn - string / pageSize) string (string / pageSize * pageSize + pageSize)
      rw [refused, nothing, own, good]
      simp only [Bool.false_eq_true, false_iff, List.not_mem_nil, false_imp_iff, implies_true,
        and_true, true_or, iff_true]
      rintro ⟨last, above, -, -, pages⟩
      have first := pages _ le_rfl (Nat.div_le_div_right above)
      rw [own, good] at first
      cases first
  | true =>
      have above : string / pageSize * pageSize ≤ string := Nat.div_mul_le_self _ _
      have near : string ≤ string / pageSize * pageSize + pageSize :=
        (Nat.lt_div_mul_add size).le
      have limit : string / pageSize * pageSize + (maxVpn - string / pageSize) * pageSize =
          maxVpn * pageSize := by
        rw [← Nat.add_mul, Nat.add_sub_cancel' start.le]
      rw [isValidStringPages_eq_true good above near, own, good, limit]
      simp only [mem_stringPagesRead good above near, limit, Bool.true_eq_false, false_or]
      constructor
      · rintro ⟨-, reads⟩ vpn low high nonzero
        by_cases first : vpn = string / pageSize
        · rw [first, own, good]
        · have later : string ≤ vpn * pageSize := by
            have next : (string / pageSize + 1) * pageSize ≤ vpn * pageSize :=
              Nat.mul_le_mul_right _ (by omega)
            rw [Nat.succ_mul] at next
            omega
          have page := reads (vpn * pageSize)
            ⟨later, Nat.mul_lt_mul_of_pos_right high size, nonzero⟩
          rwa [Nat.mul_div_cancel _ size] at page
      · intro pages
        have reads : ∀ addr, string ≤ addr → addr < maxVpn * pageSize →
            (∀ before, string ≤ before → before < addr → memory before ≠ 0) →
              readable (addr / pageSize) = true := fun addr low high nonzero =>
          pages _ (Nat.div_le_div_right low) ((Nat.div_lt_iff_lt_mul size).mpr high)
            fun before early late =>
              nonzero before early (late.trans_le (Nat.div_mul_le_self _ _))
        refine ⟨⟨fun found => ?_, ?_⟩, fun addr ⟨low, high, nonzero⟩ => reads addr low high nonzero⟩
        · have least := Nat.find_spec found
          refine ⟨Nat.find found, least.1, least.2.1, least.2.2, fun vpn low high => ?_⟩
          refine pages vpn low ?_ fun addr early late isZero => ?_
          · exact high.trans_lt ((Nat.div_lt_iff_lt_mul size).mpr least.2.1)
          · have before : addr < Nat.find found :=
              late.trans_le ((Nat.mul_le_mul_right _ high).trans (Nat.div_mul_le_self _ _))
            exact Nat.find_min found before ⟨early, by omega, isZero⟩
        · rintro ⟨last, low, high, isZero, -⟩
          exact ⟨last, low, high, isZero⟩

/-- The string begins in the region whose last page comes before this one. -/
def EndsRegion (string maxVpn : Nat) : Prop :=
  string / pageSize < maxPtLen ∧ maxVpn = maxPtLen ∨
    maxPtLen ≤ string / pageSize ∧ string / pageSize < maxVpn ∧ maxVpn = maxPtLen * 2

section
variable {string maxVpn : Nat}

/-- A later page lies in the region of the string exactly when it comes before its end. -/
theorem getAddressRegion_same (region : EndsRegion string maxVpn) {other : Nat}
    (above : string / pageSize ≤ other / pageSize) :
    getAddressRegion other = getAddressRegion string ↔ other / pageSize < maxVpn := by
  rcases region with ⟨inside, same⟩ | ⟨low, high, same⟩
  · rw [getAddressRegion_eq_zero.mpr inside, getAddressRegion_eq_zero, same]
  · rw [getAddressRegion_eq_one.mpr ⟨low, by omega⟩, getAddressRegion_eq_one]
    omega

theorem stringValid_iff (region : EndsRegion string maxVpn) {r0 r1 : Nat → Pte}
    {memory : Nat → Byte} :
    StringValid r0 r1 memory string ↔
      ∃ last, string ≤ last ∧ last < maxVpn * pageSize ∧ memory last = 0 ∧
        ∀ vpn, string / pageSize ≤ vpn → vpn ≤ last / pageSize → pageReadable r0 r1 vpn = true := by
  refine exists_congr fun last => and_congr_right fun above => and_congr_left fun _ => ?_
  rw [getAddressRegion_same region (Nat.div_le_div_right above),
    Nat.div_lt_iff_lt_mul pageSize_pos]

theorem stringPagesReadable_iff (region : EndsRegion string maxVpn) {r0 r1 : Nat → Pte}
    {memory : Nat → Byte} :
    StringPagesReadable r0 r1 memory string ↔
      ∀ vpn, string / pageSize ≤ vpn → vpn < maxVpn →
        (∀ addr, string ≤ addr → addr < vpn * pageSize → memory addr ≠ 0) →
          pageReadable r0 r1 vpn = true := by
  refine forall_congr' fun vpn => forall_congr' fun above => ?_
  have page : vpn * pageSize / pageSize = vpn := Nat.mul_div_cancel _ pageSize_pos
  rw [getAddressRegion_same region (page.symm ▸ above), page]

end

/-- `isValidString` decides the validity of a string and reads only its own good pages exactly when
the string is decided. -/
theorem isValidString_decides (r0 r1 : Nat → Pte) (memory : Nat → Byte) (string : Nat) :
    ((isValidString r0 r1 memory string = true ↔ StringValid r0 r1 memory string) ∧
      ∀ addr ∈ stringReads r0 r1 memory string, pageReadable r0 r1 (addr / pageSize) = true) ↔
      StringDecided r0 r1 memory string := by
  rw [isValidString, stringReads, StringDecided]
  split
  · rename_i null
    subst null
    simp
  · simp only []
    split
    · rename_i inside
      have region : EndsRegion string maxPtLen := Or.inl ⟨inside, rfl⟩
      rw [stringValid_iff region, stringPagesReadable_iff region]
      exact isValidStringPages_decides inside (if_pos inside)
    · rename_i outside
      split
      · rename_i inside
        have region : EndsRegion string (maxPtLen * 2) := Or.inr ⟨by omega, inside, rfl⟩
        rw [stringValid_iff region, stringPagesReadable_iff region]
        exact isValidStringPages_decides inside ((if_neg outside).trans (if_pos inside))
      · rename_i above
        have bad : pageReadable r0 r1 (string / pageSize) = false := by
          rw [pageReadable, if_neg outside, if_neg above]
        simp only [bad, true_or, iff_true, Bool.false_eq_true, false_iff, List.not_mem_nil,
          false_imp_iff, implies_true, and_true]
        rintro ⟨last, low, -, -, pages⟩
        have first := pages _ le_rfl (Nat.div_le_div_right low)
        rw [bad] at first
        cases first

end

section
attribute [local instance] smallHardware

/-- The first page of the region has no zero byte, and the second page begins with one. -/
def zeroAt144 (addr : Nat) : Byte := if addr = 144 then 0 else 1

/-- The string runs into a page that is not mapped, and the answer is that it is valid. -/
theorem isValidString_unmapped :
    isValidString (fun _ => ⟨false, protNone, 0⟩) onePageMapped zeroAt144 140 = true ∧
      144 ∈ stringReads (fun _ => ⟨false, protNone, 0⟩) onePageMapped zeroAt144 140 ∧
      ¬((isValidString (fun _ => ⟨false, protNone, 0⟩) onePageMapped zeroAt144 140 = true ↔
          StringValid (fun _ => ⟨false, protNone, 0⟩) onePageMapped zeroAt144 140) ∧
        ∀ addr ∈ stringReads (fun _ => ⟨false, protNone, 0⟩) onePageMapped zeroAt144 140,
          pageReadable (fun _ => ⟨false, protNone, 0⟩) onePageMapped (addr / pageSize) = true) := by
  refine ⟨by decide, by decide, fun both => ?_⟩
  exact absurd (both.2 144 (by decide)) (by decide)

end

end Yallnix

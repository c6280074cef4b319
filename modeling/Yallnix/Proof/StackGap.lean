import Yallnix.Construction.SmallMachine
import Yallnix.Proof.FrameTaking
import Yallnix.Proof.PageRange

namespace Yallnix

/-- The entry at this index is valid. -/
def PageTable.maps (table : PageTable) (i : Nat) : Bool := table[i]?.any Pte.valid

/-- The stack is the unbroken run of valid entries at the end of the table. -/
def PageTable.stackBase : PageTable → Nat
  | [] => 0
  | pte :: rest => if (pte :: rest).all Pte.valid then 0 else PageTable.stackBase rest + 1

namespace PageTable

theorem maps_cons_zero (pte : Pte) (rest : PageTable) : maps (pte :: rest) 0 = pte.valid := rfl

theorem maps_cons_succ (pte : Pte) (rest : PageTable) (i : Nat) :
    maps (pte :: rest) (i + 1) = maps rest i := rfl

theorem maps_of_all {table : PageTable} (all : table.all Pte.valid = true) {i : Nat}
    (inside : i < table.length) : table.maps i = true := by
  rw [maps, List.getElem?_eq_getElem inside]
  exact List.all_eq_true.mp all _ (List.getElem_mem inside)

/-- The run starts at its base, and the entry below is not valid. -/
theorem stackBase_spec (table : PageTable) : table.stackBase ≤ table.length ∧
    (∀ i, table.stackBase ≤ i → i < table.length → table.maps i = true) ∧
    ∀ i, i + 1 = table.stackBase → table.maps i = false := by
  induction table with
  | nil => exact ⟨le_rfl, fun i _ inside => absurd inside (Nat.not_lt_zero i), nofun⟩
  | cons pte rest ih =>
      obtain ⟨bound, above, below⟩ := ih
      rw [stackBase]
      by_cases all : (pte :: rest).all Pte.valid = true
      · rw [if_pos all]
        exact ⟨Nat.zero_le _, fun i _ inside => maps_of_all all inside, nofun⟩
      · rw [if_neg all]
        refine ⟨Nat.succ_le_succ bound, fun i high inside => ?_, fun i last => ?_⟩
        · obtain ⟨j, rfl⟩ : ∃ j, i = j + 1 := ⟨i - 1, by omega⟩
          rw [maps_cons_succ]
          exact above j (by omega) (Nat.lt_of_succ_lt_succ inside)
        · cases i with
          | zero =>
              rw [maps_cons_zero]
              by_contra valid
              refine all (List.all_eq_true.mpr fun other listed => ?_)
              rcases List.mem_cons.mp listed with rfl | listed
              · exact (Bool.not_eq_false _).mp valid
              · obtain ⟨j, short, rfl⟩ := List.getElem_of_mem listed
                have here := above j (by omega) short
                rw [maps, List.getElem?_eq_getElem short] at here
                exact here
          | succ i =>
              rw [maps_cons_succ]
              exact below i (by omega)

theorem stackBase_eq {table : PageTable} {low : Nat} (bound : low ≤ table.length)
    (above : ∀ i, low ≤ i → i < table.length → table.maps i = true)
    (below : ∀ i, i + 1 = low → table.maps i = false) : table.stackBase = low := by
  obtain ⟨inside, run, stop⟩ := table.stackBase_spec
  rcases Nat.lt_trichotomy table.stackBase low with less | same | more
  · have valid := run (low - 1) (by omega) (by omega)
    rw [below (low - 1) (by omega)] at valid
    cases valid
  · exact same
  · have valid := above (table.stackBase - 1) (by omega) (by omega)
    rw [stop (table.stackBase - 1) (by omega)] at valid
    cases valid

/-- A loop gives the entries of a range one valid bit and keeps the other entries. -/
structure Remaps (low high : Nat) (valid : Bool) (table next : PageTable) : Prop where
  length : next.length = table.length
  inside : ∀ i, low ≤ i → i < high → next.maps i = valid
  outside : ∀ i, i < low ∨ high ≤ i → next[i]? = table[i]?

namespace Remaps

variable {low mid high : Nat} {valid : Bool} {table next last : PageTable}

theorem refl (low : Nat) (valid : Bool) (table : PageTable) : Remaps low low valid table table :=
  ⟨rfl, fun _ _ _ => by omega, fun _ _ => rfl⟩

theorem maps (remaps : Remaps low high valid table next) {i : Nat} (outside : i < low ∨ high ≤ i) :
    next.maps i = table.maps i := by
  rw [PageTable.maps, remaps.outside i outside, PageTable.maps]

theorem trans (ordered : low ≤ mid) (further : mid ≤ high)
    (first : Remaps low mid valid table next) (second : Remaps mid high valid next last) :
    Remaps low high valid table last where
  length := second.length.trans first.length
  inside i above below := by
    by_cases before : i < mid
    · rw [second.maps (.inl before)]
      exact first.inside i above before
    · exact second.inside i (by omega) below
  outside i outside := by
    rw [second.outside i (by omega), first.outside i (by omega)]

/-- A loop from the top down writes the upper part first. -/
theorem trans_down (ordered : low ≤ mid) (further : mid ≤ high)
    (first : Remaps mid high valid table next) (second : Remaps low mid valid next last) :
    Remaps low high valid table last where
  length := second.length.trans first.length
  inside i above below := by
    by_cases before : i < mid
    · exact second.inside i above before
    · rw [second.maps (.inr (by omega))]
      exact first.inside i (by omega) below
  outside i outside := by
    rw [second.outside i (by omega), first.outside i (by omega)]

end Remaps

end PageTable

open PageTable (Remaps)

section
variable [Hardware]

/-- The three cases of the page comparison unmap or map the pages between the two breaks. -/
theorem brkPages_eq (addr currBrk : Nat) (memory : PageTable × FrameList) :
    brkPages addr currBrk memory =
      if addr < currBrk then do
        let memory ← unmapPages (pageCeil currBrk - pageCeil addr)
          (pageCeil addr - userBaseVpn : Int) memory
        return (true, memory)
      else mapPages protReadWrite (pageCeil addr - pageCeil currBrk)
        (pageCeil currBrk - userBaseVpn : Int) memory :=
  breakCases_eq addr currBrk
    (fun count page => unmapPages count (page - userBaseVpn : Int) memory >>=
      fun memory => return (true, memory))
    (fun count page => mapPages protReadWrite count (page - userBaseVpn : Int) memory)
    (fun _ => rfl) fun _ => rfl

/-- The text begins the region, and the data follows the text. -/
structure LoadInfo.Contiguous (li : LoadInfo) : Prop where
  text : loadText li = 0
  data : loadData li = li.tNpg

/-- The heap lies below the break, the stack at the top, and the pages between are not mapped. -/
structure PCB.Gapped (proc : PCB) (low : Nat) : Prop where
  length : proc.r1PageTable.length = maxPtLen
  region : vmem1Base ≤ proc.brk
  inside : low ≤ maxPtLen
  below : pageCeil proc.brk < maxPtLen + low
  stack : ∀ i, low ≤ i → i < maxPtLen → proc.r1PageTable.maps i = true
  gap : ∀ i, pageCeil proc.brk ≤ maxPtLen + i → i < low → proc.r1PageTable.maps i = false

omit [Hardware] in
theorem freeValidPages_maps (table : PageTable) (frames : FrameList) (i : Nat) :
    (freeValidPages table frames).1.maps i = false := by
  rw [freeValidPages, PageTable.maps, List.getElem?_map]
  cases table[i]? <;> rfl

theorem loadStackPages_nonneg (argLengths : List Nat) : 0 ≤ loadStackPages argLengths := by
  have size := pageSize_pos
  have top : loadStackPointer argLengths ≤ vmem1Limit := by
    have aligned := Int.emod_nonneg ((vmem1Limit : Int) - ((argLengths.map (· + 1)).sum : Nat) -
      (argLengths.length + 3 + postArgvNullSpace) * 4) (by decide : (8 : Int) ≠ 0)
    unfold loadStackPointer
    dsimp only
    omega
  have floor := Int.ediv_mul_le (loadStackPointer argLengths) (by omega : (pageSize : Int) ≠ 0)
  exact Int.ediv_nonneg (by omega) (by omega)

theorem PCB.Gapped.stackBase {proc : PCB} {low : Nat} (gapped : proc.Gapped low) :
    proc.r1PageTable.stackBase = low := by
  have region := pageCeil_mono gapped.region
  rw [vmem1Base, pageCeil_mul] at region
  have below := gapped.below
  refine PageTable.stackBase_eq (by rw [gapped.length]; exact gapped.inside)
    (fun i above inside => gapped.stack i above (by rw [← gapped.length]; exact inside))
    fun i last => gapped.gap i (by omega) (by omega)

variable {s t : Scheduler} {low : Nat}

end

section
attribute [local instance] smallHardware

/-- The first image has one page of text and one page of data behind it. -/
def smallLoadInfo : LoadInfo := ⟨128, 128, 1, 144, 1, 0⟩

/-- The data of the second image begins two pages behind its text. -/
def gappedLoadInfo : LoadInfo := ⟨128, 128, 1, 176, 2, 0⟩

end

end Yallnix

import Yallnix.Proof.ImageLayout

namespace Yallnix

/-- A loop that starts at this page visits these pages. -/
def pagesFrom (start : Int) (count : Nat) : List Int := (List.range count).map fun k : Nat => start + k

theorem mem_pagesFrom {start page : Int} {count : Nat} :
    page ∈ pagesFrom start count ↔ start ≤ page ∧ page < start + count := by
  rw [pagesFrom, List.mem_map]
  constructor
  · rintro ⟨k, below, rfl⟩
    rw [List.mem_range] at below
    omega
  · rintro ⟨low, high⟩
    exact ⟨(page - start).toNat, List.mem_range.mpr (by omega), by omega⟩

theorem length_pagesFrom (start : Int) (count : Nat) : (pagesFrom start count).length = count := by
  rw [pagesFrom, List.length_map, List.length_range]

theorem getElem?_pagesFrom {start page : Int} {count k : Nat}
    (found : (pagesFrom start count)[k]? = some page) : page = start + k := by
  rw [pagesFrom, List.getElem?_map, Option.map_eq_some_iff] at found
  obtain ⟨index, place, rfl⟩ := found
  obtain ⟨below, same⟩ := List.getElem?_eq_some_iff.mp place
  rw [← same, List.getElem_range]

theorem nodup_pagesFrom (start : Int) (count : Nat) : (pagesFrom start count).Nodup :=
  List.nodup_range.map fun _ _ same => by omega

/-- The frames go to the pages in order, and the last write to a page stays. -/
structure Writes (pages : List Int) (pfns : List Nat) (table next : PageTable) : Prop where
  count : pages.length = pfns.length
  written : ∀ (m : Nat) (page : Int) (pfn : Nat), pages[m]? = some page → pfns[m]? = some pfn →
    (∀ later, m < later → pages[later]? ≠ some page) →
      next[page.toNat]? = some ⟨true, protReadWrite, pfn⟩
  unwritten : ∀ i : Nat, (i : Int) ∉ pages → next[i]? = table[i]?

theorem MapsTo.inside {prot : Prot} {index : Int} {pfns : List Nat} {table next : PageTable}
    (maps : MapsTo prot index pfns table next) :
    ∀ page ∈ pagesFrom index pfns.length, 0 ≤ page ∧ page < table.length := by
  intro page listed
  rw [mem_pagesFrom] at listed
  rcases maps.fits with none | fits
  · rw [none, List.length_nil] at listed
    omega
  · omega

theorem MapsTo.writes {index : Int} {pfns : List Nat} {table next : PageTable}
    (maps : MapsTo protReadWrite index pfns table next) :
    Writes (pagesFrom index pfns.length) pfns table next where
  count := length_pagesFrom index pfns.length
  written m page pfn found listed _ := by
    have low := (maps.inside page (List.mem_of_getElem? found)).1
    have same := getElem?_pagesFrom found
    exact maps.mapped page.toNat m pfn (by omega) listed
  unwritten i outside := by
    rw [mem_pagesFrom] at outside
    exact maps.outside i (by omega)

theorem Writes.append {first second : List Int} {firstPfns secondPfns : List Nat}
    {table middle next : PageTable} (inside : ∀ page ∈ first, 0 ≤ page)
    (one : Writes first firstPfns table middle)
    (two : Writes second secondPfns middle next) :
    Writes (first ++ second) (firstPfns ++ secondPfns) table next where
  count := by rw [List.length_append, List.length_append, one.count, two.count]
  written m page pfn found listed last := by
    by_cases early : m < first.length
    · rw [List.getElem?_append_left early] at found
      rw [List.getElem?_append_left (one.count ▸ early)] at listed
      have low := inside page (List.mem_of_getElem? found)
      have untouched : ((page.toNat : Nat) : Int) ∉ second := by
        rw [Int.toNat_of_nonneg low]
        intro again
        obtain ⟨k, place⟩ := List.mem_iff_getElem?.mp again
        refine last (first.length + k) (by omega) ?_
        rw [List.getElem?_append_right (by omega), Nat.add_sub_cancel_left]
        exact place
      rw [two.unwritten _ untouched]
      refine one.written m page pfn found listed fun later after again => ?_
      obtain ⟨short, -⟩ := List.getElem?_eq_some_iff.mp again
      refine last later after ?_
      rw [List.getElem?_append_left short]
      exact again
    · rw [List.getElem?_append_right (by omega)] at found
      rw [List.getElem?_append_right (one.count ▸ not_lt.mp early), ← one.count] at listed
      refine two.written (m - first.length) page pfn found listed fun later after again => ?_
      refine last (first.length + later) (by omega) ?_
      rw [List.getElem?_append_right (by omega), Nat.add_sub_cancel_left]
      exact again
  unwritten i outside := by
    rw [List.mem_append, not_or] at outside
    rw [two.unwritten i outside.2, one.unwritten i outside.1]

namespace Writes

variable {pages : List Int} {pfns : List Nat} {table next : PageTable}

/-- Without a second write to a page every frame is in the table. -/
theorem kept (writes : Writes pages pfns table next) (once : pages.Nodup) {pfn : Nat}
    (listed : pfn ∈ pfns) : ∃ pte ∈ next, pte.valid = true ∧ pte.pfn = pfn := by
  obtain ⟨m, place⟩ := List.mem_iff_getElem?.mp listed
  obtain ⟨short, -⟩ := List.getElem?_eq_some_iff.mp place
  rw [← writes.count] at short
  have page := List.getElem?_eq_getElem short
  have entry := writes.written m _ pfn page place fun later after again => ?_
  · exact ⟨_, List.mem_of_getElem? entry, rfl, rfl⟩
  · have same := (List.getElem?_inj short once).mp (page.trans again.symm)
    omega

/-- A page that gets a frame has a last one. -/
theorem exists_last (pages : List Int) {page : Int} (listed : page ∈ pages) :
    ∃ m : Nat, pages[m]? = some page ∧ ∀ later, m < later → pages[later]? ≠ some page := by
  induction pages with
  | nil => cases listed
  | cons first rest ih =>
      by_cases again : page ∈ rest
      · obtain ⟨m, place, last⟩ := ih again
        refine ⟨m + 1, place, fun later after => ?_⟩
        obtain ⟨k, rfl⟩ := Nat.exists_eq_add_of_lt after
        exact last (m + 1 + k) (by omega)
      · rcases List.mem_cons.mp listed with rfl | rest
        · refine ⟨0, rfl, fun later after found => ?_⟩
          obtain ⟨k, rfl⟩ := Nat.exists_eq_add_of_lt after
          rw [Nat.zero_add, List.getElem?_cons_succ] at found
          exact again (List.mem_of_getElem? found)
        · exact absurd rest again

/-- A second write to a page loses a frame that is not the last one. -/
theorem lost (writes : Writes pages pfns table next) (empty : ∀ i, table.maps i = false)
    (distinct : pfns.Nodup) (twice : ¬pages.Nodup) :
    ∃ m pfn, m + 1 < pfns.length ∧ pfns[m]? = some pfn ∧
      ¬∃ pte ∈ next, pte.valid = true ∧ pte.pfn = pfn := by
  rw [List.nodup_iff_getElem?_ne_getElem?] at twice
  push Not at twice
  obtain ⟨m, later, after, short, same⟩ := twice
  have count := writes.count
  have found := List.getElem?_eq_getElem (show m < pfns.length by omega)
  refine ⟨m, _, by omega, found, ?_⟩
  rintro ⟨pte, listed, valid, number⟩
  obtain ⟨i, entry⟩ := List.mem_iff_getElem?.mp listed
  by_cases written : (i : Int) ∈ pages
  · obtain ⟨last, place, none⟩ := exists_last pages written
    obtain ⟨inside, -⟩ := List.getElem?_eq_some_iff.mp place
    rw [count] at inside
    have pfn := List.getElem?_eq_getElem inside
    have wrote := writes.written last i _ place pfn none
    rw [Int.toNat_natCast, entry] at wrote
    cases wrote
    dsimp only at number
    rw [number, ← found] at pfn
    have position := (List.getElem?_inj inside distinct).mp pfn
    rw [position] at place none
    exact none later after (same ▸ place)
  · rw [writes.unwritten i written] at entry
    have unmapped := empty i
    rw [PageTable.maps, entry, Option.any_some, valid] at unmapped
    cases unmapped

end Writes

end Yallnix

import Mathlib.Logic.Function.Basic
import Mathlib.Data.List.Nodup

namespace Yallnix

/-- A cell of a linked list holds an item and the address of the next cell. -/
structure Cell (A : Type) where
  item : A
  next : Option Nat

/-- A freed address holds no cell. -/
abbrev Cells (A : Type) := Nat → Option (Cell A)

/-- The cells from a start on hold these items at these addresses. -/
def Linked {A : Type} (cells : Cells A) : Option Nat → List (Nat × A) → Prop
  | start, [] => start = none
  | start, node :: rest =>
      start = some node.1 ∧ ∃ next, cells node.1 = some ⟨node.2, next⟩ ∧ Linked cells next rest

/-- The addresses of a list of nodes. -/
def addresses {A : Type} (nodes : List (Nat × A)) : List Nat := nodes.map Prod.fst

namespace Linked

variable {A : Type} {cells other : Cells A} {start : Option Nat} {nodes rest : List (Nat × A)}
  {node curr : Nat × A}

/-- A list stays linked while its own cells stay. -/
theorem congr (linked : Linked cells start nodes)
    (same : ∀ addr ∈ addresses nodes, other addr = cells addr) : Linked other start nodes := by
  induction nodes generalizing start with
  | nil => exact linked
  | cons node rest ih =>
      obtain ⟨first, next, found, tail⟩ := linked
      refine ⟨first, next, ?_, ih tail fun addr inside => same addr (List.mem_cons_of_mem _ inside)⟩
      rw [same node.1 List.mem_cons_self, found]

/-- A change at an address outside of a list keeps the list. -/
theorem update (linked : Linked cells start nodes) {addr : Nat} (outside : addr ∉ addresses nodes)
    (cell : Option (Cell A)) : Linked (Function.update cells addr cell) start nodes := by
  refine linked.congr fun kept inside => ?_
  have differs : kept ≠ addr := by
    rintro rfl
    exact outside inside
  exact Function.update_of_ne differs cell cells

/-- The first cell leaves a list. -/
theorem removeHead (linked : Linked cells start (node :: rest))
    (distinct : (addresses (node :: rest)).Nodup) :
    ∃ next, cells node.1 = some ⟨node.2, next⟩ ∧
      Linked (Function.update cells node.1 none) next rest := by
  obtain ⟨-, next, found, tail⟩ := linked
  exact ⟨next, found, tail.update (List.nodup_cons.mp distinct).1 none⟩

/-- The cell behind the first one leaves a list when the first cell skips it. -/
theorem removeNext (linked : Linked cells start (curr :: node :: rest))
    (distinct : (addresses (curr :: node :: rest)).Nodup) :
    ∃ next, cells curr.1 = some ⟨curr.2, some node.1⟩ ∧ cells node.1 = some ⟨node.2, next⟩ ∧
      Linked (Function.update (Function.update cells node.1 none) curr.1 (some ⟨curr.2, next⟩))
        start (curr :: rest) := by
  obtain ⟨first, second, here, same, next, found, tail⟩ := linked
  obtain ⟨currOut, distinct⟩ := List.nodup_cons.mp distinct
  obtain ⟨nodeOut, -⟩ := List.nodup_cons.mp distinct
  refine ⟨next, same ▸ here, found, first, next, Function.update_self .., ?_⟩
  exact (tail.update nodeOut none).update (fun inside => currOut (List.mem_cons_of_mem _ inside)) _

/-- A new cell goes behind the last one. -/
theorem append (linked : Linked cells start (nodes ++ [curr]))
    (distinct : (addresses (nodes ++ [curr])).Nodup) {addr : Nat}
    (fresh : addr ∉ addresses (nodes ++ [curr])) (item : A) :
    cells curr.1 = some ⟨curr.2, none⟩ ∧
      Linked (Function.update (Function.update cells addr (some ⟨item, none⟩)) curr.1
        (some ⟨curr.2, some addr⟩)) start (nodes ++ [curr] ++ [(addr, item)]) := by
  induction nodes generalizing start with
  | nil =>
      obtain ⟨first, next, found, rfl⟩ := linked
      have differs : addr ≠ curr.1 := fun same => fresh (same ▸ List.mem_cons_self)
      refine ⟨found, first, some addr, Function.update_self .., rfl, none, ?_, rfl⟩
      rw [Function.update_of_ne differs, Function.update_self]
  | cons node rest ih =>
      obtain ⟨first, next, found, tail⟩ := linked
      obtain ⟨outside, distinct⟩ := List.nodup_cons.mp distinct
      obtain ⟨last, longer⟩ := ih tail distinct fun inside => fresh (List.mem_cons_of_mem _ inside)
      have notNew : node.1 ≠ addr := fun same => fresh (same ▸ List.mem_cons_self)
      have notLast : node.1 ≠ curr.1 := by
        intro same
        refine outside (same ▸ ?_)
        exact List.mem_map_of_mem (List.mem_append_right _ List.mem_cons_self)
      refine ⟨last, first, next, ?_, longer⟩
      rw [Function.update_of_ne notLast, Function.update_of_ne notNew, found]

/-- A linked list starts at its first address. -/
theorem start_eq_head (linked : Linked cells start nodes) : start = (addresses nodes).head? := by
  cases nodes with
  | nil => exact linked
  | cons node rest => exact linked.1

/-- Every cell of a linked list is there. -/
theorem present (linked : Linked cells start nodes) {addr : Nat} (inside : addr ∈ addresses nodes) :
    cells addr ≠ none := by
  induction nodes generalizing start with
  | nil => cases inside
  | cons node rest ih =>
      obtain ⟨-, next, found, tail⟩ := linked
      rcases List.mem_cons.mp inside with rfl | inside
      · rw [found]
        exact Option.some_ne_none _
      · exact ih tail inside

/-- The items say where a list starts. -/
theorem start_eq {begin : Option Nat} (one : Linked cells start nodes)
    (two : Linked other begin nodes) : start = begin := by
  cases nodes with
  | nil => exact Eq.trans one (Eq.symm two)
  | cons node rest => exact one.1.trans two.1.symm

/-- The end of a linked list is linked. -/
theorem suffix {before : List (Nat × A)} (linked : Linked cells start (before ++ rest)) :
    ∃ begin, Linked cells begin rest := by
  induction before generalizing start with
  | nil => exact ⟨start, linked⟩
  | cons node before ih =>
      obtain ⟨-, next, -, tail⟩ := linked
      exact ih tail

end Linked

end Yallnix

import Yallnix.ToMathlib.Outcome
import Mathlib.Algebra.Ring.Nat
import Mathlib.Data.Set.Function
import Mathlib.Order.Interval.Set.Basic

namespace Yallnix

/-- Memory holds a byte at each address. -/
abbrev ByteMemory := Nat → UInt8

namespace ByteMemory

/-- A C string lies at an address when a zero follows its bytes. -/
def StringAt (memory : ByteMemory) : Nat → List UInt8 → Prop
  | p, [] => memory p = 0
  | p, c :: s => memory p = c ∧ c ≠ 0 ∧ memory.StringAt (p + 1) s

/-- A word has four bytes, and the lowest one comes first. -/
def word (memory : ByteMemory) (p : Nat) : Nat :=
  (memory p).toNat + 2 ^ 8 * (memory (p + 1)).toNat + 2 ^ 16 * (memory (p + 2)).toNat +
    2 ^ 24 * (memory (p + 3)).toNat

/-- Pointers to strings follow each other, and a null pointer ends them. -/
def VectorAt (limit : Nat) (memory : ByteMemory) : Nat → List (List UInt8) → Prop
  | p, [] => p + 4 ≤ limit ∧ memory.word p = 0
  | p, s :: argv => p + 4 ≤ limit ∧ memory.word p ≠ 0 ∧ memory.word p + s.length < limit ∧
      memory.StringAt (memory.word p) s ∧ memory.VectorAt limit (p + 4) argv

/-- A vector and its strings occupy these addresses. -/
def vectorBytes (memory : ByteMemory) : Nat → List (List UInt8) → Set Nat
  | p, [] => Set.Ico p (p + 4)
  | p, s :: argv => Set.Ico p (p + 4) ∪
      (Set.Ico (memory.word p) (memory.word p + s.length + 1) ∪ memory.vectorBytes (p + 4) argv)

/-- The strings follow each other without gaps. -/
def PackedAt (memory : ByteMemory) : Nat → List (List UInt8) → Prop
  | _, [] => True
  | p, s :: argv => memory.StringAt p s ∧ memory.PackedAt (p + s.length + 1) argv

def packedSize (argv : List (List UInt8)) : Nat := (argv.map fun s => s.length + 1).sum

variable {memory next : ByteMemory} {p dst src limit value : Nat} {s : List UInt8}
  {argv : List (List UInt8)}

@[simp] theorem packedSize_cons : packedSize (s :: argv) = s.length + 1 + packedSize argv := rfl

theorem StringAt.congr (string : memory.StringAt p s)
    (same : Set.EqOn next memory (Set.Ico p (p + s.length + 1))) : next.StringAt p s := by
  induction s generalizing p with
  | nil => exact (same ⟨le_rfl, Nat.lt_succ_self _⟩).trans string
  | cons c s ih =>
      obtain ⟨first, nonzero, rest⟩ := string
      refine ⟨(same ⟨le_rfl, by omega⟩).trans first, nonzero, ih rest fun a inside => same ?_⟩
      rw [List.length_cons]
      exact ⟨by have := inside.1; omega, by have := inside.2; omega⟩

theorem word_congr (same : Set.EqOn next memory (Set.Ico p (p + 4))) :
    next.word p = memory.word p := by
  have byte (i : Nat) (inside : i < 4) : next (p + i) = memory (p + i) :=
    same ⟨by omega, by omega⟩
  simp only [word, byte 1 (by decide), byte 2 (by decide), byte 3 (by decide)]
  rw [show next p = memory p from byte 0 (by decide)]

/-- Memory holds at most one string at an address. -/
theorem StringAt.unique {other : List UInt8} (string : memory.StringAt p s)
    (also : memory.StringAt p other) : other = s := by
  induction s generalizing p other with
  | nil =>
      cases other with
      | nil => rfl
      | cons c rest => exact absurd (also.1.symm.trans string) also.2.1
  | cons c s ih =>
      obtain ⟨first, nonzero, tail⟩ := string
      cases other with
      | nil => exact absurd (first.symm.trans also) nonzero
      | cons d rest => rw [← also.1, first, ih tail also.2.2]

/-- Memory holds at most one vector at an address. -/
theorem VectorAt.unique {other : List (List UInt8)} (vector : memory.VectorAt limit p argv)
    (also : memory.VectorAt limit p other) : other = argv := by
  induction argv generalizing p other with
  | nil =>
      cases other with
      | nil => rfl
      | cons s rest => exact absurd vector.2 also.2.1
  | cons s argv ih =>
      obtain ⟨-, nonzero, -, string, tail⟩ := vector
      cases other with
      | nil => exact absurd also.2 nonzero
      | cons r rest =>
          obtain ⟨-, -, -, same, tail'⟩ := also
          rw [string.unique same, ih tail tail']

/-- Packed strings stay when their bytes stay. -/
theorem PackedAt.congr (packed : memory.PackedAt p argv)
    (same : Set.EqOn next memory (Set.Ico p (p + packedSize argv))) : next.PackedAt p argv := by
  induction argv generalizing p with
  | nil => trivial
  | cons s argv ih =>
      obtain ⟨string, rest⟩ := packed
      rw [packedSize_cons] at same
      refine ⟨string.congr (same.mono (Set.Ico_subset_Ico_right (by omega))), ih rest ?_⟩
      exact same.mono (Set.Ico_subset_Ico (by omega) (by omega))

/-- A vector stays when its bytes stay. -/
theorem VectorAt.congr (vector : memory.VectorAt limit p argv)
    (same : Set.EqOn next memory (memory.vectorBytes p argv)) :
    next.VectorAt limit p argv ∧ next.vectorBytes p argv = memory.vectorBytes p argv := by
  induction argv generalizing p with
  | nil =>
      obtain ⟨inside, ends⟩ := vector
      exact ⟨⟨inside, (word_congr same).trans ends⟩, rfl⟩
  | cons s argv ih =>
      obtain ⟨inside, nonzero, short, string, rest⟩ := vector
      have pointer : next.word p = memory.word p :=
        word_congr (same.mono Set.subset_union_left)
      have later := same.mono Set.subset_union_right
      obtain ⟨vector, bytes⟩ := ih rest (later.mono Set.subset_union_right)
      refine ⟨⟨inside, pointer ▸ nonzero, pointer ▸ short, ?_, vector⟩, ?_⟩
      · rw [pointer]
        exact string.congr (later.mono Set.subset_union_left)
      · rw [vectorBytes, vectorBytes, pointer, bytes]

end ByteMemory

end Yallnix

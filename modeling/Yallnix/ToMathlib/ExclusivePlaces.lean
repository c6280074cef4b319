import Mathlib.Data.Set.Insert

namespace Yallnix

section
variable {Place Resource : Type*}

/-- The places of a set hold different resources, and none of these is free. -/
structure Exclusive (places : Set Place) (holds : Place → Option Resource)
    (free : Resource → Prop) : Prop where
  alone : ∀ a ∈ places, ∀ b ∈ places, ∀ r, holds a = some r → holds b = some r → a = b
  used : ∀ a ∈ places, ∀ r, holds a = some r → ¬free r

namespace Exclusive

variable {places fewer more : Set Place} {holds next : Place → Option Resource}
  {free left : Resource → Prop} {a : Place} {r : Resource}

/-- Fewer places that hold the same stay exclusive while no resource becomes free. -/
theorem mono (exclusive : Exclusive places holds free) (sub : fewer ⊆ places)
    (kept : ∀ b ∈ fewer, next b = holds b) (stays : ∀ s, left s → free s) :
    Exclusive fewer next left where
  alone b first c second s held also := by
    rw [kept b first] at held
    rw [kept c second] at also
    exact exclusive.alone b (sub first) c (sub second) s held also
  used b inside s held isFree := by
    rw [kept b inside] at held
    exact exclusive.used b (sub inside) s held (stays s isFree)

/-- Places that hold nothing may join. -/
theorem join (exclusive : Exclusive places holds free) (empty : ∀ b ∈ more, holds b = none) :
    Exclusive (places ∪ more) holds free where
  alone b first c second s held also := by
    rcases first with first | first
    · rcases second with second | second
      · exact exclusive.alone b first c second s held also
      · rw [empty c second] at also
        cases also
    · rw [empty b first] at held
      cases held
  used b inside s held := by
    rcases inside with inside | inside
    · exact exclusive.used b inside s held
    · rw [empty b inside] at held
      cases held

/-- A place that takes a free resource drops what it held. -/
theorem take (exclusive : Exclusive places holds free) (was : free r) (got : next a = some r)
    (others : ∀ b ∈ places, b ≠ a → next b = holds b) (stays : ∀ s, left s → free s ∧ s ≠ r) :
    Exclusive (insert a places) next left where
  alone b first c second s held also := by
    rcases eq_or_ne b a with rfl | notB
    · rcases eq_or_ne c b with rfl | notC
      · rfl
      · have inside := second.resolve_left notC
        rw [got] at held
        cases held
        rw [others c inside notC] at also
        exact absurd was (exclusive.used c inside _ also)
    · have inside := first.resolve_left notB
      rw [others b inside notB] at held
      rcases eq_or_ne c a with rfl | notC
      · rw [got] at also
        cases also
        exact absurd was (exclusive.used b inside _ held)
      · have other := second.resolve_left notC
        rw [others c other notC] at also
        exact exclusive.alone b inside c other s held also
  used b inside s held isFree := by
    obtain ⟨before, differs⟩ := stays s isFree
    rcases eq_or_ne b a with rfl | notB
    · rw [got] at held
      exact differs (Option.some.inj held).symm
    · have inside := inside.resolve_left notB
      rw [others b inside notB] at held
      exact exclusive.used b inside s held before

/-- A resource that none of the places holds may become free. -/
theorem release (exclusive : Exclusive places holds free) (away : ∀ b ∈ places, holds b ≠ some r)
    (freed : ∀ s, left s → free s ∨ s = r) : Exclusive places holds left where
  alone := exclusive.alone
  used b inside s held isFree := by
    rcases freed s isFree with before | rfl
    · exact exclusive.used b inside s held before
    · exact away b inside held

/-- What one place holds, the places of a set without it do not hold. -/
theorem away (exclusive : Exclusive places holds free) (sub : fewer ⊆ places) (inside : a ∈ places)
    (held : holds a = some r) (outside : a ∉ fewer) : ∀ b ∈ fewer, holds b ≠ some r := by
  intro b member also
  have same := exclusive.alone a inside b (sub member) r held also
  exact outside (same ▸ member)

/-- A place gives its resource back. -/
theorem give (exclusive : Exclusive places holds free) (inside : a ∈ places)
    (held : holds a = some r) (gone : next a = none)
    (others : ∀ b ∈ places, b ≠ a → next b = holds b)
    (freed : ∀ s, left s → free s ∨ s = r) : Exclusive places next left := by
  have rest : Exclusive {b ∈ places | b ≠ a} next left :=
    (exclusive.mono (Set.sep_subset _ _) (fun b member => others b member.1 member.2)
      fun s isFree => isFree).release (fun b member also => ?_) freed
  · have empty : ∀ b ∈ ({a} : Set Place), next b = none := by
      rintro b rfl
      exact gone
    refine (rest.join empty).mono (fun b member => ?_) (fun _ _ => rfl) fun _ => id
    rcases eq_or_ne b a with rfl | other
    · exact Or.inr rfl
    · exact Or.inl ⟨member, other⟩
  · rw [others b member.1 member.2] at also
    exact member.2 (exclusive.alone b member.1 a inside r also held)

end Exclusive

end

end Yallnix

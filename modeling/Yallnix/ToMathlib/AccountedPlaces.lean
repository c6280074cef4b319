import Yallnix.ToMathlib.ExclusivePlaces

namespace Yallnix

section
variable {Place Resource : Type*}

/-- Each listed resource is free, or a place of the set holds it. -/
def Accounted (places : Set Place) (holds : Place → Option Resource)
    (listed free : Resource → Prop) : Prop :=
  ∀ r, listed r → free r ∨ ∃ a ∈ places, holds a = some r

namespace Accounted

variable {places fewer more : Set Place} {holds next : Place → Option Resource}
  {listed free left : Resource → Prop} {a : Place} {r : Resource}

/-- More places that hold the same stay accounted while no resource is taken. -/
theorem mono (accounted : Accounted places holds listed free) (sub : places ⊆ more)
    (kept : ∀ b ∈ places, next b = holds b) (stays : ∀ s, free s → left s) :
    Accounted more next listed left := by
  intro s known
  rcases accounted s known with isFree | ⟨b, inside, held⟩
  · exact Or.inl (stays s isFree)
  · exact Or.inr ⟨b, sub inside, (kept b inside).trans held⟩

/-- One place takes the resource that is taken, and what it held becomes free. -/
theorem change (accounted : Accounted places holds listed free) (inside : a ∈ more)
    (others : ∀ b ∈ places, b ≠ a → b ∈ more ∧ next b = holds b)
    (stays : ∀ s, free s → left s ∨ next a = some s)
    (gives : a ∈ places → ∀ s, listed s → holds a = some s → left s ∨ next a = some s) :
    Accounted more next listed left := by
  intro s known
  have here : left s ∨ next a = some s → left s ∨ ∃ b ∈ more, next b = some s :=
    Or.imp_right fun held => ⟨a, inside, held⟩
  rcases accounted s known with isFree | ⟨b, member, held⟩
  · exact here (stays s isFree)
  · by_cases same : b = a
    · subst same
      exact here (gives member s known held)
    · obtain ⟨stays, kept⟩ := others b member same
      exact Or.inr ⟨b, stays, kept.trans held⟩

/-- The places that leave give their resources back. -/
theorem leave (accounted : Accounted places holds listed free)
    (kept : ∀ b ∈ places, b ∈ fewer → next b = holds b) (stays : ∀ s, free s → left s)
    (gives : ∀ b ∈ places, b ∉ fewer → ∀ s, listed s → holds b = some s → left s) :
    Accounted fewer next listed left := by
  intro s known
  rcases accounted s known with isFree | ⟨b, member, held⟩
  · exact Or.inl (stays s isFree)
  · by_cases remains : b ∈ fewer
    · exact Or.inr ⟨b, remains, (kept b member remains).trans held⟩
    · exact Or.inl (gives b member remains s known held)

/-- The places of the reserved resources join. -/
theorem extend {reserved : Resource → Prop}
    (accounted : Accounted places holds listed fun s => free s ∨ reserved s)
    (held : ∀ s, reserved s → ∃ b ∈ more, holds b = some s) :
    Accounted (places ∪ more) holds listed free := by
  intro s known
  rcases accounted s known with (isFree | kept) | ⟨b, member, holds⟩
  · exact Or.inl isFree
  · obtain ⟨b, member, holds⟩ := held s kept
    exact Or.inr ⟨b, Or.inr member, holds⟩
  · exact Or.inr ⟨b, Or.inl member, holds⟩

end Accounted

/-- Places join with reserved resources of their own. -/
theorem Exclusive.extend {places more : Set Place} {holds : Place → Option Resource}
    {free reserved : Resource → Prop}
    (exclusive : Exclusive places holds fun s => free s ∨ reserved s)
    (alone : ∀ a ∈ more, ∀ b ∈ more, ∀ s, holds a = some s → holds b = some s → a = b)
    (held : ∀ a ∈ more, ∀ s, holds a = some s → reserved s)
    (kept : ∀ s, reserved s → ¬free s) : Exclusive (places ∪ more) holds free where
  alone b first c second s holdsB holdsC := by
    rcases first with first | first
    · rcases second with second | second
      · exact exclusive.alone b first c second s holdsB holdsC
      · exact absurd (Or.inr (held c second s holdsC)) (exclusive.used b first s holdsB)
    · rcases second with second | second
      · exact absurd (Or.inr (held b first s holdsB)) (exclusive.used c second s holdsC)
      · exact alone b first c second s holdsB holdsC
  used b inside s holdsB isFree := by
    rcases inside with inside | inside
    · exact exclusive.used b inside s holdsB (Or.inl isFree)
    · exact kept s (held b inside s holdsB) isFree

end

end Yallnix

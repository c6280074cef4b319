import Yallnix.Proof.SetIteration
import Mathlib.Data.Finset.Lattice.Fold

namespace Yallnix

namespace HashMap

variable {A : Type} {hm result : HashMap A} {map : Int → Option A} {key : Int} {item : A}

/-- The entries of a hash map are the values of a finite partial map. -/
def Represents (hm : HashMap A) (map : Int → Option A) : Prop :=
  ∀ key item, map key = some item ↔ (key, item) ∈ hm.entries

theorem Represents.known (represents : hm.Represents map) : map key ≠ none ↔ key ∈ hm.keys := by
  rw [Option.ne_none_iff_exists', mem_keys]
  exact exists_congr fun item => represents key item

/-- An insertion sets one value. -/
theorem Represents.insert (represents : hm.Represents map) (absent : key ∉ hm.keys)
    (perm : result.entries.Perm ((key, item) :: hm.entries)) :
    result.Represents (Function.update map key (some item)) := by
  intro other found
  rw [perm.mem_iff, List.mem_cons]
  by_cases same : other = key
  · subst same
    have outside : (other, found) ∉ hm.entries := fun inside => absent (mem_keys.mpr ⟨_, inside⟩)
    simp only [Function.update_self, Option.some.injEq, Prod.mk.injEq, true_and, outside, or_false]
    exact eq_comm
  · rw [Function.update_of_ne same, represents other found]
    simp only [Prod.mk.injEq, same, false_and, false_or]

/-- A removal clears one value. -/
theorem Represents.remove (represents : hm.Represents map)
    (perm : hm.entries.Perm ((key, item) :: result.entries)) :
    result.Represents (Function.update map key none) := by
  intro other found
  have once : key ∉ result.keys := by
    have keys := (perm.map Prod.fst).nodup_iff.mp hm.keys_nodup
    exact (List.nodup_cons.mp keys).1
  by_cases same : other = key
  · subst same
    rw [Function.update_self]
    refine ⟨fun none => ?_, fun inside => absurd (mem_keys.mpr ⟨_, inside⟩) once⟩
    cases none
  · rw [Function.update_of_ne same, represents other found, perm.mem_iff, List.mem_cons]
    simp only [Prod.mk.injEq, same, false_and, false_or]

/-- An insertion of an absent key extends one chain of the map. -/
theorem insert_sets (item : A) {i : Nat} {bound : i < hm.sets.length}
    (inside : hm.bucket key = .ok ⟨i, bound⟩) (absent : key ∉ hm.sets[i].map Prod.fst) :
    ∃ result, hashMapInsert hm key item = .ok (some result) ∧
      result.sets = hm.sets.set i ((key, item) :: hm.sets[i]) := by
  unfold hashMapInsert
  split
  · rename_i failed
    rw [inside] at failed
    cases failed
  · rename_i other found
    obtain rfl := Except.ok.inj (found.symm.trans inside)
    split
    · rename_i refused
      exact absurd (setInsert_eq_none.mp refused) absent
    · rename_i inserted
      obtain ⟨-, rfl⟩ := setInsert_eq_some inserted
      exact ⟨_, rfl, rfl⟩

end HashMap

section
variable {A : Type}

/-- The search loop over the nodes finds what `set_find` finds in the list. -/
theorem setFindNodes_finds {nodes : Cells (Int × A)} {start : Option Nat}
    {chain : List (Nat × Int × A)} (linked : Linked nodes start chain) (key : Int) {fuel : Nat}
    (enough : chain.length ≤ fuel) :
    setFindNodes key nodes fuel start = .ok (setFind (chain.map Prod.snd) key) := by
  induction chain generalizing start fuel with
  | nil =>
      obtain rfl : start = none := linked
      cases fuel <;> rfl
  | cons node rest ih =>
      obtain ⟨fuel, rfl⟩ := Nat.exists_eq_succ_of_ne_zero (Nat.ne_of_gt (Nat.zero_lt_of_lt enough))
      obtain ⟨rfl, next, found, tail⟩ := linked
      simp only [setFindNodes, found, deref, Outcome.ok_bind, List.map_cons, setFind]
      split
      · rfl
      · exact ih tail (Nat.le_of_succ_le_succ enough)

/-- The loop of `set_remove` ends at NULL when no node has the key. -/
theorem setRemoveLoop_absent {nodes : Cells (Int × A)} {start : Option Nat}
    {chain : List (Nat × Int × A)} (linked : Linked nodes start chain) {key : Int}
    (absent : ∀ node ∈ chain, node.2.1 ≠ key) (curr : Nat) {fuel : Nat}
    (enough : chain.length ≤ fuel) : setRemoveLoop key fuel curr start nodes = .ok none := by
  induction chain generalizing start fuel curr with
  | nil =>
      obtain rfl : start = none := linked
      cases fuel <;> rfl
  | cons node rest ih =>
      obtain ⟨fuel, rfl⟩ := Nat.exists_eq_succ_of_ne_zero (Nat.ne_of_gt (Nat.zero_lt_of_lt enough))
      obtain ⟨rfl, next, found, tail⟩ := linked
      simp only [setRemoveLoop, found, deref, Outcome.ok_bind,
        if_neg (absent node List.mem_cons_self)]
      exact ih tail (fun other inside => absent other (List.mem_cons_of_mem _ inside)) node.1
        (Nat.le_of_succ_le_succ enough)

theorem setRemoveNodes_absent {nodes : Cells (Int × A)} {head : Option Nat}
    {chain : List (Nat × Int × A)} (linked : Linked nodes head chain) {key : Int}
    (absent : ∀ node ∈ chain, node.2.1 ≠ key) {fuel : Nat} (enough : chain.length ≤ fuel) :
    setRemoveNodes fuel key head nodes = .ok none := by
  cases chain with
  | nil =>
      obtain rfl : head = none := linked
      rfl
  | cons node rest =>
      obtain ⟨rfl, next, found, tail⟩ := linked
      have looped := setRemoveLoop_absent tail
        (fun other inside => absent other (List.mem_cons_of_mem _ inside)) node.1
        (Nat.le_of_succ_le enough)
      simp only [setRemoveNodes, found, deref, Outcome.ok_bind,
        if_neg (absent node List.mem_cons_self), looped]
      rfl

/-- More fuel gives the same answer. -/
theorem setFindNodes_mono {nodes : Cells (Int × A)} {start : Option Nat} {key : Int}
    {fuel more : Nat} {result : Option A} (found : setFindNodes key nodes fuel start = .ok result)
    (enough : fuel ≤ more) : setFindNodes key nodes more start = .ok result := by
  induction fuel generalizing start more with
  | zero =>
      cases start with
      | none => cases more <;> exact found
      | some node => cases found
  | succ fuel ih =>
      obtain ⟨more, rfl⟩ := Nat.exists_eq_succ_of_ne_zero (Nat.ne_of_gt (Nat.zero_lt_of_lt enough))
      cases start with
      | none => exact found
      | some node =>
          obtain ⟨curr, present, found⟩ := Outcome.bind_eq_ok.mp found
          simp only [setFindNodes, present, Outcome.ok_bind]
          split at found
          · rename_i same
            rw [if_pos same]
            exact found
          · rename_i differs
            rw [if_neg differs]
            exact ih found (Nat.le_of_succ_le_succ enough)

theorem setRemoveLoop_mono {nodes : Cells (Int × A)} {start : Option Nat} {key : Int}
    {curr fuel more : Nat} {result : Option (A × Cells (Int × A))}
    (removed : setRemoveLoop key fuel curr start nodes = .ok result) (enough : fuel ≤ more) :
    setRemoveLoop key more curr start nodes = .ok result := by
  induction fuel generalizing curr start more with
  | zero =>
      cases start with
      | none => cases more <;> exact removed
      | some node => cases removed
  | succ fuel ih =>
      obtain ⟨more, rfl⟩ := Nat.exists_eq_succ_of_ne_zero (Nat.ne_of_gt (Nat.zero_lt_of_lt enough))
      cases start with
      | none => exact removed
      | some node =>
          obtain ⟨next, found, removed⟩ := Outcome.bind_eq_ok.mp removed
          simp only [setRemoveLoop, found, Outcome.ok_bind]
          split at removed
          · rename_i same
            rw [if_pos same]
            exact removed
          · rename_i differs
            rw [if_neg differs]
            exact ih removed (Nat.le_of_succ_le_succ enough)

theorem setRemoveNodes_mono {nodes : Cells (Int × A)} {head : Option Nat} {key : Int}
    {fuel more : Nat} {result : Option (A × Option Nat × Cells (Int × A))}
    (removed : setRemoveNodes fuel key head nodes = .ok result) (enough : fuel ≤ more) :
    setRemoveNodes more key head nodes = .ok result := by
  cases head with
  | none => exact removed
  | some node =>
      obtain ⟨curr, found, removed⟩ := Outcome.bind_eq_ok.mp removed
      simp only [setRemoveNodes, found, Outcome.ok_bind]
      split at removed
      · rename_i same
        rw [if_pos same]
        exact removed
      · rename_i differs
        obtain ⟨looped, ended, removed⟩ := Outcome.bind_eq_ok.mp removed
        rw [if_neg differs, setRemoveLoop_mono ended enough]
        exact removed

theorem hashMapRemoveNodes_mono {memory : SetMemory A} {key : Int} {fuel more : Nat}
    {result : Option (A × SetMemory A)}
    (removed : hashMapRemoveNodes fuel memory key = .ok result) (enough : fuel ≤ more) :
    hashMapRemoveNodes more memory key = .ok result := by
  simp only [hashMapRemoveNodes] at removed ⊢
  split at removed
  · cases removed
  · rename_i inside
    obtain ⟨found, ended, removed⟩ := Outcome.bind_eq_ok.mp removed
    rw [if_neg inside, setRemoveNodes_mono ended enough]
    exact removed

theorem MapCall.onNodes_mono {memory next : SetMemory A} {call : MapCall A} {answer : Answer A}
    {fuel more : Nat} (called : call.onNodes fuel memory = .ok (answer, next))
    (enough : fuel ≤ more) : call.onNodes more memory = .ok (answer, next) := by
  cases call with
  | insert key item node =>
      obtain ⟨inserted, called, done⟩ := Outcome.bind_eq_ok.mp called
      simp only [hashMapInsertNodes] at called
      split at called
      · cases called
      · rename_i inside
        obtain ⟨linked, called, stored⟩ := Outcome.bind_eq_ok.mp called
        obtain ⟨found, searched, chosen⟩ := Outcome.bind_eq_ok.mp called
        simp only [MapCall.onNodes, hashMapInsertNodes, if_neg inside, setInsertNodes,
          setFindNodes_mono searched enough, Outcome.ok_bind]
        rw [chosen, Outcome.ok_bind, stored]
        exact done
  | find key =>
      obtain ⟨found, called, done⟩ := Outcome.bind_eq_ok.mp called
      simp only [hashMapFindNodes] at called
      split at called
      · cases called
      · rename_i inside
        simp only [MapCall.onNodes, hashMapFindNodes, if_neg inside, setFindNodes_mono called enough]
        exact done
  | remove key =>
      obtain ⟨removed, called, done⟩ := Outcome.bind_eq_ok.mp called
      rw [MapCall.onNodes, hashMapRemoveNodes_mono called enough]
      exact done

namespace SetMemory.Holds

variable {memory : SetMemory A} {chains : Nat → List (Nat × Int × A)} {hm : HashMap A}
  {map : Int → Option A} {key : Int} {fuel : Nat}

/-- A key that is not negative picks one slot of the array. -/
theorem slot (holds : memory.Holds chains hm) (nonneg : 0 ≤ key) :
    ∃ i, ∃ bound : i < hm.sets.length, i < memory.size ∧ key.tmod memory.size = i ∧
      hm.bucket key = .ok ⟨i, bound⟩ ∧ hm.sets[i] = (chains i).map Prod.snd := by
  obtain ⟨⟨i, bound⟩, inside⟩ := hm.bucket_of_fits (hm.fits_of_nonneg nonneg)
  have below : i < memory.size := holds.size ▸ bound
  refine ⟨i, bound, below, ?_, inside, holds.set_eq below bound⟩
  rw [holds.size]
  exact (HashMap.bucket_eq_ok inside).2

/-- A key lies in the chain of its remainder. -/
theorem placed (holds : memory.Holds chains hm) {i : Nat} (below : i < memory.size)
    {node : Nat × Int × A} (listed : node ∈ chains i) : node.2.1.tmod memory.size = i := by
  have bound : i < hm.sets.length := holds.size ▸ below
  rw [holds.size]
  refine hm.placed i bound node.2 ?_
  rw [holds.set_eq below bound]
  exact List.mem_map_of_mem listed

/-- The entries follow the order of the nodes. -/
theorem entries_eq (holds : memory.Holds chains hm) :
    hm.entries = ((List.range memory.size).flatMap chains).map Prod.snd := by
  rw [HashMap.entries, holds.sets_eq, ← List.flatMap_def, List.map_flatMap]

/-- All nodes have different keys. -/
theorem once (holds : memory.Holds chains hm) :
    (((List.range memory.size).flatMap chains).map fun node => node.2.1).Nodup := by
  have keys := hm.keys_nodup
  rwa [HashMap.keys, holds.entries_eq, List.map_map] at keys

theorem mem_keys (holds : memory.Holds chains hm) {i : Nat} {bound : i < hm.sets.length}
    (inside : hm.bucket key = .ok ⟨i, bound⟩) :
    key ∈ hm.keys ↔ ∃ node ∈ chains i, node.2.1 = key := by
  have keys := HashMap.not_mem_keys inside
  rw [not_iff_not] at keys
  rw [keys]
  change key ∈ hm.sets[i].map Prod.fst ↔ _
  rw [holds.set_eq (holds.size ▸ bound) bound, List.map_map, List.mem_map]
  rfl

/-- `HashMap_find` finds the same item in the memory and in the map. -/
theorem find (holds : memory.Holds chains hm) (represents : hm.Represents map)
    (nonneg : 0 ≤ key) (enough : ∀ i < memory.size, (chains i).length ≤ fuel) :
    hashMapFindNodes fuel memory key = .ok (map key) := by
  obtain ⟨i, bound, below, place, inside, set⟩ := holds.slot nonneg
  have found : hashMapFindNodes fuel memory key =
      .ok (setFind ((chains i).map Prod.snd) key) := by
    rw [hashMapFindNodes, place, if_neg (by omega), Int.toNat_natCast]
    exact setFindNodes_finds (holds.linked i below) key (enough i below)
  have listed : hashMapFind hm key = .ok (setFind ((chains i).map Prod.snd) key) := by
    rw [hashMapFind, inside, ← set]
    rfl
  rw [found]
  cases outcome : setFind ((chains i).map Prod.snd) key with
  | none =>
      rw [outcome] at listed
      have absent := HashMap.find_eq_none listed
      rw [← represents.known, not_not] at absent
      rw [absent]
  | some item =>
      rw [outcome] at listed
      rw [(represents key item).mpr (HashMap.find_eq_some listed)]

/-- `HashMap_insert` refuses a present key and changes nothing. -/
theorem insert_present (holds : memory.Holds chains hm) (represents : hm.Represents map)
    (nonneg : 0 ≤ key) (present : map key ≠ none)
    (enough : ∀ i < memory.size, (chains i).length ≤ fuel) (malloc : Option Nat) (item : A) :
    hashMapInsertNodes fuel malloc memory key (some item) = .ok (errorCode, memory) := by
  obtain ⟨i, bound, below, place, inside, set⟩ := holds.slot nonneg
  have found := holds.find represents nonneg enough
  rw [hashMapFindNodes, place, if_neg (by omega)] at found
  obtain ⟨old, value⟩ := Option.ne_none_iff_exists'.mp present
  simp only [hashMapInsertNodes, place, setInsertNodes, found, value, Outcome.ok_bind]
  rw [if_neg (by omega)]
  simp only [Outcome.pure_eq_ok, Outcome.ok_bind, Function.update_eq_self]

/-- `HashMap_insert` links a new node for an absent key. -/
theorem insert_absent (holds : memory.Holds chains hm) (represents : hm.Represents map)
    (nonneg : 0 ≤ key) (absent : map key = none) {node : Nat} (free : memory.nodes node = none)
    (item : A) :
    ∃ next later result,
      (∀ fuel, (∀ i < memory.size, (chains i).length ≤ fuel) →
        hashMapInsertNodes fuel (some node) memory key (some item) = .ok (successCode, next)) ∧
      next.size = memory.size ∧ next.Holds later result ∧
      result.Represents (Function.update map key (some item)) := by
  obtain ⟨i, bound, below, place, inside, set⟩ := holds.slot nonneg
  have unknown : key ∉ hm.keys := fun known => represents.known.mpr known absent
  obtain ⟨result, inserted, sets⟩ := HashMap.insert_sets item inside
    ((HashMap.not_mem_keys inside).mp unknown)
  have outside (j : Nat) (belowJ : j < memory.size) : node ∉ addresses (chains j) :=
    fun listed => (holds.linked j belowJ).present listed free
  have linked : Linked (Function.update memory.nodes node (some ⟨(key, item), memory.heads i⟩))
      (some node) ((node, key, item) :: chains i) :=
    ⟨rfl, memory.heads i, Function.update_self .., (holds.linked i below).update (outside i below) _⟩
  refine ⟨{ memory with
      heads := Function.update memory.heads i (some node)
      nodes := Function.update memory.nodes node (some ⟨(key, item), memory.heads i⟩) }, _, result,
    fun fuel enough => ?_, rfl, holds.replace below linked ?_ ?_ ?_ ?_, ?_⟩
  · have found := holds.find represents nonneg enough
    rw [hashMapFindNodes, place, if_neg (by omega), absent] at found
    simp only [hashMapInsertNodes, place, setInsertNodes, found, Outcome.ok_bind]
    rw [if_neg (by omega)]
    rfl
  · exact List.nodup_cons.mpr ⟨outside i below, holds.distinct i below⟩
  · intro j belowJ differs addr listed
    refine Function.update_of_ne ?_ _ _
    rintro rfl
    exact outside j belowJ listed
  · intro j belowJ differs addr listed again
    rcases List.mem_cons.mp again with rfl | again
    · exact outside j belowJ listed
    · exact holds.apart j belowJ i below differs addr listed again
  · rw [sets, set]
    rfl
  · exact represents.insert unknown (HashMap.insert_eq_some inserted).2.1

/-- `HashMap_remove` finds no node of an absent key. -/
theorem remove_absent (holds : memory.Holds chains hm) (represents : hm.Represents map)
    (nonneg : 0 ≤ key) (absent : map key = none)
    (enough : ∀ i < memory.size, (chains i).length ≤ fuel) :
    hashMapRemoveNodes fuel memory key = .ok none := by
  obtain ⟨i, bound, below, place, inside, set⟩ := holds.slot nonneg
  have unknown : ¬∃ node ∈ chains i, node.2.1 = key := by
    rw [← holds.mem_keys inside]
    exact fun known => represents.known.mpr known absent
  have removed := setRemoveNodes_absent (holds.linked i below)
    (fun node listed same => unknown ⟨node, listed, same⟩) (enough i below)
  simp only [hashMapRemoveNodes, place, Int.toNat_natCast, removed, Outcome.ok_bind]
  rw [if_neg (by omega)]
  rfl

/-- `HashMap_remove` unlinks the node of a present key. -/
theorem remove_present (holds : memory.Holds chains hm) (represents : hm.Represents map)
    (nonneg : 0 ≤ key) {item : A} (present : map key = some item) :
    ∃ next later result,
      (∀ fuel, (∀ i < memory.size, (chains i).length ≤ fuel) →
        hashMapRemoveNodes fuel memory key = .ok (some (item, next))) ∧
      next.size = memory.size ∧ next.Holds later result ∧
      result.Represents (Function.update map key none) := by
  obtain ⟨i, bound, below, place, inside, set⟩ := holds.slot nonneg
  have known : key ∈ hm.keys := represents.known.mp (by rw [present]; exact Option.some_ne_none _)
  obtain ⟨node, listed, rfl⟩ := (holds.mem_keys inside).mp known
  obtain ⟨before, tail, split⟩ := List.append_of_mem listed
  obtain ⟨next, result, removed, outcome, size, holds'⟩ := holds.remove below split le_rfl
  obtain ⟨perm, -⟩ := HashMap.remove_eq_some outcome
  have entry := (represents _ _).mpr (perm.mem_iff.mpr List.mem_cons_self)
  obtain rfl := Option.some.inj (present.symm.trans entry)
  exact ⟨next, _, result, fun fuel enough => hashMapRemoveNodes_mono removed (enough i below), size,
    holds', represents.remove perm⟩

theorem make {numSlots : Nat} (positive : 0 < numSlots) (heap : Cells (Int × A)) :
    (hashMapNewNodes numSlots heap).Holds (fun _ => []) (hashMapNew numSlots positive) where
  size := List.length_replicate.symm
  sets i below := by
    exact (List.getElem?_replicate ..).trans (if_pos below)
  linked _ _ := rfl
  distinct _ _ := List.nodup_nil
  apart _ _ _ _ _ _ listed := by cases listed

/-- Some number of turns is enough for every chain. -/
theorem exists_enough (memory : SetMemory A) (chains : Nat → List (Nat × Int × A)) :
    ∃ bound, ∀ i < memory.size, (chains i).length ≤ bound :=
  ⟨(Finset.range memory.size).sup fun i => (chains i).length, fun _ below =>
    Finset.le_sup (f := fun i => (chains i).length) (Finset.mem_range.mpr below)⟩

/-- A call on the nodes gives the answer of the call on the map. -/
theorem call (holds : memory.Holds chains hm) (represents : hm.Represents map) {call : MapCall A}
    (nonneg : 0 ≤ call.key) (free : call.allocates memory.nodes) :
    ∃ next later result,
      (∀ fuel, (∀ i < memory.size, (chains i).length ≤ fuel) →
        call.onNodes fuel memory = .ok ((call.onMap map).1, next)) ∧
      next.size = memory.size ∧ next.Holds later result ∧ result.Represents (call.onMap map).2 := by
  cases call with
  | insert key item node =>
      change 0 ≤ key at nonneg
      by_cases absent : map key = none
      · obtain ⟨next, later, result, called, size, holds, represents⟩ :=
          holds.insert_absent represents nonneg absent free item
        refine ⟨next, later, result, fun fuel enough => ?_, size, holds, ?_⟩
        · rw [MapCall.onNodes, called fuel enough, MapCall.onMap, if_pos absent]
          rfl
        · rw [MapCall.onMap, if_pos absent]
          exact represents
      · refine ⟨memory, chains, hm, fun fuel enough => ?_, rfl, holds, ?_⟩
        · rw [MapCall.onNodes, holds.insert_present represents nonneg absent enough, MapCall.onMap,
            if_neg absent]
          rfl
        · rw [MapCall.onMap, if_neg absent]
          exact represents
  | find key =>
      change 0 ≤ key at nonneg
      refine ⟨memory, chains, hm, fun fuel enough => ?_, rfl, holds, represents⟩
      rw [MapCall.onNodes, holds.find represents nonneg enough]
      rfl
  | remove key =>
      change 0 ≤ key at nonneg
      cases value : map key with
      | none =>
          refine ⟨memory, chains, hm, fun fuel enough => ?_, rfl, holds, ?_⟩
          · rw [MapCall.onNodes, holds.remove_absent represents nonneg value enough, MapCall.onMap,
              value]
            rfl
          · have same : Function.update map key none = map := by
              rw [← value, Function.update_eq_self]
            rw [MapCall.onMap, same]
            exact represents
      | some item =>
          obtain ⟨next, later, result, called, size, holds, represents⟩ :=
            holds.remove_present represents nonneg value
          refine ⟨next, later, result, fun fuel enough => ?_, size, holds, represents⟩
          rw [MapCall.onNodes, called fuel enough, MapCall.onMap, value]
          rfl

end SetMemory.Holds

/-- The hash map in memory stands for a finite partial map. -/
structure SetMemory.StandsFor (memory : SetMemory A) (chains : Nat → List (Nat × Int × A))
    (map : Int → Option A) : Prop where
  linked : ∀ i < memory.size, Linked memory.nodes (memory.heads i) (chains i)
  /-- A key lies in the chain of its remainder, and all nodes have different keys. -/
  placed : ∀ i < memory.size, ∀ node ∈ chains i, node.2.1.tmod memory.size = i
  once : (((List.range memory.size).flatMap chains).map fun node => node.2.1).Nodup
  entries : ∀ key item, map key = some item ↔
    ∃ i < memory.size, ∃ node ∈ chains i, node.2 = (key, item)
  /-- Every call ends without a read of a freed node and answers as the map does. -/
  answers : ∀ call : MapCall A, 0 ≤ call.key → call.allocates memory.nodes → ∃ next,
    ∀ fuel, (∀ i < memory.size, (chains i).length ≤ fuel) →
      call.onNodes fuel memory = .ok ((call.onMap map).1, next)
  refused : ∀ key item malloc, 0 ≤ key → map key ≠ none → ∀ fuel,
    (∀ i < memory.size, (chains i).length ≤ fuel) →
      hashMapInsertNodes fuel malloc memory key (some item) = .ok (errorCode, memory)

theorem SetMemory.Holds.standsFor {memory : SetMemory A} {chains : Nat → List (Nat × Int × A)}
    {hm : HashMap A} {map : Int → Option A} (holds : memory.Holds chains hm)
    (represents : hm.Represents map) : memory.StandsFor chains map where
  linked := holds.linked
  placed _ below _ listed := holds.placed below listed
  once := holds.once
  entries key item := by
    rw [represents key item, holds.entries_eq]
    simp only [List.mem_map, List.mem_flatMap, List.mem_range]
    constructor
    · rintro ⟨node, ⟨i, below, listed⟩, same⟩
      exact ⟨i, below, node, listed, same⟩
    · rintro ⟨i, below, node, listed, same⟩
      exact ⟨node, ⟨i, below, listed⟩, same⟩
  answers call nonneg free := by
    obtain ⟨next, _, _, called, -⟩ := holds.call represents nonneg free
    exact ⟨next, called⟩
  refused key item malloc nonneg present fuel enough :=
    holds.insert_present represents nonneg present enough malloc item

/-- The nodes in memory refine the finite partial map. -/
theorem hashMapMachine_refines (numSlots : Nat) (heap : Cells (Int × A)) :
    (hashMapMachine numSlots heap).Refines mapMachine fun memory map =>
      memory.size = numSlots ∧ ∃ chains hm, memory.Holds chains hm ∧ hm.Represents map := by
  rintro memory map ⟨call, answer⟩ next ⟨size, chains, hm, holds, represents⟩
    ⟨nonneg, free, fuel, called⟩
  obtain ⟨other, later, result, same, kept, holds', represents'⟩ :=
    holds.call represents nonneg free
  obtain ⟨turns, enough⟩ := SetMemory.Holds.exists_enough memory chains
  -- Both runs end with the larger number of turns.
  have first := MapCall.onNodes_mono called (le_max_left fuel turns)
  have second := same (max fuel turns) fun i below => (enough i below).trans (le_max_right ..)
  obtain ⟨answers, rfl⟩ := Prod.mk.inj (Except.ok.inj (first.symm.trans second))
  exact ⟨_, Prod.ext answers.symm rfl, kept.trans size, later, result, holds', represents'⟩

/-- A hash map answers every sequence of calls as a finite partial map does. -/
theorem hashMap_isFiniteMap {numSlots : Nat} (positive : 0 < numSlots) {heap : Cells (Int × A)}
    {calls : List (MapCall A × Answer A)} {memory : SetMemory A}
    (trace : (hashMapMachine numSlots heap).Trace (hashMapNewNodes numSlots heap) calls memory) :
    memory.size = numSlots ∧ ∃ map chains, mapMachine.Trace (fun _ => none) calls map ∧
      memory.StandsFor chains map := by
  have empty : (hashMapNew numSlots positive : HashMap A).Represents fun _ => none := by
    intro key item
    rw [HashMap.entries_new]
    refine ⟨fun none => ?_, fun listed => ?_⟩
    · cases none
    · cases listed
  obtain ⟨map, mapped, size, chains, hm, holds, represents⟩ :=
    (hashMapMachine_refines numSlots heap).trace ⟨rfl, _, _, .make positive heap, empty⟩ trace
  exact ⟨size, map, chains, mapped, holds.standsFor represents⟩

end

/-- Three colliding keys are inserted, the middle one is removed, and one is refused. -/
theorem hashMap_isFiniteMap_colliding : ∃ (calls : List (MapCall Nat × Answer Nat))
    (memory : SetMemory Nat),
    calls.map Prod.snd = [.code successCode, .code successCode, .code successCode,
      .item (some 11), .code errorCode, .item none, .item (some 10)] ∧
    memory.size = 2 ∧ ∃ map chains, mapMachine.Trace (fun _ => none) calls map ∧
      memory.StandsFor chains map := by
  have trace : ∃ memory, (hashMapMachine 2 fun _ => none).Trace (hashMapNewNodes 2 fun _ => none)
      [(.insert 1 10 4, .code successCode), (.insert 3 11 5, .code successCode),
        (.insert 5 12 6, .code successCode), (.remove 3, .item (some 11)),
        (.insert 1 13 5, .code errorCode), (.find 3, .item none), (.find 1, .item (some 10))]
      memory :=
    ⟨_, .cons ⟨by decide, rfl, 3, rfl⟩ (.cons ⟨by decide, rfl, 3, rfl⟩
      (.cons ⟨by decide, rfl, 3, rfl⟩ (.cons ⟨by decide, trivial, 3, rfl⟩
        (.cons ⟨by decide, rfl, 3, rfl⟩ (.cons ⟨by decide, trivial, 3, rfl⟩
          (.cons ⟨by decide, trivial, 3, rfl⟩ .nil))))))⟩
  obtain ⟨memory, trace⟩ := trace
  exact ⟨_, memory, rfl, hashMap_isFiniteMap (Nat.succ_pos 1) trace⟩

end Yallnix

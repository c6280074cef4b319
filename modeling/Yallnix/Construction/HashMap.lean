import Yallnix.ToMathlib.Outcome
import Yallnix.Construction.Queue
import Mathlib.Data.List.Perm.Basic
import Mathlib.Data.List.Flatten
import Mathlib.Data.List.Nodup

namespace Yallnix

/-- A chain lists the nodes of one `set` from its head. -/
abbrev Chain (A : Type) := List (Int × A)

/-- `set_insert` refuses a present key and links the new node at the head. -/
def setInsert {A : Type} (set : Chain A) (key : Int) (item : A) : Option (Chain A) :=
  if key ∈ set.map Prod.fst then none else some ((key, item) :: set)

def setFind {A : Type} : Chain A → Int → Option A
  | [], _ => none
  | node :: next, key => if node.1 = key then some node.2 else setFind next key

/-- `set_remove` unlinks the first node with the key. -/
def setRemove {A : Type} : Chain A → Int → Option (A × Chain A)
  | [], _ => none
  | node :: next, key =>
      if node.1 = key then some (node.2, next)
      else (setRemove next key).map fun found => (found.1, node :: found.2)

theorem setInsert_eq_some {A : Type} {set result : Chain A} {key : Int} {item : A}
    (inserted : setInsert set key item = some result) :
    key ∉ set.map Prod.fst ∧ result = (key, item) :: set := by
  unfold setInsert at inserted
  split at inserted
  · cases inserted
  · rename_i absent
    exact ⟨absent, (Option.some.inj inserted).symm⟩

theorem setInsert_eq_none {A : Type} {set : Chain A} {key : Int} {item : A} :
    setInsert set key item = none ↔ key ∈ set.map Prod.fst := by
  unfold setInsert
  split <;> simp_all

theorem setFind_eq_some {A : Type} {set : Chain A} {key : Int} {item : A}
    (found : setFind set key = some item) : (key, item) ∈ set := by
  induction set with
  | nil => cases found
  | cons node next ih =>
      simp only [setFind] at found
      split at found
      · rename_i same
        rw [← same, ← Option.some.inj found]
        exact List.mem_cons_self
      · exact List.mem_cons_of_mem _ (ih found)

theorem setFind_eq_none {A : Type} {set : Chain A} {key : Int} :
    setFind set key = none ↔ key ∉ set.map Prod.fst := by
  induction set with
  | nil => simp [setFind]
  | cons node next ih =>
      by_cases same : node.1 = key
      · simp [setFind, same]
      · simp [setFind, same, ih, Ne.symm same]

theorem setRemove_perm {A : Type} {set result : Chain A} {key : Int} {item : A}
    (removed : setRemove set key = some (item, result)) :
    set.Perm ((key, item) :: result) := by
  induction set generalizing result with
  | nil => cases removed
  | cons node next ih =>
      simp only [setRemove] at removed
      split at removed
      · rename_i same
        obtain ⟨rfl, rfl⟩ := Prod.mk.inj (Option.some.inj removed)
        rw [← same]
      · obtain ⟨found, foundNext, eq⟩ := Option.map_eq_some_iff.mp removed
        obtain ⟨rfl, rfl⟩ := Prod.mk.inj eq
        exact ((ih foundNext).cons node).trans (List.Perm.swap _ _ _)

theorem setRemove_eq_none {A : Type} {set : Chain A} {key : Int} :
    setRemove set key = none ↔ key ∉ set.map Prod.fst := by
  induction set with
  | nil => simp [setRemove]
  | cons node next ih =>
      by_cases same : node.1 = key
      · simp [setRemove, same]
      · simp [setRemove, same, ih, Ne.symm same]

/-- Every chain of a hash map keeps distinct keys of its own bucket. -/
structure HashMap (A : Type) where
  sets : List (Chain A)
  positive : 0 < sets.length
  placed : ∀ (index : Nat) (inside : index < sets.length), ∀ node ∈ sets[index],
    node.1.tmod sets.length = index
  distinct : ∀ set ∈ sets, (set.map Prod.fst).Nodup

namespace HashMap

variable {A : Type}

/-- The entries follow the order of `HashMap_iterate`. -/
def entries (hm : HashMap A) : List (Int × A) := hm.sets.flatten

def keys (hm : HashMap A) : List Int := hm.entries.map Prod.fst

def items (hm : HashMap A) : List A := hm.entries.map Prod.snd

/-- The remainder of C keeps the sign of the key, so only some keys index the array. -/
def Fits (hm : HashMap A) (key : Int) : Prop := 0 ≤ key.tmod hm.sets.length

instance (hm : HashMap A) (key : Int) : Decidable (hm.Fits key) :=
  inferInstanceAs (Decidable (_ ≤ _))

theorem fits_of_nonneg (hm : HashMap A) {key : Int} (nonneg : 0 ≤ key) : hm.Fits key :=
  Int.tmod_nonneg _ nonneg

theorem bucket_lt (hm : HashMap A) {key : Int} (fits : hm.Fits key) :
    (key.tmod hm.sets.length).toNat < hm.sets.length := by
  have bound := Int.tmod_lt_of_pos key (show (0 : Int) < hm.sets.length by
    exact_mod_cast hm.positive)
  have nonneg : 0 ≤ key.tmod hm.sets.length := fits
  omega

/-- The bucket index `key % size` leaves the array for a negative remainder. -/
def bucket (hm : HashMap A) (key : Int) : Outcome (Fin hm.sets.length) :=
  if fits : hm.Fits key then .ok ⟨(key.tmod hm.sets.length).toNat, hm.bucket_lt fits⟩
  else .error .fault

theorem bucket_eq_ok {hm : HashMap A} {key : Int} {index : Fin hm.sets.length}
    (inside : hm.bucket key = .ok index) :
    hm.Fits key ∧ key.tmod hm.sets.length = index.val := by
  unfold bucket at inside
  split at inside
  · rename_i fits
    have eq := Except.ok.inj inside
    refine ⟨fits, ?_⟩
    have nonneg : 0 ≤ key.tmod hm.sets.length := fits
    rw [← eq]
    simp only
    omega
  · cases inside

theorem bucket_of_fits (hm : HashMap A) {key : Int} (fits : hm.Fits key) :
    ∃ index, hm.bucket key = .ok index :=
  ⟨_, dif_pos fits⟩

/-- A new chain replaces one element of the array of sets. -/
def replace (hm : HashMap A) (index : Fin hm.sets.length) (set : Chain A)
    (placed : ∀ node ∈ set, node.1.tmod hm.sets.length = index.val)
    (distinct : (set.map Prod.fst).Nodup) : HashMap A where
  sets := hm.sets.set index.val set
  positive := by simpa using hm.positive
  placed := by
    intro other inside node member
    simp only [List.length_set] at inside ⊢
    rw [List.getElem_set] at member
    split at member
    · rename_i same
      rw [← same]
      exact placed node member
    · exact hm.placed other inside node member
  distinct := by
    intro other member
    rcases List.mem_or_eq_of_mem_set member with old | rfl
    · exact hm.distinct other old
    · exact distinct

theorem setInsert_placed {hm : HashMap A} {key : Int} {item : A} {index : Fin hm.sets.length}
    {set : Chain A} (inside : hm.bucket key = .ok index)
    (inserted : setInsert hm.sets[index] key item = some set) :
    (∀ node ∈ set, node.1.tmod hm.sets.length = index.val) ∧ (set.map Prod.fst).Nodup := by
  obtain ⟨absent, rfl⟩ := setInsert_eq_some inserted
  constructor
  · intro node member
    rcases List.mem_cons.mp member with rfl | old
    · exact (bucket_eq_ok inside).2
    · exact hm.placed index.val index.isLt node old
  · exact List.nodup_cons.mpr ⟨absent, hm.distinct _ (List.getElem_mem _)⟩

theorem setRemove_placed {hm : HashMap A} {key : Int} {item : A} {index : Fin hm.sets.length}
    {set : Chain A} (removed : setRemove hm.sets[index] key = some (item, set)) :
    (∀ node ∈ set, node.1.tmod hm.sets.length = index.val) ∧ (set.map Prod.fst).Nodup := by
  have perm := setRemove_perm removed
  constructor
  · intro node member
    exact hm.placed index.val index.isLt node
      (perm.mem_iff.mpr (List.mem_cons_of_mem _ member))
  · have nodup := (perm.map Prod.fst).nodup_iff.mp (hm.distinct _ (List.getElem_mem _))
    exact (List.nodup_cons.mp nodup).2

end HashMap

/-- `HashMap_new` gives every slot an empty set. -/
def hashMapNew {A : Type} (numSlots : Nat) (positive : 0 < numSlots) : HashMap A where
  sets := List.replicate numSlots []
  positive := by simpa using positive
  placed := by
    intro index inside node member
    rw [List.getElem_replicate] at member
    cases member
  distinct := by
    intro set member
    rw [List.eq_of_mem_replicate member]
    exact List.nodup_nil

/-- `HashMap_insert` gives ERROR, here `none`, for a present key. -/
def hashMapInsert {A : Type} (hm : HashMap A) (key : Int) (item : A) :
    Outcome (Option (HashMap A)) :=
  match inside : hm.bucket key with
  | .error stop => .error stop
  | .ok index =>
      match inserted : setInsert hm.sets[index] key item with
      | none => .ok none
      | some set => .ok (some (hm.replace index set
          (HashMap.setInsert_placed inside inserted).1
          (HashMap.setInsert_placed inside inserted).2))

def hashMapFind {A : Type} (hm : HashMap A) (key : Int) : Outcome (Option A) :=
  match hm.bucket key with
  | .error stop => .error stop
  | .ok index => .ok (setFind hm.sets[index] key)

/-- `HashMap_remove` gives NULL, here `none`, for an absent key. -/
def hashMapRemove {A : Type} (hm : HashMap A) (key : Int) :
    Outcome (Option (A × HashMap A)) :=
  match hm.bucket key with
  | .error stop => .error stop
  | .ok index =>
      match removed : setRemove hm.sets[index] key with
      | none => .ok none
      | some (item, set) => .ok (some (item, hm.replace index set
          (HashMap.setRemove_placed removed).1 (HashMap.setRemove_placed removed).2))

/-- `HashMap_iterate` visits the chains in order and saves each next node before the call. -/
def hashMapIterate {A B : Type} (hm : HashMap A) (itemfunc : B → Int → A → B) (arg : B) : B :=
  hm.sets.foldl (fun state set => set.foldl (fun state node => itemfunc state node.1 node.2) state)
    arg

theorem flatten_set_perm {A : Type} (sets : List (List A)) (index : Nat)
    (inside : index < sets.length) (set : List A) :
    (sets.set index set).flatten.Perm (set ++ (sets.set index []).flatten) := by
  induction sets generalizing index with
  | nil => cases inside
  | cons first rest ih =>
      cases index with
      | zero => simp
      | succ index =>
          have tail := ih index (by simpa using inside)
          simp only [List.set_cons_succ, List.flatten_cons]
          exact (tail.append_left first).trans
            (List.perm_append_comm_assoc first set _)

theorem flatten_perm {A : Type} (sets : List (List A)) (index : Nat)
    (inside : index < sets.length) :
    sets.flatten.Perm (sets[index] ++ (sets.set index []).flatten) := by
  have whole := flatten_set_perm sets index inside sets[index]
  rwa [List.set_getElem_self] at whole

namespace HashMap

variable {A : Type}

theorem mem_entries {hm : HashMap A} {node : Int × A} :
    node ∈ hm.entries ↔ ∃ set ∈ hm.sets, node ∈ set := List.mem_flatten

theorem mem_items {hm : HashMap A} {item : A} :
    item ∈ hm.items ↔ ∃ key, (key, item) ∈ hm.entries := by
  simp [items]

theorem mem_keys {hm : HashMap A} {key : Int} :
    key ∈ hm.keys ↔ ∃ item, (key, item) ∈ hm.entries := by
  simp [keys]

/-- A node lies in the bucket that its key selects. -/
theorem mem_bucket {hm : HashMap A} {key : Int} {item : A} {index : Fin hm.sets.length}
    (inside : hm.bucket key = .ok index) :
    (key, item) ∈ hm.entries ↔ (key, item) ∈ hm.sets[index] := by
  constructor
  · intro member
    obtain ⟨set, present, node⟩ := mem_entries.mp member
    obtain ⟨other, bound, rfl⟩ := List.getElem_of_mem present
    have here := hm.placed other bound _ node
    have there := (bucket_eq_ok inside).2
    have same : other = index.val := by
      simp only at here
      omega
    subst same
    exact node
  · intro member
    exact mem_entries.mpr ⟨_, List.getElem_mem _, member⟩

theorem not_mem_keys {hm : HashMap A} {key : Int} {index : Fin hm.sets.length}
    (inside : hm.bucket key = .ok index) :
    key ∉ hm.keys ↔ key ∉ hm.sets[index].map Prod.fst := by
  rw [not_iff_not, mem_keys]
  simp only [List.mem_map, Prod.exists, exists_and_right, exists_eq_right]
  exact exists_congr fun item => mem_bucket inside

/-- No key has two nodes in the whole map. -/
theorem keys_nodup (hm : HashMap A) : hm.keys.Nodup := by
  have eq : hm.keys = (hm.sets.map fun set => set.map Prod.fst).flatten := by
    simp [keys, entries, List.map_flatten]
  rw [eq, List.nodup_flatten]
  constructor
  · intro keys member
    obtain ⟨set, present, rfl⟩ := List.mem_map.mp member
    exact hm.distinct set present
  · rw [List.pairwise_iff_getElem]
    intro first second firstInside secondInside before key one two
    simp only [List.getElem_map, List.length_map] at firstInside secondInside one two
    obtain ⟨node, nodeMember, rfl⟩ := List.mem_map.mp one
    obtain ⟨other, otherMember, same⟩ := List.mem_map.mp two
    have here := hm.placed first firstInside node nodeMember
    have there := hm.placed second secondInside other otherMember
    rw [same] at there
    omega

theorem entries_unique {hm : HashMap A} {key : Int} {first second : A}
    (one : (key, first) ∈ hm.entries) (two : (key, second) ∈ hm.entries) : first = second :=
  congrArg Prod.snd (List.inj_on_of_nodup_map hm.keys_nodup one two rfl)

@[simp] theorem entries_new (numSlots : Nat) (positive : 0 < numSlots) :
    (hashMapNew numSlots positive : HashMap A).entries = [] := by
  simp [entries, hashMapNew]

@[simp] theorem items_new (numSlots : Nat) (positive : 0 < numSlots) :
    (hashMapNew numSlots positive : HashMap A).items = [] := by
  simp [items]

/-- A successful insertion adds exactly one entry. -/
theorem insert_eq_some {hm result : HashMap A} {key : Int} {item : A}
    (inserted : hashMapInsert hm key item = .ok (some result)) :
    key ∉ hm.keys ∧ result.entries.Perm ((key, item) :: hm.entries) ∧
      result.sets.length = hm.sets.length := by
  unfold hashMapInsert at inserted
  split at inserted
  · cases inserted
  · rename_i index inside
    split at inserted
    · cases inserted
    · rename_i set added
      obtain ⟨absent, rfl⟩ := setInsert_eq_some added
      have eq := Option.some.inj (Except.ok.inj inserted)
      subst eq
      refine ⟨(not_mem_keys inside).mpr absent, ?_, by simp [replace]⟩
      exact (flatten_set_perm hm.sets index.val index.isLt _).trans
        ((flatten_perm hm.sets index.val index.isLt).symm.cons (key, item))

theorem insert_eq_none {hm : HashMap A} {key : Int} {item : A}
    (refused : hashMapInsert hm key item = .ok none) : key ∈ hm.keys := by
  unfold hashMapInsert at refused
  split at refused
  · cases refused
  · rename_i index inside
    split at refused
    · rename_i present
      by_contra absent
      exact (not_mem_keys inside).mp absent (setInsert_eq_none.mp present)
    · cases refused

/-- `HashMap_insert` answers for a key of an array slot. -/
theorem insert_of_fits {hm : HashMap A} {key : Int} (fits : hm.Fits key) (item : A) :
    ∃ result, hashMapInsert hm key item = .ok result := by
  cases outcome : hashMapInsert hm key item with
  | error stop =>
      obtain ⟨index, inside⟩ := hm.bucket_of_fits fits
      unfold hashMapInsert at outcome
      split at outcome
      · rename_i failed
        rw [inside] at failed
        cases failed
      · split at outcome <;> cases outcome
  | ok result => exact ⟨result, rfl⟩

/-- An absent key of an array slot is always inserted. -/
theorem insert_of_absent {hm : HashMap A} {key : Int} (fits : hm.Fits key)
    (absent : key ∉ hm.keys) (item : A) :
    ∃ result, hashMapInsert hm key item = .ok (some result) := by
  obtain ⟨result, outcome⟩ := insert_of_fits fits item
  cases result with
  | none => exact absurd (insert_eq_none outcome) absent
  | some result => exact ⟨result, outcome⟩

theorem find_eq_some {hm : HashMap A} {key : Int} {item : A}
    (found : hashMapFind hm key = .ok (some item)) : (key, item) ∈ hm.entries := by
  unfold hashMapFind at found
  split at found
  · cases found
  · rename_i index inside
    exact (mem_bucket inside).mpr (setFind_eq_some (Except.ok.inj found))

theorem find_eq_none {hm : HashMap A} {key : Int}
    (found : hashMapFind hm key = .ok none) : key ∉ hm.keys := by
  unfold hashMapFind at found
  split at found
  · cases found
  · rename_i index inside
    exact (not_mem_keys inside).mpr (setFind_eq_none.mp (Except.ok.inj found))

/-- A lookup fails only for a key outside the array. -/
theorem find_of_fits {hm : HashMap A} {key : Int} (fits : hm.Fits key) :
    ∃ result, hashMapFind hm key = .ok result := by
  obtain ⟨index, inside⟩ := hm.bucket_of_fits fits
  exact ⟨setFind hm.sets[index] key, by simp only [hashMapFind, inside]⟩

theorem fits_of_find {hm : HashMap A} {key : Int} {result : Option A}
    (found : hashMapFind hm key = .ok result) : hm.Fits key := by
  unfold hashMapFind at found
  split at found
  · cases found
  · rename_i index inside
    exact (bucket_eq_ok inside).1

/-- A successful removal deletes exactly one entry. -/
theorem remove_eq_some {hm result : HashMap A} {key : Int} {item : A}
    (removed : hashMapRemove hm key = .ok (some (item, result))) :
    hm.entries.Perm ((key, item) :: result.entries) ∧
      result.sets.length = hm.sets.length := by
  unfold hashMapRemove at removed
  split at removed
  · cases removed
  · rename_i index inside
    split at removed
    · cases removed
    · rename_i found set taken
      obtain ⟨rfl, rfl⟩ := Prod.mk.inj (Option.some.inj (Except.ok.inj removed))
      refine ⟨?_, by simp [replace]⟩
      have old := flatten_perm hm.sets index.val index.isLt
      have new := flatten_set_perm hm.sets index.val index.isLt set
      exact (old.trans ((setRemove_perm taken).append_right _)).trans (new.symm.cons _)

theorem remove_eq_none {hm : HashMap A} {key : Int}
    (removed : hashMapRemove hm key = .ok none) : key ∉ hm.keys := by
  unfold hashMapRemove at removed
  split at removed
  · cases removed
  · rename_i index inside
    split at removed
    · rename_i absent
      exact (not_mem_keys inside).mpr (setRemove_eq_none.mp absent)
    · cases removed

/-- A removal fails only for a key outside the array. -/
theorem remove_of_fits {hm : HashMap A} {key : Int} (fits : hm.Fits key) :
    ∃ result, hashMapRemove hm key = .ok result := by
  obtain ⟨index, inside⟩ := hm.bucket_of_fits fits
  unfold hashMapRemove
  split
  · rename_i failed
    rw [inside] at failed
    cases failed
  · split <;> exact ⟨_, rfl⟩

theorem fits_of_mem {hm : HashMap A} {key : Int} (known : key ∈ hm.keys) : hm.Fits key := by
  obtain ⟨item, entry⟩ := mem_keys.mp known
  obtain ⟨set, present, node⟩ := mem_entries.mp entry
  obtain ⟨index, bound, rfl⟩ := List.getElem_of_mem present
  have place := hm.placed index bound _ node
  change 0 ≤ key.tmod hm.sets.length
  dsimp only at place
  omega

/-- A lookup finds a present key, and a removal takes it out. -/
theorem find_of_mem {hm : HashMap A} {key : Int} (known : key ∈ hm.keys) :
    ∃ item, hashMapFind hm key = .ok (some item) := by
  obtain ⟨result, found⟩ := find_of_fits (fits_of_mem known)
  cases result with
  | none => exact absurd known (find_eq_none found)
  | some item => exact ⟨item, found⟩

theorem find_of_not_mem {hm : HashMap A} {key : Int} (fits : hm.Fits key)
    (absent : key ∉ hm.keys) : hashMapFind hm key = .ok none := by
  obtain ⟨result, found⟩ := find_of_fits fits
  cases result with
  | none => exact found
  | some item => exact absurd (mem_keys.mpr ⟨item, find_eq_some found⟩) absent

theorem remove_of_mem {hm : HashMap A} {key : Int} (known : key ∈ hm.keys) :
    ∃ item result, hashMapRemove hm key = .ok (some (item, result)) := by
  obtain ⟨result, removed⟩ := remove_of_fits (fits_of_mem known)
  cases result with
  | none => exact absurd known (remove_eq_none removed)
  | some pair => exact ⟨pair.1, pair.2, removed⟩

/-- One more entry is one more item. -/
theorem items_perm {hm result : HashMap A} {key : Int} {item : A}
    (perm : result.entries.Perm ((key, item) :: hm.entries)) :
    result.items.Perm (item :: hm.items) := by
  simpa [items] using perm.map Prod.snd

theorem count_items [DecidableEq A] {hm result : HashMap A} {key : Int} {item : A}
    (perm : result.entries.Perm ((key, item) :: hm.entries)) (other : A) :
    result.items.count other = hm.items.count other + if other = item then 1 else 0 := by
  rw [(items_perm perm).count_eq, count_front]

theorem mem_items_iff {hm result : HashMap A} {key : Int} {item : A}
    (perm : result.entries.Perm ((key, item) :: hm.entries)) (other : A) :
    other ∈ result.items ↔ other = item ∨ other ∈ hm.items := by
  rw [(items_perm perm).mem_iff, List.mem_cons]

theorem mem_keys_iff {hm result : HashMap A} {key : Int} {item : A}
    (perm : result.entries.Perm ((key, item) :: hm.entries)) (other : Int) :
    other ∈ result.keys ↔ other = key ∨ other ∈ hm.keys := by
  have keys : result.keys.Perm (key :: hm.keys) := by
    simpa [HashMap.keys] using perm.map Prod.fst
  rw [keys.mem_iff, List.mem_cons]

theorem iterate_eq_foldl {B : Type} (hm : HashMap A) (itemfunc : B → Int → A → B) (arg : B) :
    hashMapIterate hm itemfunc arg =
      hm.entries.foldl (fun state node => itemfunc state node.1 node.2) arg := by
  simp [hashMapIterate, entries, List.foldl_flatten]

end HashMap

end Yallnix

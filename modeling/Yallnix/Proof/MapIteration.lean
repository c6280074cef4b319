import Yallnix.Proof.MapRefinement

namespace Yallnix

section
variable {A S : Type}

/-- The nodes whose keys were not removed, in the order of their chain. -/
def remaining (removed : List Int) (chain : List (Nat × Int × A)) : List (Nat × Int × A) :=
  chain.filter fun node => node.2.1 ∉ removed

theorem remaining_nil (chain : List (Nat × Int × A)) : remaining [] chain = chain := by
  simp [remaining]

theorem remaining_cons (key : Int) (removed : List Int) (chain : List (Nat × Int × A)) :
    remaining [key] (remaining removed chain) = remaining (key :: removed) chain := by
  rw [remaining, remaining, remaining, List.filter_filter]
  refine List.filter_congr fun node _ => ?_
  simp [List.mem_cons, not_or]

/-- A chain without a removed key stays whole. -/
theorem remaining_eq_self {removed : List Int} {chain : List (Nat × Int × A)}
    (absent : ∀ node ∈ chain, node.2.1 ∉ removed) : remaining removed chain = chain :=
  List.filter_eq_self.mpr fun node listed => decide_eq_true (absent node listed)

theorem remaining_append (removed : List Int) (before tail : List (Nat × Int × A)) :
    remaining removed (before ++ tail) = remaining removed before ++ remaining removed tail :=
  List.filter_append ..

/-- Only the members of the removed keys count. -/
theorem remaining_congr {removed other : List Int} (same : ∀ key, key ∈ removed ↔ key ∈ other)
    (chain : List (Nat × Int × A)) : remaining removed chain = remaining other chain :=
  List.filter_congr fun node _ => decide_eq_decide.mpr (not_congr (same node.2.1))

/-- One node leaves a chain of different keys. -/
theorem remaining_split {before tail : List (Nat × Int × A)} {node : Nat × Int × A}
    (distinct : ((before ++ node :: tail).map fun node => node.2.1).Nodup) :
    remaining [node.2.1] (before ++ node :: tail) = before ++ tail := by
  rw [List.map_append, List.map_cons, List.nodup_middle, List.nodup_cons, ← List.map_append] at distinct
  have absent : ∀ other ∈ before ++ tail, other.2.1 ∉ [node.2.1] := by
    intro other listed same
    refine distinct.1 ?_
    rw [← List.mem_singleton.mp same]
    exact List.mem_map_of_mem listed
  have gone : remaining [node.2.1] (node :: tail) = remaining [node.2.1] tail :=
    List.filter_cons_of_neg (by simp)
  rw [remaining_append, gone, ← remaining_append, remaining_eq_self absent]

section
variable (memory : S → SetMemory A) (itemfunc : S → Int → A → Outcome S)

/-- A callback leaves the map alone, or it calls `HashMap_remove` for the visited key and goes on
with the answer. -/
inductive KeepsOrRemoves (s : S) (key : Int) (item : A) : Prop where
  | keeps {t : S} (called : itemfunc s key item = .ok t) (same : memory t = memory s)
  | removes (resume : Option (A × SetMemory A) → S)
      (called : ∀ fuel result, hashMapRemoveNodes fuel (memory s) key = .ok result →
        itemfunc s key item = .ok (resume result))
      (stored : ∀ found next, memory (resume (some (found, next))) = next)

/-- The callback does so at each visit when it is called for these entries one after another. -/
def KeepsOrRemovesEach : S → List (Int × A) → Prop
  | _, [] => True
  | s, entry :: entries => KeepsOrRemoves memory itemfunc s entry.1 entry.2 ∧
      ∀ t, itemfunc s entry.1 entry.2 = .ok t → KeepsOrRemovesEach t entries

/-- One call for each of these entries in turn, and the keys that the calls removed. -/
inductive Visits : S → List (Int × A) → List Int → S → Prop where
  | nil {s : S} : Visits s [] [] s
  | keeps {s t u : S} {entry : Int × A} {entries : List (Int × A)} {removed : List Int}
      (called : itemfunc s entry.1 entry.2 = .ok t) (same : memory t = memory s)
      (later : Visits t entries removed u) : Visits s (entry :: entries) removed u
  | removes {s t u : S} {entry : Int × A} {entries : List (Int × A)} {removed : List Int}
      {fuel : Nat} (called : itemfunc s entry.1 entry.2 = .ok t)
      (taken : hashMapRemoveNodes fuel (memory s) entry.1 = .ok (some (entry.2, memory t)))
      (later : Visits t entries removed u) : Visits s (entry :: entries) (entry.1 :: removed) u

end

variable {memory : S → SetMemory A} {itemfunc : S → Int → A → Outcome S}

theorem KeepsOrRemovesEach.left {s : S} {first second : List (Int × A)}
    (each : KeepsOrRemovesEach memory itemfunc s (first ++ second)) :
    KeepsOrRemovesEach memory itemfunc s first := by
  induction first generalizing s with
  | nil => trivial
  | cons entry first ih => exact ⟨each.1, fun t called => ih (each.2 t called)⟩

namespace Visits

variable {s t u : S} {first second : List (Int × A)} {gone later : List Int}

theorem append (before : Visits memory itemfunc s first gone t)
    (after : Visits memory itemfunc t second later u) :
    Visits memory itemfunc s (first ++ second) (gone ++ later) u := by
  induction before with
  | nil => exact after
  | keeps called same _ ih => exact .keeps called same (ih after)
  | removes called taken _ ih => exact .removes called taken (ih after)

/-- Only keys of visited entries are removed. -/
theorem subset (visits : Visits memory itemfunc s first gone t) : gone ⊆ first.map Prod.fst := by
  induction visits with
  | nil => exact List.Subset.refl _
  | keeps _ _ _ ih => exact List.subset_cons_of_subset _ ih
  | removes _ _ _ ih => exact List.cons_subset_cons _ ih

/-- The visits are the calls of the callback in this order. -/
theorem foldlM (visits : Visits memory itemfunc s first gone t) :
    first.foldlM (fun s entry => itemfunc s entry.1 entry.2) s = .ok t := by
  induction visits with
  | nil => rfl
  | keeps called _ _ ih =>
      rw [List.foldlM_cons, called]
      exact ih
  | removes called _ _ ih =>
      rw [List.foldlM_cons, called]
      exact ih

theorem rest (visits : Visits memory itemfunc s first gone t)
    (each : KeepsOrRemovesEach memory itemfunc s (first ++ second)) :
    KeepsOrRemovesEach memory itemfunc t second := by
  induction visits with
  | nil => exact each
  | keeps called _ _ ih => exact ih (each.2 _ called)
  | removes called _ _ ih => exact ih (each.2 _ called)

end Visits

/-- Equal chains hold the same map. -/
theorem SetMemory.Holds.congr {memory : SetMemory A} {chains other : Nat → List (Nat × Int × A)}
    {hm : HashMap A} (holds : memory.Holds chains hm)
    (same : ∀ i < memory.size, other i = chains i) : memory.Holds other hm where
  size := holds.size
  sets i below := by
    rw [same i below]
    exact holds.sets i below
  linked i below := by
    rw [same i below]
    exact holds.linked i below
  distinct i below := by
    rw [same i below]
    exact holds.distinct i below
  apart i belowI j belowJ := by
    rw [same i belowI, same j belowJ]
    exact holds.apart i belowI j belowJ

/-- `HashMap_remove` takes the node with the key out of every chain. -/
theorem SetMemory.Holds.removeKey {memory : SetMemory A} {chains : Nat → List (Nat × Int × A)}
    {hm : HashMap A} (holds : memory.Holds chains hm) {i : Nat} (inside : i < memory.size)
    {node : Nat × Int × A} (listed : node ∈ chains i) :
    ∃ fuel next result, hashMapRemoveNodes fuel memory node.2.1 = .ok (some (node.2.2, next)) ∧
      next.size = memory.size ∧ next.Holds (fun j => remaining [node.2.1] (chains j)) result := by
  obtain ⟨before, tail, split⟩ := List.append_of_mem listed
  obtain ⟨next, result, removed, -, size, after⟩ := holds.remove inside split le_rfl
  refine ⟨_, next, result, removed, size, after.congr fun j below => ?_⟩
  rw [size] at below
  have chainKeys : ((chains i).map fun node => node.2.1).Nodup := by
    have whole := holds.once
    rw [List.map_flatMap] at whole
    exact (List.nodup_flatten.mp whole).1 _
      (List.mem_map_of_mem (List.mem_range.mpr inside))
  by_cases same : j = i
  · subst same
    rw [Function.update_self, split]
    rw [split] at chainKeys
    exact remaining_split chainKeys
  · rw [Function.update_of_ne same]
    refine remaining_eq_self fun other member equal => same ?_
    have here := holds.placed below member
    rw [List.mem_singleton.mp equal, holds.placed inside listed] at here
    exact_mod_cast here.symm

/-- One visit of the iteration. -/
theorem KeepsOrRemoves.visit {s : S} {chains : Nat → List (Nat × Int × A)} {hm : HashMap A}
    {gone : List Int} (holds : (memory s).Holds (fun j => remaining gone (chains j)) hm) {i : Nat}
    (inside : i < (memory s).size) {node : Nat × Int × A} (listed : node ∈ chains i)
    (untouched : node.2.1 ∉ gone)
    (tolerates : KeepsOrRemoves memory itemfunc s node.2.1 node.2.2) :
    ∃ t removed result, itemfunc s node.2.1 node.2.2 = .ok t ∧
      Visits memory itemfunc s [node.2] removed t ∧ (memory t).size = (memory s).size ∧
      (memory t).Holds (fun j => remaining (removed ++ gone) (chains j)) result := by
  cases tolerates with
  | @keeps t called same =>
      refine ⟨t, [], hm, called, .keeps called same .nil, by rw [same], ?_⟩
      rw [same]
      exact holds
  | removes resume called stored =>
      have present : node ∈ remaining gone (chains i) :=
        List.mem_filter.mpr ⟨listed, decide_eq_true untouched⟩
      obtain ⟨fuel, next, result, removed, size, after⟩ := holds.removeKey inside present
      have memory_eq := stored node.2.2 next
      refine ⟨_, [node.2.1], result, called fuel _ removed,
        .removes (called fuel _ removed) (memory_eq.symm ▸ removed) .nil, by rw [memory_eq, size], ?_⟩
      rw [memory_eq]
      refine after.congr fun j _ => ?_
      exact (remaining_cons node.2.1 gone (chains j)).symm

/-- `set_iterate` visits the nodes of one chain, whatever the visits free. -/
theorem iterateSet_visits {s : S} {chains : Nat → List (Nat × Int × A)} {hm : HashMap A}
    {gone : List Int} (holds : (memory s).Holds (fun j => remaining gone (chains j)) hm)
    {i turns : Nat} (inside : i < (memory s).size) (before : List (Nat × Int × A))
    {tail : List (Nat × Int × A)} (split : chains i = before ++ tail) (distinct : (tail.map fun node => node.2.1).Nodup)
    (untouched : ∀ node ∈ tail, node.2.1 ∉ gone) {start : Option Nat}
    (linked : Linked (memory s).nodes start tail)
    (each : KeepsOrRemovesEach memory itemfunc s (tail.map Prod.snd)) (limit : tail.length ≤ turns) :
    ∃ t removed result, setIterateNodes memory itemfunc turns start s = .ok t ∧
      Visits memory itemfunc s (tail.map Prod.snd) removed t ∧ (memory t).size = (memory s).size ∧
      (memory t).Holds (fun j => remaining (removed ++ gone) (chains j)) result := by
  induction tail generalizing s hm gone before start turns with
  | nil =>
      obtain rfl : start = none := linked
      refine ⟨s, [], hm, ?_, .nil, rfl, holds⟩
      cases turns <;> rfl
  | cons node tail ih =>
      obtain ⟨turns, rfl⟩ := Nat.exists_eq_succ_of_ne_zero (Nat.ne_of_gt (Nat.zero_lt_of_lt limit))
      obtain ⟨rfl, next, found, behind⟩ := linked
      obtain ⟨notAgain, distinct⟩ := List.nodup_cons.mp distinct
      have listed : node ∈ chains i := split ▸ List.mem_append_right _ List.mem_cons_self
      obtain ⟨u, first, result, called, visit, size, holds⟩ :=
        each.1.visit holds inside listed (untouched node List.mem_cons_self)
      -- The visit removes no key of a later node, so the saved pointer leads on.
      have later : ∀ other ∈ tail, other.2.1 ∉ first ++ gone := by
        intro other member equal
        rcases List.mem_append.mp equal with equal | equal
        · have same := List.mem_singleton.mp (visit.subset equal)
          refine notAgain ?_
          change node.2.1 ∈ _
          rw [← same]
          exact List.mem_map_of_mem member
        · exact untouched other (List.mem_cons_of_mem _ member) equal
      have rest := holds.linked i (size ▸ inside)
      rw [split, ← List.singleton_append, ← List.append_assoc, remaining_append,
        remaining_eq_self later] at rest
      obtain ⟨begin, rest⟩ := rest.suffix
      obtain rfl := behind.start_eq rest
      obtain ⟨t, second, result, iterated, visits, sameSize, holds⟩ :=
        ih holds (size ▸ inside) (before ++ [node]) (by rw [split]; simp) distinct later rest
          (each.2 u called) (Nat.le_of_succ_le_succ limit)
      refine ⟨t, first ++ second, result, ?_, visit.append visits, sameSize.trans size,
        holds.congr fun j _ => remaining_congr (fun key => ?_) _⟩
      · simp only [setIterateNodes, found, deref, Outcome.ok_bind, called]
        exact iterated
      · simp only [List.mem_append]
        tauto

/-- `HashMap_iterate` visits the chains in order. -/
theorem iterate_visits {s : S} {chains : Nat → List (Nat × Int × A)} {hm : HashMap A}
    {gone : List Int} (holds : (memory s).Holds (fun j => remaining gone (chains j)) hm)
    {slots : List Nat} (inside : ∀ i ∈ slots, i < (memory s).size)
    (distinct : ((slots.flatMap chains).map fun node => node.2.1).Nodup)
    (untouched : ∀ node ∈ slots.flatMap chains, node.2.1 ∉ gone)
    (each : KeepsOrRemovesEach memory itemfunc s ((slots.flatMap chains).map Prod.snd))
    {fuel : Nat} (enough : ∀ i ∈ slots, (chains i).length ≤ fuel) :
    ∃ t removed result, hashMapIterateNodes memory itemfunc fuel slots s = .ok t ∧
      Visits memory itemfunc s ((slots.flatMap chains).map Prod.snd) removed t ∧
      (memory t).size = (memory s).size ∧
      (memory t).Holds (fun j => remaining (removed ++ gone) (chains j)) result := by
  induction slots generalizing s hm gone with
  | nil => exact ⟨s, [], hm, rfl, .nil, rfl, holds⟩
  | cons i slots ih =>
      have here : i ∈ i :: slots := List.mem_cons_self
      rw [List.flatMap_cons, List.map_append] at distinct each
      obtain ⟨distinctHere, distinct, apart⟩ := List.nodup_append.mp distinct
      have touched (node : Nat × Int × A) (member : node ∈ chains i) : node.2.1 ∉ gone :=
        untouched node (List.mem_flatMap.mpr ⟨i, here, member⟩)
      have linked := holds.linked i (inside i here)
      rw [remaining_eq_self touched] at linked
      obtain ⟨u, first, result, iterated, visits, size, holds⟩ :=
        iterateSet_visits holds (inside i here) [] rfl distinctHere
          touched linked each.left (enough i here)
      have still : ∀ node ∈ slots.flatMap chains, node.2.1 ∉ first ++ gone := by
        intro node member equal
        rcases List.mem_append.mp equal with equal | equal
        · have removed := visits.subset equal
          rw [List.map_map] at removed
          exact apart _ removed _ (List.mem_map_of_mem member) rfl
        · rw [List.flatMap_cons] at untouched
          exact untouched node (List.mem_append_right _ member) equal
      obtain ⟨t, second, result, whole, later, sameSize, holds⟩ :=
        ih holds (fun j member => size ▸ inside j (List.mem_cons_of_mem _ member)) distinct
          still (visits.rest each) (fun j member => enough j (List.mem_cons_of_mem _ member))
      refine ⟨t, first ++ second, result, ?_, ?_, sameSize.trans size,
        holds.congr fun j _ => remaining_congr (fun key => ?_) _⟩
      · simp only [hashMapIterateNodes, iterated, Outcome.ok_bind]
        exact whole
      · rw [List.flatMap_cons, List.map_append]
        exact visits.append later
      · simp only [List.mem_append]
        tauto

/-- `HashMap_iterate` calls a callback once for each entry that was there at the start, also when the
callback removes the visited key. -/
theorem hashMapIterate_tolerates {s : S} {chains : Nat → List (Nat × Int × A)} {hm : HashMap A}
    (holds : (memory s).Holds chains hm)
    (each : KeepsOrRemovesEach memory itemfunc s hm.entries) :
    ∃ t removed result,
      (∀ fuel, (∀ i < (memory s).size, (chains i).length ≤ fuel) →
        hashMapIterateNodes memory itemfunc fuel (List.range (memory s).size) s = .ok t) ∧
      hm.entries.foldlM (fun s entry => itemfunc s entry.1 entry.2) s = .ok t ∧
      Visits memory itemfunc s hm.entries removed t ∧ (memory t).size = (memory s).size ∧
      (memory t).Holds (fun i => remaining removed (chains i)) result ∧
      result.entries = hm.entries.filter fun entry => entry.1 ∉ removed := by
  have start : (memory s).Holds (fun j => remaining [] (chains j)) hm :=
    holds.congr fun j _ => remaining_nil (chains j)
  have run {fuel : Nat} (enough : ∀ i < (memory s).size, (chains i).length ≤ fuel) :=
    iterate_visits start (fun i member => List.mem_range.mp member) holds.once
      (fun _ _ => List.not_mem_nil) (holds.entries_eq ▸ each)
      (fun i member => enough i (List.mem_range.mp member))
  rw [← holds.entries_eq] at run
  obtain ⟨bound, enough⟩ := SetMemory.Holds.exists_enough (memory s) chains
  obtain ⟨t, removed, result, -, visits, size, left⟩ := run enough
  rw [List.append_nil] at left
  refine ⟨t, removed, result, fun fuel enough => ?_, visits.foldlM, visits, size, left, ?_⟩
  · obtain ⟨other, _, _, iterated, again, -⟩ := run enough
    rw [iterated, ← again.foldlM, visits.foldlM]
  · rw [left.entries_eq, holds.entries_eq, size, List.filter_map, List.filter_flatMap]
    rfl

end

/-- This callback notes each visit and removes the keys from a bound on. -/
def notesAndDrops (bound : Int) (s : SetMemory Nat × List (Int × Nat)) (key : Int) (item : Nat) :
    Outcome (SetMemory Nat × List (Int × Nat)) :=
  if key < bound then return (s.1, (key, item) :: s.2)
  else do
    match ← hashMapRemoveNodes 3 s.1 key with
    | none => return (s.1, (key, item) :: s.2)
    | some (_, memory) => return (memory, (key, item) :: s.2)

theorem notesAndDrops_removes {bound key : Int} {item found : Nat} {s next : SetMemory Nat}
    (log : List (Int × Nat)) (above : ¬key < bound)
    (short : hashMapRemoveNodes 0 s key = .error .halt)
    (removed : ∀ fuel, hashMapRemoveNodes (fuel + 1) s key = .ok (some (found, next))) :
    notesAndDrops bound (s, log) key item = .ok (next, (key, item) :: log) ∧
      KeepsOrRemoves Prod.fst (notesAndDrops bound) (s, log) key item := by
  have called : notesAndDrops bound (s, log) key item = .ok (next, (key, item) :: log) := by
    rw [notesAndDrops, if_neg above, removed 2]
    rfl
  refine ⟨called, .removes (fun result => (result.elim s Prod.snd, (key, item) :: log))
    (fun fuel result taken => ?_) fun _ _ => rfl⟩
  cases fuel with
  | zero =>
      rw [short] at taken
      cases taken
  | succ fuel =>
      rw [removed fuel] at taken
      cases taken
      exact called

/-- One slot has a chain of three nodes. -/
def threeNodes : SetMemory Nat where
  size := 1
  heads _ := some 4
  nodes := Function.update (Function.update (Function.update (fun _ => none)
    6 (some ⟨(3, 30), none⟩)) 5 (some ⟨(2, 20), some 6⟩)) 4 (some ⟨(1, 10), some 5⟩)

/-- The node behind the first one leaves the chain. -/
def dropSecond (memory : SetMemory Nat) (node : Nat) (next : Option Nat) : SetMemory Nat where
  size := 1
  heads := Function.update memory.heads 0 (some 4)
  nodes := Function.update (Function.update memory.nodes node none) 4 (some ⟨(1, 10), next⟩)

/-- The second and the last node of a chain of three are removed under the iteration. -/
theorem hashMapIterate_tolerates_adjacent :
    ∃ (t : SetMemory Nat × List (Int × Nat)) (removed : List Int) (result : HashMap Nat),
      hashMapIterateNodes Prod.fst (notesAndDrops 2) 3 [0] (threeNodes, []) = .ok t ∧
      Visits Prod.fst (notesAndDrops 2) (threeNodes, []) [(1, 10), (2, 20), (3, 30)] removed t ∧
      result.entries = [(1, 10), (2, 20), (3, 30)].filter fun entry => entry.1 ∉ removed := by
  let hm : HashMap Nat := ⟨[[(1, 10), (2, 20), (3, 30)]], by decide, by decide, by decide⟩
  have holds : threeNodes.Holds (fun _ => [(4, 1, 10), (5, 2, 20), (6, 3, 30)]) hm := by
    refine ⟨rfl, fun i below => ?_, fun _ _ => ⟨rfl, _, rfl, rfl, _, rfl, rfl, _, rfl, rfl⟩,
      fun _ _ => by decide, fun i belowI j belowJ differs => ?_⟩
    · obtain rfl := Nat.lt_one_iff.mp below
      rfl
    · exact absurd ((Nat.lt_one_iff.mp belowI).trans (Nat.lt_one_iff.mp belowJ).symm) differs
  have second (fuel : Nat) : hashMapRemoveNodes (fuel + 1) threeNodes 2 =
      .ok (some (20, dropSecond threeNodes 5 (some 6))) := rfl
  have third (fuel : Nat) : hashMapRemoveNodes (fuel + 1) (dropSecond threeNodes 5 (some 6)) 3 =
      .ok (some (30, dropSecond (dropSecond threeNodes 5 (some 6)) 6 none)) := rfl
  have each : KeepsOrRemovesEach Prod.fst (notesAndDrops 2) (threeNodes, []) hm.entries := by
    refine ⟨.keeps rfl rfl, fun t called => ?_⟩
    cases Except.ok.inj called
    have above : ¬(2 : Int) < 2 := by decide
    obtain ⟨called, tolerates⟩ := notesAndDrops_removes [(1, 10)] above rfl second
    refine ⟨tolerates, fun u again => ?_⟩
    cases Except.ok.inj (called.symm.trans again)
    exact ⟨(notesAndDrops_removes [(2, 20), (1, 10)] (by decide) rfl third).2, fun _ _ => trivial⟩
  obtain ⟨t, removed, result, iterated, -, visits, -, -, entries⟩ :=
    hashMapIterate_tolerates (s := (threeNodes, [])) holds each
  exact ⟨t, removed, result, iterated 3 fun _ _ => le_rfl, visits, entries⟩

end Yallnix

import Yallnix.Proof.FrameAccount
import Yallnix.Proof.PrivateFork

namespace Yallnix

section
variable [Hardware]

namespace KernelMemory

variable {m n : KernelMemory} {procs more : Set Addr} {reserved : Set Nat}
  {slots held : Set (Addr × Fin kernelStackPages)} {p : Addr}

/-- A slot of a kernel stack changes what this slot references. -/
theorem references_takeSlot (p : Addr) (i : Fin kernelStackPages) (pfn : Nat) (frames : FrameList)
    (m : KernelMemory) (a : Site) :
    KernelMemory.references ({ m with frameList := frames }.updatePcb p fun pcb =>
      { pcb with stackPfns := Function.update pcb.stackPfns i pfn }) a =
        if a = .slot p i then some pfn else m.references a := by
  cases a with
  | page q j =>
      rw [if_neg (by simp)]
      by_cases same : q = p
      · subst same
        simp only [KernelMemory.references, KernelMemory.updatePcb, Function.update_self]
      · simp only [KernelMemory.references, KernelMemory.updatePcb, Function.update_of_ne same]
  | slot q j =>
      by_cases same : q = p
      · subst same
        simp only [KernelMemory.references, KernelMemory.updatePcb, Function.update_self,
          Function.update_apply, Site.slot.injEq, true_and]
        split <;> rfl
      · rw [if_neg fun equal => same (Site.slot.inj equal).1]
        simp only [KernelMemory.references, KernelMemory.updatePcb, Function.update_of_ne same]
  | kernelPage j =>
      rw [if_neg (by simp)]
      rfl

/-- The sites of a process that gets a slot. -/
theorem sites_insert (procs : Set Addr) (slots : Set (Addr × Fin kernelStackPages)) (p : Addr)
    (i : Fin kernelStackPages) :
    sites procs (insert (p, i) slots) = insert (.slot p i) (sites procs slots) := by
  ext a
  cases a <;> simp [sites, Site.among]

/-- The sites and the reserved frames part the frames in use. -/
structure Parts (reserved : Set Nat) (procs : Set Addr) (slots : Set (Addr × Fin kernelStackPages))
    (m : KernelMemory) : Prop where
  exclusive : Exclusive (sites procs slots) m.references fun pfn =>
    pfn ∈ m.frameList.freeNumbers ∨ pfn ∈ reserved
  accounted : Accounted (sites procs slots) m.references (· ∈ m.frameList.numbers) fun pfn =>
    pfn ∈ m.frameList.freeNumbers ∨ pfn ∈ reserved
  kept : ∀ pfn ∈ reserved, pfn ∉ m.frameList.freeNumbers
  order : FreeFirst m.frameList.frames
  tabled : Tabled procs m

namespace Parts

/-- Without reserved frames the two halves are the invariants of a run. -/
theorem of_sole (sole : Sole procs slots m) (accounts : Accounts procs slots m) :
    Parts ∅ procs slots m :=
  ⟨sole.exclusive.mono subset_rfl (fun _ _ => rfl) fun _ inside =>
      inside.resolve_right (Set.notMem_empty _),
    Accounted.mono accounts subset_rfl (fun _ _ => rfl) fun _ => Or.inl,
    fun _ inside => absurd inside (Set.notMem_empty _), sole.order, sole.tabled⟩

theorem accounts (parts : Parts ∅ procs slots m) : Accounts procs slots m :=
  Accounted.mono parts.accounted subset_rfl (fun _ _ => rfl) fun _ inside =>
    inside.resolve_right (Set.notMem_empty _)

theorem sole (parts : Parts reserved procs slots m) : Sole procs slots m :=
  ⟨parts.exclusive.mono subset_rfl (fun _ _ => rfl) fun _ => Or.inl, parts.order,
    parts.tabled.kernel, parts.tabled.apart⟩

/-- Spared processes keep their frames. -/
theorem of_spares {own written : Set Addr} (parts : Parts reserved procs slots m)
    (spares : Spares own written m n) (spared : ∀ p ∈ procs, p ∉ own)
    (kept : ∀ slot ∈ slots, slot.1 ∉ own)
    (tables : ∀ p ∈ procs, (m.pcbs p).r1PageTable ∉ written) (kernel : m.regPtbr0 ∉ written)
    (frames : n.frameList = m.frameList) : Parts reserved procs slots n := by
  have same : ∀ a ∈ sites procs slots, n.references a = m.references a := fun a inside =>
    spares.references spared kept
      (fun p member => not_or.mpr ⟨parts.tabled.kernel p member, tables p member⟩) kernel inside
  refine ⟨?_, ?_, ?_, ?_, fun p member => ?_, fun p first q second equal => ?_⟩
  · rw [frames]
    exact parts.exclusive.mono subset_rfl same fun _ => id
  · rw [frames]
    exact parts.accounted.mono subset_rfl same fun _ => id
  · rw [frames]
    exact parts.kept
  · rw [frames]
    exact parts.order
  · rw [spares.r1PageTable p (spared p member), spares.regPtbr0]
    exact parts.tabled.kernel p member
  · rw [spares.r1PageTable p (spared p first), spares.r1PageTable q (spared q second)] at equal
    exact parts.tabled.apart p first q second equal

theorem leaves (parts : Parts reserved procs slots m) (leaves : LeavesSites m n) :
    Parts reserved procs slots n :=
  parts.of_spares leaves.toSpares (fun _ _ => Set.notMem_empty _) (fun _ _ => Set.notMem_empty _)
    (fun _ _ => Set.notMem_empty _) (Set.notMem_empty _) leaves.frameList

/-- A site that holds no frame takes the first free one. -/
theorem take {a : Site} {pfn : Nat} {frames : FrameList} (parts : Parts reserved procs slots m)
    (got : getFrame m.frameList = (some pfn, frames)) (fed : frames.starved = false)
    (list : n.frameList = frames) (inside : a ∈ sites more held)
    (cover : sites more held ⊆ insert a (sites procs slots))
    (sub : sites procs slots ⊆ sites more held)
    (empty : a ∈ sites procs slots → m.references a = none) (here : n.references a = some pfn)
    (others : ∀ b ∈ sites procs slots, b ≠ a → n.references b = m.references b)
    (tabled : Tabled more n) : Parts reserved more held n := by
  subst list
  obtain ⟨_, same, was, stays⟩ := getFrame_fresh got fed parts.order
  cases same
  obtain ⟨_, same, numbers, free⟩ := getFrame_first got fed
  cases same
  have unreserved : ∀ other ∈ reserved, other ≠ pfn := by
    rintro other listed rfl
    exact parts.kept other listed was
  refine ⟨?_, ?_, fun other listed inside => ?_, getFrame_order got parts.order, tabled⟩
  · refine (parts.exclusive.take (Or.inl was) here others ?_).mono cover (fun _ _ => rfl) fun _ => id
    rintro other (free | listed)
    · exact ⟨Or.inl (stays other free).1, (stays other free).2⟩
    · exact ⟨Or.inr listed, unreserved other listed⟩
  · rw [numbers]
    refine parts.accounted.change inside (fun b member other => ⟨sub member, others b member other⟩)
      (fun other listed => ?_) fun member other _ holds => ?_
    · rw [free] at listed
      rcases listed with listed | listed
      · rcases List.mem_cons.mp listed with rfl | listed
        · exact Or.inr here
        · exact Or.inl (Or.inl listed)
      · exact Or.inl (Or.inr listed)
    · rw [empty member] at holds
      cases holds
  · exact parts.kept other listed (stays other inside).1

/-- A process with an empty table joins. -/
theorem join (parts : Parts reserved procs slots m)
    (empty : ∀ i, (m.tables (m.pcbs p).r1PageTable).reference i = none)
    (tabled : Tabled (insert p procs) m) : Parts reserved (insert p procs) slots m := by
  refine ⟨?_, ?_, parts.kept, parts.order, tabled⟩
  · have pages : ∀ a ∈ Set.range (Site.page p), m.references a = none := by
      rintro _ ⟨i, rfl⟩
      exact empty i
    refine (parts.exclusive.join pages).mono (fun a inside => ?_) (fun _ _ => rfl) fun _ => id
    cases a with
    | page q i =>
        rcases inside with rfl | inside
        · exact Or.inr ⟨i, rfl⟩
        · exact Or.inl inside
    | slot q i => exact Or.inl inside
    | kernelPage i => exact Or.inl trivial
  · exact parts.accounted.mono (sites_mono (Set.subset_insert _ _) subset_rfl) (fun _ _ => rfl)
      fun _ => id

/-- The loop of `initPCB` fills new slots. -/
theorem takeStackFrames {list : List (Fin kernelStackPages)} {taken : Bool}
    (parts : Parts reserved procs slots m) (distinct : list.Nodup)
    (new : ∀ i ∈ list, (p, i) ∉ slots) (done : m.takeStackFrames p list = (taken, n))
    (fed : n.frameList.starved = false) :
    Parts reserved procs (slots ∪ {slot | slot.1 = p ∧ slot.2 ∈ list}) n := by
  induction list generalizing m slots with
  | nil =>
      cases done
      have same : slots ∪ {slot | slot.1 = p ∧ slot.2 ∈ []} = slots := by simp
      rwa [same]
  | cons i rest ih =>
      rw [KernelMemory.takeStackFrames] at done
      split at done
      · rename_i frames got
        cases done
        rw [getFrame_starves got] at fed
        cases fed
      · rename_i pfn frames got
        have later := CallsFrames.steady.takeStackFrames done
        obtain ⟨fresh, distinct⟩ := List.nodup_cons.mp distinct
        have refs := references_takeSlot p i pfn frames m
        let k := { m with frameList := frames }.updatePcb p fun pcb =>
          { pcb with stackPfns := Function.update pcb.stackPfns i pfn }
        have calls : CallsFrames m k := (CallsFrames.steady.takeFrame got).trans
          (CallsFrames.steady.updatePcb { m with frameList := frames } p rfl)
        have turn : Parts reserved procs (insert (p, i) slots) k :=
          parts.take got (later.fed fed) rfl (sites_insert procs slots p i ▸ Set.mem_insert _ _)
            (sites_insert procs slots p i).le (sites_mono subset_rfl (Set.subset_insert _ _))
            (fun inside => absurd inside (new i List.mem_cons_self)) ((refs _).trans (if_pos rfl))
            (fun a _ other => (refs a).trans (if_neg other)) (parts.tabled.calls calls)
        have all : slots ∪ {slot | slot.1 = p ∧ slot.2 ∈ i :: rest} =
            insert (p, i) slots ∪ {slot | slot.1 = p ∧ slot.2 ∈ rest} := by
          ext ⟨q, j⟩
          simp only [Set.mem_union, Set.mem_ofPred_eq, List.mem_cons, Set.mem_insert_iff,
            Prod.mk.injEq]
          tauto
        rw [all]
        refine ih turn distinct (fun j listed inside => ?_) done
        rcases inside with same | inside
        · cases same
          exact fresh listed
        · exact new j (List.mem_cons_of_mem i listed) inside

/-- `initPCB` joins a process with new stack frames. -/
theorem initPCB {memory : ProcessMemory} (parts : Parts reserved procs slots m) (quiet : m.Quiet)
    (unclaimed : Unclaimed memory procs slots m) (done : m.initPCB memory = .ok (true, n))
    (fed : n.frameList.starved = false) :
    Parts reserved (insert memory.pcb procs) (slots ∪ {slot | slot.1 = memory.pcb}) n := by
  obtain ⟨⟨found, first⟩, allocated, done⟩ := Outcome.bind_eq_ok.mp done
  have one := LeavesSites.malloc quiet allocated
  cases found with
  | false => cases done
  | true =>
      obtain ⟨second, allocated, done⟩ := Outcome.bind_eq_ok.mp done
      have two := one.trans (.mallocOrElse (one.quiet quiet) allocated)
      obtain ⟨third, allocated, done⟩ := Outcome.bind_eq_ok.mp done
      obtain ⟨⟨found, k⟩, allocated, stored⟩ :=
        Outcome.bind_eq_ok.mp (orElse_eq_ok.mp allocated)
      have three := two.trans (.malloc (two.quiet quiet) allocated)
      cases found with
      | false => cases stored
      | true =>
          cases stored
          have joins := parts.sole.newPcb unclaimed three
          have kept := parts.of_spares joins.toSpares
            (fun q member same => unclaimed.pcb (same ▸ member))
            (fun slot inside => unclaimed.stack slot inside)
            (fun q member => unclaimed.apart q member) (fun same => unclaimed.kernel same.symm)
            three.frameList
          have table : Function.update k.tables memory.r1PageTable
              Yallnix.initializeRegionPageTable memory.r1PageTable =
                Yallnix.initializeRegionPageTable := Function.update_self _ _ _
          have begun := kept.join (fun i => by
            rw [joins.own]
            exact (congrArg (PageTable.reference · i) table).trans
              (initializeRegionPageTable_reference i)) joins.sole.tabled
          dsimp only at done
          split at done
          · rename_i took
            cases done
            have all : {slot : Addr × Fin kernelStackPages | slot.1 = memory.pcb} =
                {slot | slot.1 = memory.pcb ∧ slot.2 ∈ List.finRange kernelStackPages} := by
              ext slot
              exact ⟨fun same => ⟨same, List.mem_finRange _⟩, fun both => both.1⟩
            rw [all]
            exact begun.takeStackFrames (List.nodup_finRange _)
              (fun i _ inside => unclaimed.stack _ inside rfl) took fed
          · obtain ⟨l, -, done⟩ := Outcome.bind_eq_ok.mp done
            cases done

end Parts

end KernelMemory

end

end Yallnix

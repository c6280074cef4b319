import Yallnix.Proof.SiteLoops

namespace Yallnix

section
variable [Hardware]

namespace KernelMemory

variable {m n k : KernelMemory} {procs fewer : Set Addr}
  {slots less : Set (Addr × Fin kernelStackPages)} {p : Addr}

/-- The frames of a process are not the frames of the other sites. -/
theorem Sole.away {a : Site} {pfn : Nat} (sole : Sole procs slots m) (first : fewer ⊆ procs)
    (second : less ⊆ slots) (inside : a ∈ sites procs slots) (outside : a ∉ sites fewer less)
    (held : m.references a = some pfn) : ∀ b ∈ sites fewer less, m.references b ≠ some pfn :=
  sole.exclusive.away (sites_mono first second) inside held outside

/-- A process that ends leaves the other ones with their own frames. -/
structure Departs (p : Addr) (procs : Set Addr) (slots : Set (Addr × Fin kernelStackPages))
    (m n : KernelMemory) : Prop extends Spares ∅ {(m.pcbs p).r1PageTable} m n where
  sole : Sole (procs \ {p}) {slot ∈ slots | slot.1 ≠ p} n

/-- The freed table of a process may hold any entries. -/
theorem Sole.freeTable (sole : Sole procs slots m) (member : p ∈ procs) (freedTable : PageTable) :
    Departs p procs slots m { m.freeValidFrames (m.pcbs p).r1PageTable with
      tables := Function.update m.tables (m.pcbs p).r1PageTable freedTable } := by
  have rest : Sole (procs \ {p}) {slot ∈ slots | slot.1 ≠ p} m :=
    sole.mono Set.sdiff_subset (Set.sep_subset _ _)
  have swept : Sole (procs \ {p}) {slot ∈ slots | slot.1 ≠ p}
      (m.freeValidFrames (m.pcbs p).r1PageTable) := by
    rw [KernelMemory.freeValidFrames, freeValidFrames_eq]
    refine rest.freeUnheld fun pfn listed => ?_
    obtain ⟨pte, valid, rfl⟩ := List.mem_map.mp listed
    obtain ⟨listed, valid⟩ := List.mem_filter.mp valid
    obtain ⟨i, found⟩ := List.getElem?_of_mem listed
    refine sole.away Set.sdiff_subset (Set.sep_subset _ _) (a := .page p i) member
      (fun inside => inside.2 rfl) ?_
    exact (PageTable.reference_of_getElem? found).trans (if_pos valid)
  have spares : Spares ∅ {(m.pcbs p).r1PageTable} (m.freeValidFrames (m.pcbs p).r1PageTable) _ :=
    .setTable _ (m.pcbs p).r1PageTable freedTable
  refine ⟨(Spares.frames m _).trans spares, ?_⟩
  refine swept.of_spares spares (fun _ _ => Set.notMem_empty _) (fun _ _ => Set.notMem_empty _)
    (fun q other same => ?_) (fun same => sole.kernel p member same.symm) swept.order
    fun _ => id
  exact other.2 (sole.apart q other.1 p member same)

/-- `delete_process` frees only frames of the process that it deletes. -/
theorem Sole.deleteProcess {freedTable : PageTable} (sole : Sole procs slots m) (quiet : m.Quiet)
    (member : p ∈ procs) (stack : ∀ i, (p, i) ∈ slots)
    (done : m.deleteProcess p freedTable = .ok n) : Departs p procs slots m n := by
  obtain ⟨k, freed, done⟩ := Outcome.bind_eq_ok.mp done
  obtain ⟨l, freedTwice, done⟩ := Outcome.bind_eq_ok.mp done
  have first := LeavesSites.free quiet freed
  have before := sole.of_leaves first
  have ended := before.freeTable member freedTable
  have second := LeavesSites.free (ended.quiet (first.quiet quiet)) freedTwice
  have spares : Spares ∅ {(k.pcbs p).r1PageTable} k l := ended.toSpares.trans second.spares
  have unheld : ∀ pfn ∈ (List.finRange kernelStackPages).map (k.pcbs p).stackPfns,
      ∀ a ∈ sites (procs \ {p}) {slot ∈ slots | slot.1 ≠ p}, l.references a ≠ some pfn := by
    intro pfn listed a inside
    obtain ⟨i, -, rfl⟩ := List.mem_map.mp listed
    rw [spares.references (fun _ _ => Set.notMem_empty _) (fun _ _ => Set.notMem_empty _)
      (fun q other => ?_) (fun same => before.kernel p member same.symm) inside]
    · refine before.away Set.sdiff_subset (Set.sep_subset _ _) (a := .slot p i) (stack i) ?_ rfl a
        inside
      exact fun inside => inside.2 rfl
    · rintro (same | same)
      · exact before.kernel q other.1 same
      · exact other.2 (before.apart q other.1 p member same)
  let frames := ((List.finRange kernelStackPages).map (k.pcbs p).stackPfns).foldl freeFrame
    l.frameList
  have swept : Sole (procs \ {p}) {slot ∈ slots | slot.1 ≠ p} { l with frameList := frames } :=
    (ended.sole.of_leaves second).freeUnheld unheld
  have done : { l with frameList := frames }.free = .ok n := by
    simp only [frames, List.foldl_map]
    exact done
  have last : LeavesSites { l with frameList := frames } n :=
    .free (second.quiet (ended.quiet (first.quiet quiet))) done
  have all := (first.spares.trans spares).trans ((Spares.frames l frames).trans last.spares)
  rw [first.r1PageTable p (Set.notMem_empty _)] at all
  exact ⟨all, swept.of_leaves last⟩

/-- An exit deletes the current process and switches to another one. -/
theorem Sole.exitProcess {freedTable : PageTable} {nextPCB : Addr} (sole : Sole procs slots m)
    (quiet : m.Quiet) (member : m.currPCB ∈ procs) (stack : ∀ i, (m.currPCB, i) ∈ slots)
    (done : m.exitProcess freedTable nextPCB = .ok n) :
    ∃ l, Departs m.currPCB procs slots m l ∧
      LeavesSites { l with live := l.live.erase m.currPCB } n := by
  obtain ⟨⟨_, k⟩, allocated, done⟩ := Outcome.bind_eq_ok.mp done
  obtain ⟨l, removed, done⟩ := Outcome.bind_eq_ok.mp done
  obtain ⟨⟨_, last⟩, switched, done⟩ := Outcome.bind_eq_ok.mp done
  cases done
  have before := LeavesSites.malloc quiet allocated
  have same : k.currPCB = m.currPCB := (CallsFrames.steadyHeap.malloc allocated).currPCB
  have after : l.currPCB = m.currPCB :=
    (CallsFrames.steadyHeap.deleteProcess trivial removed).currPCB.trans same
  rw [same] at removed
  have departs := (sole.of_leaves before).deleteProcess (before.quiet quiet) member stack removed
  have spares := departs.toSpares
  rw [before.r1PageTable _ (Set.notMem_empty _)] at spares
  refine ⟨l, ⟨before.spares.trans spares, departs.sole⟩, ?_⟩
  rw [← after]
  exact .switchBetween (departs.quiet (before.quiet quiet)) switched

end KernelMemory

end

end Yallnix

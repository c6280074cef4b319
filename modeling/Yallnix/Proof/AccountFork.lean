import Yallnix.Proof.AccountCalls
import Yallnix.Proof.FrameParts

namespace Yallnix

section
variable [Hardware]

namespace KernelMemory

variable {m n k : KernelMemory} {procs fewer : Set Addr}
  {slots less : Set (Addr × Fin kernelStackPages)} {p : Addr} {memory : ProcessMemory}

/-- The copy loop fails only without a frame. -/
theorem copyPages_starves {parentTable childTable : Addr} {count index : Nat}
    (done : m.copyPages parentTable childTable count index = .ok (false, n)) :
    n.frameList.starved = true := by
  induction count generalizing m index with
  | zero => cases done
  | succ count ih =>
      obtain ⟨pte, -, done⟩ := Outcome.bind_eq_ok.mp done
      split at done
      · exact ih done
      · split at done
        · rename_i frames got
          cases done
          exact getFrame_starves got
        · obtain ⟨mapped, -, done⟩ := Outcome.bind_eq_ok.mp done
          obtain ⟨k, -, done⟩ := Outcome.bind_eq_ok.mp done
          obtain ⟨l, -, done⟩ := Outcome.bind_eq_ok.mp done
          exact ih done

namespace Accounts

/-- A turn of the copy loop maps an invalid page of the child to a free frame. -/
theorem copyTurn {index : Nat} {prot : Prot} {pfn : Nat} {frames : FrameList}
    (accounts : Accounts procs slots m) (tabled : Tabled procs m) (member : p ∈ procs)
    (invalid : (m.tables (m.pcbs p).r1PageTable).maps index = false)
    (got : getFrame m.frameList = (some pfn, frames)) (fed : frames.starved = false)
    (leaves : LeavesSites { m with frameList := frames } k)
    (wrote : k.setPageTableEntryNoFlush ⟨(m.pcbs p).r1PageTable, index⟩ ⟨true, prot, pfn⟩ = .ok n) :
    Accounts procs slots n ∧ ∀ i, i ≠ index →
      (n.tables (m.pcbs p).r1PageTable).maps i = (m.tables (m.pcbs p).r1PageTable).maps i := by
  have own : (k.pcbs p).r1PageTable = (m.pcbs p).r1PageTable :=
    leaves.r1PageTable p (Set.notMem_empty p)
  have pages : ∀ i, (k.tables (m.pcbs p).r1PageTable).maps i =
      (m.tables (m.pcbs p).r1PageTable).maps i := by
    intro i
    rw [PageTable.maps, leaves.entries _ (Set.notMem_empty _) i fun same =>
      absurd same (tabled.kernel p member), PageTable.maps]
  have same : k.frameList = frames := leaves.frameList
  have back : LeavesSites m { k with frameList := m.frameList } :=
    ⟨((Spares.frames m frames).trans leaves.toSpares).trans (.frames k m.frameList), rfl⟩
  subst same
  rw [← own] at wrote invalid pages ⊢
  obtain ⟨inside, tlb, fills, rfl⟩ := setPageTableEntryNoFlush_eq_ok wrote
  refine ⟨(accounts.of_leaves tabled back).mapEntry (tabled.leaves back) member inside
    ((pages index).trans invalid) got fed, fun i other => ?_⟩
  exact maps_store_other inside (Nat.cast_injective.ne other) (pages i)

/-- The copy loop of `KernelFork` maps invalid pages of the child to free frames. -/
theorem copyPages {parentTable childTable : Addr} {count index : Nat} {copied : Bool}
    (accounts : Accounts procs slots m) (tabled : Tabled procs m) (member : p ∈ procs)
    (table : childTable = (m.pcbs p).r1PageTable)
    (invalid : ∀ i, index ≤ i → (m.tables childTable).maps i = false)
    (done : m.copyPages parentTable childTable count index = .ok (copied, n))
    (fed : n.frameList.starved = false) : Accounts procs slots n := by
  induction count generalizing m index with
  | zero =>
      cases done
      exact accounts
  | succ count ih =>
      obtain ⟨pte, -, done⟩ := Outcome.bind_eq_ok.mp done
      split at done
      · exact ih accounts tabled table (fun i low => invalid i (by omega)) done
      · split at done
        · rename_i frames got
          cases done
          rw [getFrame_starves got] at fed
          cases fed
        · rename_i pfn frames got
          obtain ⟨mapped, wroteTemp, done⟩ := Outcome.bind_eq_ok.mp done
          obtain ⟨k, wrotePage, done⟩ := Outcome.bind_eq_ok.mp done
          obtain ⟨l, wrote, done⟩ := Outcome.bind_eq_ok.mp done
          have leaves : LeavesSites { m with frameList := frames } k :=
            (LeavesSites.setTemp wroteTemp).trans (.copyPage wrotePage)
          have setOther : CallsFrames k l := CallsFrames.steady.setOther trivial wrote
          have calls : CallsFrames k n := setOther.trans (CallsFrames.steady.copyPages trivial done)
          have frameList : k.frameList = frames := leaves.frameList
          have fedHere : frames.starved = false := frameList ▸ calls.fed fed
          have tables : Tabled procs l :=
            ((⟨tabled.kernel, tabled.apart⟩ : Tabled procs { m with frameList := frames }).leaves
              leaves).calls setOther
          have own := (setOther.tables p).trans (leaves.r1PageTable p (Set.notMem_empty p))
          subst table
          obtain ⟨turn, others⟩ := accounts.copyTurn tabled member (invalid index le_rfl) got fedHere
            leaves wrote
          refine ih turn tables own.symm (fun i low => ?_) done
          rw [others i (by omega)]
          exact invalid i (by omega)

/-- `KernelFork` loses no frame. -/
theorem kernelFork {currKctxt : KernelContext} (sole : Sole procs slots m)
    (accounts : Accounts procs slots m) (quiet : m.Quiet)
    (unclaimed : Unclaimed memory procs slots m)
    (done : m.kernelFork memory currKctxt = .ok n) (fed : n.frameList.starved = false) :
    LeavesSites m n ∨ ∃ l,
      Accounts (insert memory.pcb procs) (slots ∪ {slot | slot.1 = memory.pcb}) l ∧
        Tabled (insert memory.pcb procs) l ∧ l.live = m.live ∧
          LeavesSites { l with live := insert memory.pcb l.live } n := by
  obtain ⟨⟨made, first⟩, initialized, done⟩ := Outcome.bind_eq_ok.mp done
  cases made with
  | false =>
      cases done
      exact Or.inl (sole.initPCB quiet unclaimed initialized fed)
  | true =>
      obtain ⟨⟨found, second⟩, allocated, done⟩ := Outcome.bind_eq_ok.mp done
      obtain ⟨⟨copied, third⟩, wrote, done⟩ := Outcome.bind_eq_ok.mp done
      have calls : CallsFrames first second := CallsFrames.steadyHeap.malloc allocated
      let filled := second.updatePcb memory.pcb fun pcb =>
        { pcb with kctxt := if found then some memory.kctxt else none, brk := second.curr.brk }
      have fills : CallsFrames second filled := CallsFrames.steady.updatePcb second memory.pcb rfl
      have copies : CallsFrames filled third := CallsFrames.steady.copyPages trivial wrote
      have later := (calls.trans fills).trans copies
      have built : third.frameList.starved = false →
          Joins memory (insert memory.pcb procs) (slots ∪ {slot | slot.1 = memory.pcb}) m third ∧
            Accounts (insert memory.pcb procs) (slots ∪ {slot | slot.1 = memory.pcb}) third := by
        intro fed
        have fedFirst := later.fed fed
        have joins := sole.initPCB quiet unclaimed initialized fedFirst
        rw [if_pos rfl] at joins
        have malloc := LeavesSites.malloc (joins.quiet quiet) allocated
        have next := joins.leaves malloc
        have child := Set.mem_insert memory.pcb procs
        have kernel := joins.sole.kernel _ child
        rw [joins.own] at kernel
        have empty : ∀ i, (second.tables memory.r1PageTable).maps i = false := by
          intro i
          obtain ⟨_, _, _, eq⟩ := initPCB_eq_ok quiet initialized fedFirst
          rw [PageTable.maps, malloc.entries _ (Set.notMem_empty _) i fun same => absurd same kernel,
            eq]
          dsimp only
          rw [Function.update_self]
          exact PageTable.reference_eq_none.mp (initializeRegionPageTable_reference i)
        have parts := (Parts.of_sole sole accounts).initPCB quiet unclaimed initialized fedFirst
        have taken := parts.accounts.of_leaves parts.tabled malloc
        have begun := next.works ((Reworks.refl next.sole).updatePcb (k := second) (f := fun pcb =>
          { pcb with kctxt := if found then some memory.kctxt else none, brk := second.curr.brk })
          rfl rfl)
        exact ⟨begun.works (begun.sole.copyPages child begun.own.symm wrote fed),
          (taken.updatePcb rfl rfl).copyPages begun.sole.tabled child begun.own.symm
            (fun i _ => empty i) wrote fed⟩
      cases copied with
      | false =>
          cases done
          rw [copyPages_starves wrote] at fed
          cases fed
      | true =>
          obtain ⟨fourth, reset, done⟩ := Outcome.bind_eq_ok.mp done
          obtain ⟨⟨_, fifth⟩, allocated, done⟩ := Outcome.bind_eq_ok.mp done
          obtain ⟨⟨_, last⟩, forked, done⟩ := Outcome.bind_eq_ok.mp done
          cases done
          have ends : LeavesSites { fifth with live := insert memory.pcb fifth.live } n :=
            .forkTo forked
          have calls := (CallsFrames.steady.setEntry reset).trans
            (CallsFrames.steadyHeap.malloc allocated)
          obtain ⟨joins, kept⟩ := built (calls.fed (ends.frameList ▸ fed))
          have temp := LeavesSites.setTemp reset
          have leaves := temp.trans (.malloc (temp.quiet (joins.quiet quiet)) allocated)
          have tabled := joins.sole.tabled
          exact Or.inr ⟨fifth, kept.of_leaves tabled leaves, tabled.leaves leaves,
            leaves.live.trans joins.live, ends⟩

end Accounts

end KernelMemory

end

end Yallnix

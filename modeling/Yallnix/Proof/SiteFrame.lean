import Yallnix.Proof.FramePlaces
import Yallnix.Proof.StackMemory

namespace Yallnix

section
variable [Hardware]

namespace KernelMemory

/-- Kernel code keeps all sites and all frames. -/
structure LeavesSites (m n : KernelMemory) : Prop extends Spares ∅ ∅ m n where
  frameList : n.frameList = m.frameList

variable {m n k : KernelMemory} {procs : Set Addr} {slots : Set (Addr × Fin kernelStackPages)}

/-- What keeps all sites spares everything. -/
theorem LeavesSites.spares {own written : Set Addr} (leaves : LeavesSites m n) :
    Spares own written m n :=
  leaves.toSpares.mono (Set.empty_subset _) (Set.empty_subset _)

theorem Sole.of_leaves (sole : Sole procs slots m) (leaves : LeavesSites m n) :
    Sole procs slots n := by
  refine sole.of_spares leaves.toSpares (fun _ _ => Set.notMem_empty _)
    (fun _ _ => Set.notMem_empty _) (fun _ _ => Set.notMem_empty _) (Set.notMem_empty _) ?_ ?_
  · rw [leaves.frameList]
    exact sole.order
  · rw [leaves.frameList]
    exact fun _ => id

namespace LeavesSites

theorem refl (m : KernelMemory) : LeavesSites m m := ⟨.refl _ _ m, rfl⟩

theorem trans (first : LeavesSites m k) (second : LeavesSites k n) : LeavesSites m n :=
  ⟨first.toSpares.trans second.toSpares, second.frameList.trans first.frameList⟩

/-- The hardware fills the TLB. -/
theorem mmu (next : Mmu) (tables : next.tables = m.tables) (region0 : next.regPtbr0 = m.regPtbr0) :
    LeavesSites m { m with toMmu := next } where
  regPtbr0 := region0
  live := rfl
  idlePCB := rfl
  r1PageTable _ _ := rfl
  stackPfns _ _ := rfl
  brk _ _ := rfl
  entries table _ i _ := congrArg (fun tables : Addr → PageTable => (tables table)[i]?) tables
  quiet := id
  frameList := rfl

/-- The entries of the kernel stack and the temporary entry are no sites. -/
theorem setKernelEntry {ptep : PtePtr} {pte : Pte} (table : ptep.table = m.regPtbr0)
    (high : (r0StackBase : Int) ≤ ptep.index + 1)
    (done : m.setPageTableEntry ptep pte = .ok n) : LeavesSites m n := by
  obtain ⟨inside, _, _, rfl⟩ := setPageTableEntry_eq_ok done
  refine ⟨⟨rfl, rfl, rfl, fun _ _ => rfl, fun _ _ => rfl, fun _ _ => rfl, fun other _ i low => ?_,
    id⟩, rfl⟩
  refine (m.toMmu.store_tables pte inside other i).trans (if_neg ?_)
  rintro ⟨same, rfl⟩
  have below := low (same.trans table)
  have nonneg := inside.1
  omega

theorem setTemp {pte : Pte} (done : m.setPageTableEntry m.tempPtep pte = .ok n) :
    LeavesSites m n := by
  refine setKernelEntry rfl ?_ done
  change (r0StackBase : Int) ≤ (r0StackBase : Int) - 1 + 1
  omega

theorem setStack {i : Fin kernelStackPages} {pte : Pte}
    (done : m.setPageTableEntry (m.stackPtep i) pte = .ok n) : LeavesSites m n := by
  refine setKernelEntry rfl ?_ done
  change (r0StackBase : Int) ≤ ((r0StackBase + i.val : Nat) : Int) + 1
  omega

/-- The contents of the frames do not matter. -/
theorem pages (m : KernelMemory) (pages : Nat → Page) : LeavesSites m { m with pages := pages } :=
  ⟨⟨rfl, rfl, rfl, fun _ _ => rfl, fun _ _ => rfl, fun _ _ => rfl, fun _ _ _ _ => rfl, id⟩, rfl⟩

theorem writePage {vpn : Nat} {page : Page} (done : m.writePage vpn page = .ok n) :
    LeavesSites m n := by
  unfold KernelMemory.writePage at done
  split at done
  · cases done
  · split at done
    · cases done
      exact pages m _
    · cases done

theorem copyPage {target source : Nat} (done : m.copyPage target source = .ok n) :
    LeavesSites m n := by
  obtain ⟨page, -, wrote⟩ := Outcome.bind_eq_ok.mp done
  exact writePage wrote

theorem fillPages {image : Nat → Page} {count vpn : Nat}
    (done : m.fillPages image count vpn = .ok n) : LeavesSites m n := by
  induction count generalizing m vpn with
  | zero =>
      cases done
      exact refl _
  | succ count ih =>
      obtain ⟨stored, wrote, done⟩ := Outcome.bind_eq_ok.mp done
      exact (writePage wrote).trans (ih done)

theorem mapStack {stack : List (Fin kernelStackPages)} (done : m.mapStack stack = .ok n) :
    LeavesSites m n := by
  induction stack generalizing m with
  | nil =>
      cases done
      exact refl _
  | cons i rest ih =>
      obtain ⟨stored, wrote, done⟩ := Outcome.bind_eq_ok.mp done
      exact (setStack wrote).trans (ih done)

theorem loadStarterStack {stack : List (Fin kernelStackPages)}
    (done : m.loadStarterStack stack = .ok n) : LeavesSites m n := by
  induction stack generalizing m with
  | nil =>
      cases done
      exact refl _
  | cons i rest ih =>
      obtain ⟨stored, wrote, done⟩ := Outcome.bind_eq_ok.mp done
      exact (writePage wrote).trans (ih done)

theorem copyStack {stack : List (Fin kernelStackPages)} (done : m.copyStack stack = .ok n) :
    LeavesSites m n := by
  induction stack generalizing m with
  | nil =>
      cases done
      exact refl _
  | cons i rest ih =>
      obtain ⟨mapped, wroteTemp, done⟩ := Outcome.bind_eq_ok.mp done
      obtain ⟨copied, wrotePage, done⟩ := Outcome.bind_eq_ok.mp done
      obtain ⟨stored, wrote, done⟩ := Outcome.bind_eq_ok.mp done
      exact (setTemp wroteTemp).trans
        ((copyPage wrotePage).trans ((setStack wrote).trans (ih done)))

/-- The saved context of a process does not matter. -/
theorem setKctxt (m : KernelMemory) (pcbp : Addr) (kctxt : Option KernelContext) :
    LeavesSites m (m.setKctxt pcbp kctxt) := by
  have pcbs : ∀ p, (m.setKctxt pcbp kctxt).pcbs p = { m.pcbs p with
      kctxt := ((m.setKctxt pcbp kctxt).pcbs p).kctxt } := by
    intro p
    by_cases same : p = pcbp
    · subst same
      simp only [KernelMemory.setKctxt, updatePcb, Function.update_self]
    · simp only [KernelMemory.setKctxt, updatePcb, Function.update_of_ne same]
  refine ⟨⟨rfl, rfl, rfl, fun p _ => ?_, fun p _ => ?_, fun p _ => ?_, fun _ _ _ _ => rfl, id⟩, rfl⟩
  all_goals rw [pcbs]

theorem saveContext {pcbp : Addr} {kctxt : KernelContext}
    (done : m.saveContext pcbp kctxt = .ok n) : LeavesSites m n := by
  rw [saveContext_eq_ok done]
  exact setKctxt m pcbp _

/-- A quiet C library keeps the heap of the kernel. -/
theorem malloc {found : Bool} (quiet : m.Quiet) (done : m.malloc = .ok (found, n)) :
    LeavesSites m n := by
  unfold KernelMemory.malloc at done
  split at done
  · cases done
    exact refl _
  · rename_i answer library answers
    have still : answer.breaks = [] := quiet answer (answers ▸ List.mem_cons_self)
    rw [still] at done
    cases done
    refine ⟨⟨rfl, rfl, rfl, fun _ _ => rfl, fun _ _ => rfl, fun _ _ => rfl, fun _ _ _ _ => rfl,
      fun _ later listed => ?_⟩, rfl⟩
    exact quiet later (answers ▸ List.mem_cons_of_mem _ listed)

theorem mallocOrElse {stop : Stop} (quiet : m.Quiet) (done : orElse stop m.malloc = .ok n) :
    LeavesSites m n :=
  malloc quiet (orElse_eq_ok.mp done)

theorem free (quiet : m.Quiet) (done : m.free = .ok n) : LeavesSites m n := by
  obtain ⟨answer, allocated, done⟩ := Outcome.bind_eq_ok.mp done
  cases done
  exact malloc quiet allocated

theorem startProcess (quiet : m.Quiet) (done : m.startProcess = .ok n) : LeavesSites m n := by
  unfold KernelMemory.startProcess at done
  split at done
  · cases done
    exact refl _
  · obtain ⟨k, allocated, done⟩ := Outcome.bind_eq_ok.mp done
    exact (mallocOrElse quiet allocated).trans
      ((setKctxt k k.currPCB (some k.starterKctxt)).trans (loadStarterStack done))

theorem switchRegion1 (m : KernelMemory) : LeavesSites m m.switchRegion1 := by
  obtain ⟨_, _, first⟩ := m.toMmu.tick_eq
  obtain ⟨_, _, second⟩ := (m.toMmu.writePtbr1 m.curr.r1PageTable).tick_eq
  refine mmu _ ?_ ?_
  all_goals
    rw [Mmu.flushRegion1, second]
    dsimp only
    rw [Mmu.writePtbr1, first]

/-- The sites do not depend on the running process. -/
theorem run (m : KernelMemory) (pcbp : Addr) : LeavesSites m { m with currPCB := pcbp } :=
  ⟨⟨rfl, rfl, rfl, fun _ _ => rfl, fun _ _ => rfl, fun _ _ => rfl, fun _ _ _ _ => rfl, id⟩, rfl⟩

theorem mode (m : KernelMemory) (mode : Mode) : LeavesSites m { m with mode := mode } :=
  ⟨⟨rfl, rfl, rfl, fun _ _ => rfl, fun _ _ => rfl, fun _ _ => rfl, fun _ _ _ _ => rfl, id⟩, rfl⟩

/-- A switch changes only entries of the kernel stack. -/
theorem switchBetween {currKctxt kctxt : KernelContext} {currPcbp : Option Addr} {nextPcbp : Addr}
    (quiet : m.Quiet) (done : m.switchBetween currKctxt currPcbp nextPcbp = .ok (kctxt, n)) :
    LeavesSites m n := by
  have enters : ∀ {k : KernelMemory}, LeavesSites m k →
      ({ k with currPCB := nextPcbp }.mapStack (List.finRange kernelStackPages) >>= fun m =>
        m.startProcess >>= fun m => m.switchRegion1.resumeContext) = .ok (kctxt, n) →
      LeavesSites m n := by
    intro k before done
    obtain ⟨l, mapped, done⟩ := Outcome.bind_eq_ok.mp done
    obtain ⟨last, started, done⟩ := Outcome.bind_eq_ok.mp done
    rw [(resumeContext_eq_ok done).2]
    have onStack := (before.trans (run k nextPcbp)).trans (mapStack mapped)
    exact onStack.trans ((startProcess (onStack.quiet quiet) started).trans (switchRegion1 last))
  cases currPcbp with
  | none => exact enters (refl m) done
  | some pcbp =>
      obtain ⟨k, saved, done⟩ := Outcome.bind_eq_ok.mp done
      exact enters (saveContext saved) done

theorem forkTo {currKctxt kctxt : KernelContext} {childPcbp : Addr}
    (done : m.forkTo currKctxt childPcbp = .ok (kctxt, n)) : LeavesSites m n := by
  obtain ⟨k, saved, done⟩ := Outcome.bind_eq_ok.mp done
  obtain ⟨l, copied, done⟩ := Outcome.bind_eq_ok.mp done
  obtain ⟨reset, wrote, done⟩ := Outcome.bind_eq_ok.mp done
  obtain ⟨last, given, done⟩ := Outcome.bind_eq_ok.mp done
  rw [(resumeContext_eq_ok done).2]
  exact (saveContext saved).trans ((run k childPcbp).trans ((copyStack copied).trans
    ((setTemp wrote).trans ((saveContext given).trans (switchRegion1 last)))))

theorem execTo {kctxt : KernelContext} (done : m.execTo = .ok (kctxt, n)) : LeavesSites m n := by
  obtain ⟨k, saved, done⟩ := Outcome.bind_eq_ok.mp done
  obtain ⟨l, loaded, done⟩ := Outcome.bind_eq_ok.mp done
  rw [(resumeContext_eq_ok done).2]
  exact (saveContext saved).trans (loadStarterStack loaded)

end LeavesSites

end KernelMemory

end

end Yallnix

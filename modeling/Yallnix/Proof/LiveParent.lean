import Yallnix.Proof.ForkMemory
import Yallnix.Proof.Reachability
import Yallnix.Construction.SmallMachine

namespace Yallnix

section
variable [Hardware]

/-- A failed fork may leave its child in the map of the parent, and it keeps the processes. -/
structure Crowd.FailsFork (c d : Crowd) : Prop where
  live : d.live = c.live
  nextPid : c.nextPid ≤ d.nextPid
  pid : ∀ a ∈ c.live, (d.proc a).pid = (c.proc a).pid
  parent : ∀ a ∈ c.live, (d.proc a).parent = (c.proc a).parent
  pos : ∀ a ∈ c.live, (d.proc a).pos = (c.proc a).pos
  keepsChildren : ∀ a ∈ c.live, (c.proc a).children ⊆ (d.proc a).children
  newChildren : ∀ a ∈ c.live, ∀ node ∈ (d.proc a).children,
    node ∈ (c.proc a).children ∨ node.1 < d.nextPid

theorem Family.failsFork {c d : Crowd} (family : Family c) (fails : c.FailsFork d) :
    Family d where
  pidUsed a live := by
    rw [fails.live] at live
    rw [fails.pid a live]
    exact lt_of_lt_of_le (family.pidUsed a live) fails.nextPid
  pidDistinct a liveA b liveB same := by
    rw [fails.live] at liveA liveB
    rw [fails.pid a liveA, fails.pid b liveB] at same
    exact family.pidDistinct a liveA b liveB same
  parentLive a live q parent := by
    rw [fails.live] at live ⊢
    rw [fails.parent a live] at parent
    rw [fails.pid a live]
    obtain ⟨liveQ, member⟩ := family.parentLive a live q parent
    exact ⟨liveQ, fails.keepsChildren q liveQ member⟩
  childPid a live node member := by
    rw [fails.live] at live
    rcases fails.newChildren a live node member with old | used
    · exact lt_of_lt_of_le (family.childPid a live node old) fails.nextPid
    · exact used

/-- A fork that gives up early changes no process. -/
theorem Apart.failsFork {child : Addr} {s t : Scheduler} (apart : Apart child s t)
    (fresh : child ∉ s.live) : s.crowd.FailsFork t.crowd := by
  have proc (a : Addr) (live : a ∈ s.live) : t.crowd.proc a = s.crowd.proc a :=
    apart.proc fun same => fresh (same ▸ live)
  refine ⟨apart.live, apart.nextPid, ?_, ?_, ?_, ?_, ?_⟩
  all_goals intro a live
  all_goals rw [proc a live]
  intro node member
  exact .inl member

section
variable {s w : Scheduler} {child : Addr} {childrenMap : HashMap Addr}

/-- The map of the parent does not move a process. -/
theorem NewChild.adopt_pos (new : NewChild s w child) (fresh : child ∉ s.live)
    (a : Addr) (live : a ∈ s.live) : (adopt w childrenMap).pos a = s.pos a := by
  have other : a ≠ child := fun same => fresh (same ▸ live)
  by_cases isCurr : a = s.currPCB
  · subst isCurr
    rw [s.pos_curr, ← new.apart.cpu]
    exact if_pos new.apart.currPCB.symm
  · rw [← new.apart.pos other]
    simp only [Scheduler.pos, new.adopt_apart childrenMap a isCurr]
    rfl

theorem NewChild.adopt_placed (new : NewChild s w child) (placed : Placed s)
    (fresh : child ∉ s.live) : Placed (adopt w childrenMap) := by
  have adopted : Settled (adopt w childrenMap) s.pos {s.currPCB} :=
    new.adopted placed fresh
  rw [← new.apart.currPCB] at adopted
  exact adopted.congr fun a live => new.adopt_pos fresh a (new.apart.live ▸ live)

/-- A fork that finds no node of `readyQ` leaves the child in the map of the parent. -/
theorem NewChild.failsFork (new : NewChild s w child) (fresh : child ∉ s.live)
    (differs : s.currPCB ≠ child)
    (perm : childrenMap.entries.Perm ((s.nextPid, child) :: s.curr.childrenMap.entries)) :
    s.crowd.FailsFork (adopt w childrenMap).crowd := by
  have nextPid : s.nextPid < w.nextPid := by
    rw [new.nextPid]
    exact Int.lt_succ _
  have old (a : Addr) (live : a ∈ s.live) : a ≠ child := fun same => fresh (same ▸ live)
  have pcb (a : Addr) (live : a ∈ s.live) (other : a ≠ s.currPCB) :
      (adopt w childrenMap).pcbs a = s.pcbs a :=
    (new.adopt_apart childrenMap a other).trans (new.apart.pcbs a (old a live))
  have curr : (adopt w childrenMap).pcbs s.currPCB =
      { s.curr with childrenMap := childrenMap, numChildren := s.curr.numChildren + 1 } :=
    new.adopt_curr differs
  constructor
  · exact new.apart.live
  · exact le_of_lt nextPid
  · intro a live
    exact new.adopt_pid differs a (old a live)
  · intro a live
    change ((adopt w childrenMap).pcbs a).parent = (s.pcbs a).parent
    by_cases isCurr : a = s.currPCB
    · rw [isCurr, curr]
      rfl
    · rw [pcb a live isCurr]
  · exact new.adopt_pos fresh
  · intro a live node member
    change node ∈ ((adopt w childrenMap).pcbs a).childrenMap.entries
    by_cases isCurr : a = s.currPCB
    · subst isCurr
      rw [curr, perm.mem_iff]
      exact List.mem_cons_of_mem _ member
    · rw [pcb a live isCurr]
      exact member
  · intro a live node member
    change node ∈ ((adopt w childrenMap).pcbs a).childrenMap.entries at member
    by_cases isCurr : a = s.currPCB
    · subst isCurr
      rw [curr, perm.mem_iff, List.mem_cons] at member
      rcases member with rfl | before
      · exact .inr nextPid
      · exact .inl before
    · rw [pcb a live isCurr] at member
      exact .inl member

end

/-- A fork that returns an error keeps the invariants. -/
theorem Sound.failsFork {s : Kernel} {t : Scheduler} (sound : Sound s) (user : s.cpu = .user)
    (placed : Placed t) (cpu : t.cpu = s.cpu) (fails : s.crowd.FailsFork t.crowd) :
    Sound (finishScheduler .fork s (.ret t errorCode)) := by
  obtain ⟨result, crowd⟩ := sysReturn_refines placed .fork errorCode (by rw [cpu, user]; rfl)
  rw [finishScheduler_eq]
  refine ⟨result, sound.named, ?_, ?_⟩
  · change Family (t.sysReturn .fork errorCode).crowd
    rw [crowd]
    exact (sound.family.failsFork fails).keeps (.finish _ _ _ _)
  · intro a live
    change a ∈ t.live at live
    change (((t.sysReturn .fork errorCode).crowd.proc a).pos).carriesCall = true
    rw [crowd, Crowd.finish_pos]
    split
    · rfl
    · have before : a ∈ s.crowd.live := by
        rw [← fails.live]
        exact live
      rw [fails.pos a before]
      exact sound.carries a before

/-- A fork with a node for the child keeps the invariants, whatever else runs out. -/
theorem Sound.fork {s : Kernel} {memory : ForkMemory} {oracle : Oracle} {flow : Flow Scheduler}
    (sound : Sound s) (node : memory.childNode = true)
    (ready : enabled s (.kernelCall .fork oracle))
    (done : kernelForkWith memory oracle s.toScheduler = .ok flow) :
    Sound (finishScheduler .fork s flow) := by
  simp only [enabled, Bool.and_eq_true, decide_eq_true_eq, isUser_iff] at ready
  obtain ⟨⟨⟨user, notIdle⟩, fresh⟩, _⟩ := ready
  have placed := sound.placed
  have notLive : oracle.pcb ∉ s.live := fun live => fresh (placed.allocated live)
  have differs : s.currPCB ≠ oracle.pcb := fun same => notLive (same ▸ placed.live)
  rcases kernelForkWith_cases placed sound.family fresh done with
    ⟨t, rfl, apart⟩ | ⟨w, childrenMap, new, added, rfl | rfl⟩
  · exact sound.failsFork user (apart.placed placed notLive) apart.cpu (apart.failsFork notLive)
  · exact sound.failsFork user (new.adopt_placed placed notLive) new.apart.cpu (new.failsFork notLive differs (added node))
  · obtain ⟨result, step⟩ := new.refines placed sound.family user notIdle notLive (added node) rfl
    refine sound.refines none ?_
    rw [finishScheduler_eq]
    exact .ofCrowd sound.named rfl result step

/-- A run stays sound while the insertion of each child finds its node. -/
theorem run_sound {s : Kernel}
    (run : scarceYallnix.Run (fun _ i => i.memory.childNode = true) s) : Sound s := by
  refine run.invariant ?_ ?_
  · rintro s ⟨boot, done⟩
    exact (kernelStart_fresh done).1
  · rintro s ⟨input, memory⟩ t sound node ⟨ready, done⟩
    unfold handleWith at done
    dsimp only at node ready done
    split at done
    · obtain ⟨flow, forked, done⟩ := Outcome.bind_eq_ok.mp done
      cases done
      exact sound.fork node ready forked
    · exact (sound.step ⟨ready, done⟩).1

/-- The parent of each live process is NULL or alive and holds the process under its pid, and an
exit reports only to live processes. -/
structure Scheduler.ParentsAlive (s : Scheduler) : Prop where
  parent : ∀ a ∈ s.live, ∀ parent, (s.pcbs a).parent = some parent →
    parent ∈ s.live ∧ ((s.pcbs a).pid, a) ∈ (s.pcbs parent).childrenMap.entries
  exit : ∀ status t, reportExit status s = .ok t → ∀ a,
    (t.pcbs a).zombieQ ≠ (s.pcbs a).zombieQ → a ∈ s.live

theorem unblockProcess_pcbs {s t : Scheduler} {cause : Cause} {pid : Int}
    (done : unblockProcess cause pid s = .ok t) : t.pcbs = s.pcbs := by
  unfold unblockProcess at done
  obtain ⟨removed, _, done⟩ := Outcome.bind_eq_ok.mp done
  cases removed with
  | none =>
      cases done
      rfl
  | some found =>
      cases done
      rfl

/-- The report of an exit changes the zombie queue of the parent only. -/
theorem reportExit_zombieQ {s t : Scheduler} {status : Int} (done : reportExit status s = .ok t)
    {a : Addr} (changed : (t.pcbs a).zombieQ ≠ (s.pcbs a).zombieQ) : s.curr.parent = some a := by
  rw [reportExit] at done
  cases parent : s.curr.parent with
  | none =>
      rw [parent] at done
      cases done
      exact absurd rfl changed
  | some q =>
      rw [parent] at done
      rw [unblockProcess_pcbs done] at changed
      by_contra other
      refine changed (congrArg PCB.zombieQ (Function.update_of_ne ?_ _ _))
      rintro rfl
      exact other rfl

theorem Sound.parentsAlive {s : Kernel} (sound : Sound s) : s.ParentsAlive where
  parent := sound.family.parentLive
  exit _ _ done a changed :=
    (sound.family.parentLive s.currPCB sound.placed.live a (reportExit_zombieQ done changed)).1

/-- Parents stay alive while the insertion of each child finds its node. -/
theorem run_parentsAlive {s : Kernel}
    (run : scarceYallnix.Run (fun _ i => i.memory.childNode = true) s) : s.ParentsAlive :=
  (run_sound run).parentsAlive

end

section
attribute [local instance] smallHardware

/-- The first child of `init` has a live parent. -/
theorem run_parentsAlive_small : ∃ s : Kernel, 2 ∈ s.live ∧ (s.pcbs 2).parent = some 1 ∧
    s.ParentsAlive := by
  obtain ⟨s, reachable, tested⟩ := exists_reachable
    (fun s => decide (2 ∈ s.live ∧ (s.pcbs 2).parent = some 1)) [forks 2] (by decide +kernel)
  obtain ⟨live, parent⟩ := of_decide_eq_true tested
  exact ⟨s, live, parent, run_parentsAlive (reachable.scarce fun _ _ => rfl)⟩

/-- `KernelFork` ignores the result of `HashMap_insert` and runs a child outside of the map. -/
theorem parentsAlive_false : ¬∀ s : Kernel, scarceYallnix.Reachable s → s.ParentsAlive := by
  intro all
  let scarce : ForkMemory := { plenty with childNode := false }
  obtain ⟨s, reachable, tested⟩ := exists_reachable
    (fun s => enabled s (forks 2) && ends (fun t => decide (2 ∈ t.live ∧
      (t.pcbs 2).parent = some 1 ∧ (t.pcbs 1).childrenMap.entries = []))
        (handleWith s ⟨forks 2, scarce⟩)) [] (by decide +kernel)
  rw [Bool.and_eq_true] at tested
  obtain ⟨t, handled, child⟩ := ends_eq_true tested.2
  obtain ⟨live, parent, empty⟩ := of_decide_eq_true child
  have alive := all t (.step (reachable.scarce fun _ _ => trivial) trivial ⟨tested.1, handled⟩)
  have held := (alive.parent 2 live 1 parent).2
  rw [empty] at held
  exact List.not_mem_nil held

end

end Yallnix

import Yallnix.Proof.PcbFrame
import Yallnix.Proof.PipeStream
import Yallnix.Proof.ReadOrder
import Yallnix.Proof.WaitEntry

namespace Yallnix

section
variable [Hardware]

/-- The program points of processes that only fork and use pipes. -/
def Pos.isPipeWork : Pos → Bool
  | .user | .starter | .trapReturn | .fork .. | .pipeRead .. => true
  | _ => false

/-- Processes fork, create pipes, read and write, and the clock switches between them. -/
def Input.isPipeWork : Input → Bool
  | .kernelCall .fork _ | .kernelCall .pipeInit _ => true
  | .kernelCall (.pipeRead ..) _ | .kernelCall (.pipeWrite ..) _ => true
  | .clock | .resume _ => true
  | _ => false

namespace View

variable {p next : Addr} {act : Option Call} {v w : View}

/-- Only a reclaim takes an id from the map of the pipes. -/
theorem Step.pipeIds (bounded : v.toObjects.Bounded) (step : v.Step p next act w)
    (kept : ∀ id, act ≠ some (.reclaim id)) : v.pipeIds ⊆ w.pipeIds := by
  cases step with
  | pipeInit _ _ => exact Set.subset_insert _ _
  | @release l w _ _ releases =>
      obtain ⟨_, _, _, _, after⟩ := releases.objects
      exact (congrArg Objects.pipeIds after).ge
  | @cvarWait c l cvarQ w _ _ _ _ releases =>
      rcases releases with rfl | releases
      · exact subset_rfl
      · obtain ⟨_, _, _, _, after⟩ := releases.objects
        exact (congrArg Objects.pipeIds after).ge
  | @signal c w _ _ _ dequeues =>
      rcases dequeues with ⟨_, rfl⟩ | dequeues
      · exact subset_rfl
      · obtain ⟨_, _, _, after⟩ := dequeues.objects
        exact (congrArg Objects.pipeIds after).ge
  | @broadcast c w _ _ known dequeues _ =>
      have after := (dequeuesAll_objects (bounded.cvar.present c known) dequeues).2
      exact (congrArg Objects.pipeIds after).ge
  | pipeBlock reads _ => cases reads <;> exact subset_rfl
  | @pipeTake _ _ _ _ _ _ _ x reads _ _ _ wakes =>
      have ids : x.pipeIds = v.pipeIds := by
        refine (congrArg Objects.pipeIds (objects_of_wakes wakes)).trans ?_
        cases reads <;> rfl
      exact ids.ge
  | pipeDry reads _ _ => cases reads <;> exact subset_rfl
  | pipeWrite _ _ _ _ _ _ _ _ wakes => exact (congrArg Objects.pipeIds wakes.objects).ge
  | reclaimLock called _ _ _ _ => exact absurd called (kept _)
  | reclaimOwned called _ _ _ _ => exact absurd called (kept _)
  | reclaimCvar called _ _ _ => exact absurd called (kept _)
  | reclaimWaited called _ _ _ _ => exact absurd called (kept _)
  | reclaimPipe called _ _ _ _ => exact absurd called (kept _)
  | reclaimRead called _ _ _ _ => exact absurd called (kept _)
  | _ => exact subset_rfl

/-- Every reader waits in a pipe that is in the map under the id of its call. -/
def ReadersKnown (v : View) : Prop :=
  ∀ a ∈ v.live, ∀ pipep pipeId len, (v.proc a).pos = .pipeRead pipep pipeId len →
    pipeId = pipep ∧ pipep ∈ v.pipeIds

theorem ReadersKnown.step (known : v.ReadersKnown) (runner : p ∈ v.live)
    (kept : v.pipeIds ⊆ w.pipeIds) (step : v.PipeStep p next act w)
    (family : v.toCrowd.FamilyStep p next w.toCrowd) : w.ReadersKnown := by
  intro a live pipep pipeId len point
  by_cases same : a = p
  · subst same
    obtain ⟨_, _, reads, _, _⟩ := step.blocks live point
    cases reads with
    | call _ _ inside _ _ => exact ⟨rfl, kept inside⟩
    | again before _ => exact (known a runner _ _ _ before).imp_right fun inside => kept inside
  · rcases family.live live with old | ⟨_, _, forked⟩
    · have before := (family.other old same).2.1.symm.trans point
      exact (known a old _ _ _ before).imp_right fun inside => kept inside
    · rw [forked] at point
      cases point

end View

section
variable {s t : Kernel} {i : Input}

theorem View.ReadStep.isPipeWork {p : Addr} {act : Option Call} {pipep : ObjPtr}
    {pipeId len : Int} {v w : View} (read : v.ReadStep p act pipep pipeId len w) :
    (w.proc p).pos.isPipeWork = true := by
  have finished (u : View) (call : Call) (code : Int) :
      ((u.finish p call code).proc p).pos.isPipeWork = true := by
    rw [View.finish, View.onCrowd_toCrowd, Crowd.finish_pos, if_pos rfl]
    rfl
  cases read with
  | blocks _ _ =>
      rw [View.suspend_pos]
      rfl
  | takes _ _ _ _ _ => exact finished _ _ _
  | dry _ _ _ => exact finished _ _ _

/-- A read of a missing pipe or without a length returns at once. -/
theorem kernelPipeRead_rejects {pipeId len : Int} {flow : Flow Kernel}
    (named : Named s.toSyncObjects) (rejected : ¬(0 < len ∧ pipeId ∈ s.pipeMap.keys))
    (done : kernelPipeRead pipeId len s = .ok flow) : ∃ code, flow = .ret s code := by
  unfold kernelPipeRead at done
  split at done
  · exact ⟨_, (Except.ok.inj done).symm⟩
  split at done
  · exact ⟨_, (Except.ok.inj done).symm⟩
  obtain ⟨found, lookup, chosen⟩ := Outcome.bind_eq_ok.mp done
  cases found with
  | none => exact ⟨_, (Except.ok.inj chosen).symm⟩
  | some pipep =>
      obtain ⟨_, known⟩ := find_eq_some named.pipe lookup
      exact absurd ⟨by omega, known⟩ rejected

/-- A process that forks or uses a pipe stays at such a point. -/
theorem Sound.pipeWork_curr (sound : Sound s) (point : s.cpu.isPipeWork = true)
    (work : i.isPipeWork = true) (next : yallnix.step s i t) :
    (t.pos s.currPCB).isPipeWork = true := by
  have returned {u : Kernel} (curr : u.currPCB = s.currPCB) (call : Call) (code : Int) :
      ((u.sysReturn call code).pos s.currPCB).isPipeWork = true := by
    have here : (u.sysReturn call code).pos s.currPCB = .user := if_pos curr.symm
    rw [here]
    rfl
  obtain ⟨ready, done⟩ := next
  cases i with
  | kernelCall call oracle =>
      cases call with
      | fork =>
          simp only [enabled, Bool.and_eq_true, decide_eq_true_eq] at ready
          obtain ⟨flow, forked, done⟩ := Outcome.bind_eq_ok.mp done
          cases Except.ok.inj done
          rw [finishScheduler_eq]
          rcases kernelFork_cases sound.placed sound.family ready.1.2 forked with
            ⟨u, rfl, apart, -⟩ | ⟨w, childrenMap, new, -, rfl⟩
          · exact returned (u := s.withScheduler u) apart.currPCB .fork errorCode
          · have forks := forkTo_pos (.fork s.currPCB oracle.pcb) oracle.pcb s.currPCB
              (({ adopt w childrenMap with
                readyQ := enqQ (adopt w childrenMap).readyQ (adopt w childrenMap).currPCB
                live := insert oracle.pcb (adopt w childrenMap).live } : Scheduler).record
                  (.forked s.curr.pid s.nextPid))
            rw [if_pos (.inr new.apart.currPCB.symm)] at forks
            change (Scheduler.pos _ s.currPCB).isPipeWork = true
            rw [Flow.finish, Kernel.withScheduler]
            dsimp only
            rw [forks]
            rfl
      | pipeInit =>
          obtain ⟨⟨code, u⟩, created, done⟩ := Outcome.bind_eq_ok.mp done
          cases Except.ok.inj done
          exact returned (kernelPipeInit_curr created) _ _
      | pipeWrite pipeId len bytes =>
          obtain ⟨⟨code, u⟩, written, done⟩ := Outcome.bind_eq_ok.mp done
          cases Except.ok.inj done
          exact returned (kernelPipeWrite_curr written) _ _
      | pipeRead pipeId len =>
          by_cases reads : 0 < len ∧ pipeId ∈ s.pipeMap.keys
          · exact (call_reads sound ⟨ready, done⟩ reads.1 reads.2).isPipeWork
          · obtain ⟨flow, read, done⟩ := Outcome.bind_eq_ok.mp done
            obtain ⟨code, rfl⟩ := kernelPipeRead_rejects sound.named reads read
            cases Except.ok.inj done
            exact returned rfl _ _
      | _ => cases work
  | clock =>
      obtain ⟨u, ticked, done⟩ := Outcome.bind_eq_ok.mp done
      cases Except.ok.inj done
      have user : s.cpu = .user := isUser_iff.mp ready
      have crowd := (handleTrapClock_refines sound.placed user ticked).2
      have moved : (u.crowd.proc s.currPCB).pos = .user ∨
          (u.crowd.proc s.currPCB).pos = .trapReturn := by
        rcases crowd with crowd | crowd
        · rw [crowd]
          exact .inl (s.pos_curr.trans user)
        · rw [crowd, Crowd.move_pos, if_pos rfl]
          exact .inr rfl
      change (u.crowd.proc s.currPCB).pos.isPipeWork = true
      rcases moved with moved | moved <;> rw [moved] <;> rfl
  | resume junk =>
      have here {k : Pos} (same : k.isPipeWork = true) :
          (({ s with cpu := k } : Kernel).pos s.currPCB).isPipeWork = true := by
        rw [show ({ s with cpu := k } : Kernel).pos s.currPCB = k from if_pos rfl]
        exact same
      cases at_ : s.cpu with
      | user =>
          rw [enabled, at_] at ready
          cases ready
      | starter | trapReturn =>
          rw [handle, resumeKernel, at_] at done
          cases Except.ok.inj done
          exact here rfl
      | fork parentPCB childPCB =>
          rw [handle, resumeKernel, at_] at done
          cases Except.ok.inj done
          exact returned rfl _ _
      | pipeRead pipep pipeId len =>
          exact (resume_reads sound ⟨ready, done⟩ at_).isPipeWork
      | _ =>
          rw [at_] at point
          cases point
  | _ => cases work

end

/-- These facts hold while processes only fork and use pipes. -/
structure Kernel.PipeWork (s : Kernel) : Prop where
  streams : s.Streams
  points : ∀ a ∈ s.live, (s.pos a).isPipeWork = true
  queues : s.view.Queues
  heads : s.view.HeadsReady
  known : s.view.ReadersKnown

namespace Kernel.PipeWork

variable {s t : Kernel} {i : Input}

theorem cpu (work : s.PipeWork) : s.cpu.isPipeWork = true := by
  rw [← s.pos_curr]
  exact work.points s.currPCB work.streams.sound.placed.live

/-- No process exits while all of them only fork and use pipes. -/
theorem reportsToWaiter (work : s.PipeWork) : s.reportsToWaiter = true := by
  rw [Kernel.reportsToWaiter]
  split
  · rename_i exits _
    have point := work.cpu
    rw [exits] at point
    cases point
  · rfl

theorem step (work : s.PipeWork) (input : i.isPipeWork = true) (next : yallnix.step s i t) :
    t.PipeWork := by
  have sound := work.streams.sound
  have live := sound.placed.live
  obtain ⟨-, step⟩ := sound.step next
  have pipeStep := step.pipeStep live
  have queues := work.queues.step sound.resting sound.family work.streams.bounded
    (Kernel.reportsToWaiter_view work.reportsToWaiter) step
  have kept : s.view.pipeIds ⊆ t.view.pipeIds := by
    refine step.pipeIds work.streams.bounded fun id called => ?_
    obtain ⟨oracle, rfl⟩ := Input.act_eq_some called
    cases input
  refine ⟨work.streams.step next, fun a inside => ?_, queues,
    work.heads.step work.queues.pipe queues.pipe sound.resting pipeStep step.family step.blocked,
    work.known.step live kept pipeStep step.family⟩
  by_cases same : a = s.currPCB
  · rw [same]
    exact sound.pipeWork_curr work.cpu input next
  · rcases step.family.live inside with old | ⟨_, _, born⟩
    · have pos : t.pos a = s.pos a := (step.family.other old same).2.1
      rw [pos]
      exact work.points a old
    · have pos : t.pos a = .fork s.currPCB a := born
      rw [pos]
      rfl

end Kernel.PipeWork

end

end Yallnix

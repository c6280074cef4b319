import Yallnix.ToMathlib.WaitQueue
import Yallnix.Proof.WakeStep
import Yallnix.Proof.LockStep

namespace Yallnix

section
variable [Hardware]

namespace View

variable {p next : Addr} {act : Option Call} {v w : View}

/-- Every lock that exists has a queue. -/
def lockQueue (v : View) : ObjPtr → Option (Queue Addr) := Option.map Lock.waitingQ ∘ v.locks

/-- The process is blocked inside the loop of `KernelAcquire`. -/
def WaitsForLock (v : View) (l : ObjPtr) (a : Addr) : Prop :=
  a ∈ v.live ∧ a ∈ v.blocked ∧ ∃ call, (v.proc a).pos = .acquire l call

/-- A release wakes the head of the queue of its lock. -/
theorem rouses_releases (queued : Queued v.lockQueue v.WaitsForLock) (resting : v.Resting p)
    {l : ObjPtr} (releases : v.Releases p l w) :
    Crowd.Rouses (fun cause a => cause = .release l ∧ ∃ lock rest call, v.locks l = some lock ∧
      lock.waitingQ = a :: rest ∧ (v.proc a).pos = .acquire l call ∧
      w.locks l = some ⟨none, rest⟩) v.toCrowd w.toCrowd := by
  cases releases with
  | alone _ _ _ _ => exact .record v.toCrowd rfl
  | @waiter lock first rest _ _ object _ queue woken =>
      have here : v.lockQueue l = some lock.waitingQ := by simp [lockQueue, object]
      obtain ⟨live, _, call, point⟩ := queued.waits l _ here first (by simp [queue])
      have freed : w.locks l = some ⟨none, rest⟩ := by
        rw [woken.objects]
        exact Function.update_self _ _ _
      cases woken with
      | mk woken =>
          refine (Crowd.Rouses.record v.toCrowd rfl).trans (Set.Subset.refl _)
            ((Crowd.Rouses.wake woken fun b blocked same =>
              resting.only live blocked same).mono ?_)
          rintro cause a _ ⟨rfl, rfl⟩
          exact ⟨rfl, lock, rest, call, object, queue, point, freed⟩

theorem blocked_releases {l : ObjPtr} (releases : v.Releases p l w) : w.blocked ⊆ v.blocked := by
  cases releases with
  | alone _ _ _ _ => exact Set.Subset.refl _
  | waiter _ _ _ _ woken =>
      cases woken with
      | mk woken => exact woken.same.2.2

/-- A release takes the head out of the queue of its lock. -/
theorem lockQueue_releases {joins : ObjPtr → Prop} {l : ObjPtr} (releases : v.Releases p l w) :
    QueueSteps p joins v.lockQueue w.lockQueue := by
  obtain ⟨lock, _, object, _, after⟩ := releases.objects
  have freed : w.locks = Function.update v.locks l (some ⟨none, lock.waitingQ.tail⟩) := by
    rw [after]
    rfl
  rw [lockQueue, lockQueue, freed, Function.comp_update]
  refine .update fun members same => ?_
  cases same
  simp only [Function.comp_apply, object, Option.map_some]
  exact .shrinks (List.tail_sublist _)

/-- Every step changes the queue of a lock at its ends, and only a blocking acquire joins it. -/
theorem LockStep.queues (step : v.LockStep p next act w) :
    QueueSteps p
      (fun l => w.live = v.live ∧ p ∈ w.blocked ∧ ∃ call, (w.proc p).pos = .acquire l call)
      v.lockQueue w.lockQueue := by
  cases step with
  | crowd _ => exact .refl p _ _
  | other _ locks _ _ _ _ _ =>
      have same : w.lockQueue = v.lockQueue := by
        rw [lockQueue, locks]
        rfl
      rw [same]
      exact .refl p _ _
  | lockInit _ =>
      change QueueSteps p _ _ (Option.map Lock.waitingQ ∘ Function.update v.locks _ _)
      rw [Function.comp_update]
      refine .update fun members same => ?_
      cases same
      exact .empty
  | acquireTake _ object _ =>
      change QueueSteps p _ _ (Option.map Lock.waitingQ ∘ Function.update v.locks _ _)
      rw [Function.comp_update]
      refine .update fun members same => ?_
      cases same
      simp only [lockQueue, Function.comp_apply, object, Option.map_some]
      exact .shrinks (List.Sublist.refl _)
  | acquireBlock _ object _ =>
      change QueueSteps p _ _ (Option.map Lock.waitingQ ∘ Function.update v.locks _ _)
      rw [Function.comp_update]
      refine .update fun members same => ?_
      cases same
      simp only [lockQueue, Function.comp_apply, object, Option.map_some]
      exact .joined ⟨rfl, Set.mem_insert _ _, by simp [suspend]⟩
  | @release l w _ releases =>
      exact (lockQueue_releases releases : QueueSteps p _ v.lockQueue w.lockQueue)
  | @cvarWait c l cvarQ w _ releases =>
      rcases releases with rfl | releases
      · exact .refl p _ v.lockQueue
      · exact @lockQueue_releases _ p (v.setCvar c (some cvarQ)) w _ l releases
  | reclaimLock _ _ _ _ =>
      change QueueSteps p _ _ (Option.map Lock.waitingQ ∘ Function.update v.locks _ _)
      rw [Function.comp_update]
      refine .update fun members same => ?_
      cases same
  | reclaimOwned _ _ _ _ =>
      change QueueSteps p _ _ (Option.map Lock.waitingQ ∘ Function.update v.locks _ _)
      rw [Function.comp_update]
      refine .update fun members same => ?_
      cases same
      exact .empty

/-- A process that leaves the loop of `KernelAcquire` or wakes in it was taken from the head of
the queue. -/
def Takes (v w : View) (a : Addr) : Prop :=
  ∀ l call, (v.proc a).pos = .acquire l call → ∃ lock rest, v.locks l = some lock ∧
    lock.waitingQ = a :: rest ∧ w.locks l = some ⟨none, rest⟩

/-- The queues of the locks hold blocked processes if only their heads are woken. -/
theorem lockQueued_step (queued : Queued v.lockQueue v.WaitsForLock) (resting : v.Resting p)
    (step : v.LockStep p next act w) (family : v.toCrowd.FamilyStep p next w.toCrowd)
    (takes : ∀ a ∈ v.blocked, a ∉ w.blocked → v.Takes w a) :
    Queued w.lockQueue w.WaitsForLock := by
  refine queued.step step.queues ?_ ?_ ?_
  · intro l members later a before after inside stays
    obtain ⟨live, blocked, call, point⟩ := queued.waits l members before a inside
    obtain ⟨still, pos, _⟩ := family.other live (resting.sleeper a blocked).2.1
    refine ⟨still, ?_, call, pos.trans point⟩
    by_contra woken
    obtain ⟨lock, rest, object, queue, freed⟩ := takes a blocked woken l call point
    have distinct := queued.nodup l (a :: rest) (by simp [lockQueue, object, queue])
    have same : later = rest := by simpa [lockQueue, freed] using after.symm
    exact (List.nodup_cons.mp distinct).1 (same ▸ stays)
  · rintro l _ ⟨_, blocked, _⟩
    exact (resting.sleeper p blocked).2.1 rfl
  · rintro l ⟨live, blocked, call, point⟩
    exact ⟨live ▸ resting.runner, blocked, call, point⟩

end View

end

end Yallnix

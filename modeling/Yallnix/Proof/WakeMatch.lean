import Yallnix.Construction.SmallMachine
import Yallnix.Proof.LockQueue
import Yallnix.Proof.CvarQueue

namespace Yallnix

section
variable [Hardware]

/-- A wake-up matches the event that the process waits for. -/
inductive View.Matches (p : Addr) (v : View) (after : Objects) (a : Addr) : Cause → Prop where
  | childExit {status : Int} {statusPtr : Nat} (exits : (v.proc p).pos = .exit status)
      (parent : (v.proc p).parent = some a) (waits : (v.proc a).pos = .waitWoken statusPtr) :
      Matches p v after a (.childExit p)
  | release {l : ObjPtr} {call : Call} {lock : Lock} {rest : Queue Addr}
      (waits : (v.proc a).pos = .acquire l call) (object : v.locks l = some lock)
      (queue : lock.waitingQ = a :: rest) (dequeued : after.locks l = some ⟨none, rest⟩) :
      Matches p v after a (.release l)
  | signal {c l : Int} {rest : Queue Addr} (waits : (v.proc a).pos = .cvarWoken c l)
      (queue : v.cvars c = some (a :: rest)) (dequeued : after.cvars c = some rest) :
      Matches p v after a (.signal c)
  | broadcast {c l : Int} {cvarQ : Queue Addr} (waits : (v.proc a).pos = .cvarWoken c l)
      (queue : v.cvars c = some cvarQ) (member : a ∈ cvarQ) (dequeued : after.cvars c = some []) :
      Matches p v after a (.broadcast c)
  | pipe {pipep : ObjPtr} {pipeId len : Int} {pipe : Pipe} {rest : Queue Addr}
      (waits : (v.proc a).pos = .pipeRead pipep pipeId len) (object : after.pipes pipep = some pipe)
      (queue : pipe.waitingQ = a :: rest) : Matches p v after a (.pipe pipep)

def Pos.isWait : Pos → Bool
  | .waitWoken _ => true
  | _ => false

theorem Pos.isWait_iff {k : Pos} : k.isWait = true ↔ ∃ statusPtr, k = .waitWoken statusPtr := by
  cases k <;> simp [Pos.isWait]

/-- The parent of an exiting process is not blocked, or it is blocked in `KernelWait`. -/
def Kernel.reportsToWaiter (s : Kernel) : Bool :=
  match s.cpu, s.curr.parent with
  | .exit _, some parent => parent ∉ s.blockedMap.items || (s.pos parent).isWait
  | _, _ => true

namespace View

variable {p next : Addr} {act : Option Call} {v w : View}

/-- The queues of the sync objects hold processes that wait in them. -/
structure Queues (v : View) : Prop where
  lock : Queued v.lockQueue v.WaitsForLock
  cvar : Queued v.cvars v.WaitsForCvar
  pipe : v.PipeQueues

/-- The parent of an exiting process may only be blocked in `KernelWait`. -/
def ReportsToWaiter (v : View) (p : Addr) : Prop :=
  ∀ status parent, (v.proc p).pos = .exit status → (v.proc p).parent = some parent →
    parent ∈ v.blocked → ∃ statusPtr, (v.proc parent).pos = .waitWoken statusPtr

/-- A dequeue wakes the first process of the queue. -/
theorem rouses_dequeues (resting : v.Resting p) {cause : Cause} {c : ObjPtr}
    (live : ∀ cvarQ, v.cvars c = some cvarQ → ∀ a ∈ cvarQ, a ∈ v.live)
    (dequeues : v.Dequeues cause c w) :
    ∃ first rest, v.cvars c = some (first :: rest) ∧ w.cvars c = some rest ∧ w.proc = v.proc ∧
      w.live = v.live ∧ w.blocked ⊆ v.blocked ∧
      Crowd.Rouses (fun reason a => reason = cause ∧ a = first) v.toCrowd w.toCrowd := by
  cases dequeues with
  | @mk first rest _ object woken =>
      have taken : w.cvars c = some rest := by
        rw [woken.objects]
        exact Function.update_self _ _ _
      cases woken with
      | mk woken =>
          obtain ⟨proc, sameLive, blocked⟩ := woken.same
          exact ⟨first, rest, object, taken, proc, sameLive, blocked, .wake woken
            fun b before same => resting.only (live _ object first List.mem_cons_self) before same⟩

/-- A broadcast wakes processes of its queue only. -/
theorem rouses_dequeuesAll (resting : v.Resting p) {cause : Cause} {c : ObjPtr}
    {cvarQ : Queue Addr} (object : v.cvars c = some cvarQ) (live : ∀ a ∈ cvarQ, a ∈ v.live)
    (dequeues : Relation.ReflTransGen (Dequeues cause c) v w) :
    (∃ behind, w.cvars c = some behind ∧ behind ⊆ cvarQ) ∧ w.proc = v.proc ∧ w.live = v.live ∧
      w.blocked ⊆ v.blocked ∧
      Crowd.Rouses (fun reason a => reason = cause ∧ a ∈ cvarQ) v.toCrowd w.toCrowd := by
  induction dequeues with
  | refl => exact ⟨⟨cvarQ, object, List.Subset.refl _⟩, rfl, rfl, Set.Subset.refl _, .refl _⟩
  | @tail u w _ last ih =>
      obtain ⟨⟨behind, here, subset⟩, proc, sameLive, blocked, rouses⟩ := ih
      have still : u.Resting p := by
        refine ⟨sameLive ▸ resting.runner, fun a inside => ?_, ?_⟩
        · rw [proc, sameLive]
          exact resting.sleeper a (blocked inside)
        · rw [proc, sameLive]
          exact resting.distinct
      have alive (queue : Queue Addr) (same : u.cvars c = some queue) (a : Addr)
          (member : a ∈ queue) : a ∈ u.live := by
        rw [here] at same
        cases same
        exact sameLive ▸ live a (subset member)
      obtain ⟨first, rest, before, after, nextProc, nextLive, fewer, woken⟩ :=
        rouses_dequeues still alive last
      rw [here] at before
      cases before
      refine ⟨⟨rest, after, fun a member => subset (List.mem_cons_of_mem _ member)⟩,
        nextProc.trans proc, nextLive.trans sameLive, fewer.trans blocked,
        rouses.trans blocked (woken.mono ?_)⟩
      rintro reason a _ ⟨rfl, rfl⟩
      exact ⟨rfl, subset List.mem_cons_self⟩

/-- A read or a write wakes the head of the queue of its pipe. -/
theorem rouses_wakesHead (resting : v.Resting p) {pipep : ObjPtr} {waitingQ : Queue Addr}
    (live : ∀ a ∈ waitingQ, a ∈ v.live) (wakes : v.WakesHead pipep waitingQ w) :
    w.blocked ⊆ v.blocked ∧ Crowd.Rouses (fun reason a => reason = .pipe pipep ∧
      ∃ rest, waitingQ = a :: rest) v.toCrowd w.toCrowd := by
  cases wakes with
  | empty => exact ⟨Set.Subset.refl _, .refl _⟩
  | head woken =>
      cases woken with
      | mk woken =>
          refine ⟨woken.same.2.2, (Crowd.Rouses.wake woken fun b before same =>
            resting.only (live _ List.mem_cons_self) before same).mono ?_⟩
          rintro reason a _ ⟨rfl, rfl⟩
          exact ⟨rfl, _, rfl⟩

/-- A child wakes its parent in `KernelWait`. -/
theorem rouses_exit (resting : v.Resting p) (family : Family v.toCrowd)
    (reportsToWaiter : v.ReportsToWaiter p) {status : Int} {d : Crowd} {junk : Proc}
    (exits : (v.proc p).pos = .exit status) (reports : v.toCrowd.Reports p status d)
    (after : Objects) :
    Crowd.Rouses (fun cause a => v.Matches p after a cause) v.toCrowd
      (((d.disown (v.proc p).children).remove p junk).record
        (.exited (v.proc p).pid status)) := by
  have left : Crowd.Rouses (fun cause a => v.Matches p after a cause) d
      (((d.disown (v.proc p).children).remove p junk).record (.exited (v.proc p).pid status)) :=
    .quiet (.record rfl rfl) (Set.Subset.refl _)
  cases reports with
  | orphan _ => exact left
  | @child q _ parent woken =>
      obtain ⟨live, _⟩ := family.parentLive p resting.runner q parent
      have pid (b : Addr) : ((v.toCrowd.update q fun proc => { proc with
          zombies := enqQ proc.zombies ⟨(v.proc p).pid, status⟩ }).proc b).pid =
          (v.proc b).pid := by
        by_cases same : b = q
        · subst same
          simp
        · simp [same]
      have wakes := Crowd.Rouses.wake woken fun b blocked same =>
        resting.only live blocked ((pid b).symm.trans same)
      have reported : Crowd.Rouses (fun cause a => v.Matches p after a cause) v.toCrowd d := by
        have due (cause : Cause) (a : Addr) (blocked : a ∈ v.blocked)
            (meant : cause = .childExit p ∧ a = q) : v.Matches p after a cause := by
          obtain ⟨rfl, rfl⟩ := meant
          obtain ⟨statusPtr, waits⟩ := reportsToWaiter status a exits parent blocked
          exact .childExit exits parent waits
        have woke := wakes.mono due
        exact ⟨woke.written, woke.woken⟩
      exact reported.trans woken.same.2.2 left

/-- A step of a process call wakes a process only at the exit of its child. -/
theorem rouses_crowd (resting : v.Resting p) (family : Family v.toCrowd)
    (reportsToWaiter : v.ReportsToWaiter p) {c : Crowd} (step : v.toCrowd.Step p next c)
    (after : Objects) :
    Crowd.Rouses (fun cause a => v.Matches p after a cause) v.toCrowd c := by
  cases step with
  | quiet _ _ silent =>
      exact .quiet ⟨_, rfl, fun event member => Event.isQuiet_isWake (silent event member)⟩
        (Set.Subset.refl _)
  | forkFailed _ _ => exact .quiet (.record rfl rfl) (Set.Subset.refl _)
  | fork _ _ _ => exact .quiet (.record rfl rfl) (Set.Subset.refl _)
  | forkReturn _ => exact .finish _ p _ _
  | exit exits reports => exact rouses_exit resting family reportsToWaiter exits reports after
  | waitBlock _ _ => exact .suspend _ p _
  | waitCollect _ _ => exact .quiet ⟨[_, _], rfl, by simp [Event.isWake]⟩ (Set.Subset.refl _)
  | waitEmpty _ _ => exact .finish _ p _ _

namespace Queues

theorem cvarLive (queues : v.Queues) {c : ObjPtr} (cvarQ : Queue Addr)
    (object : v.cvars c = some cvarQ) (a : Addr) (member : a ∈ cvarQ) : a ∈ v.live :=
  (queues.cvar.waits c cvarQ object a member).1

/-- A process in the queue of a pipe reads from it, and a reader that joins it runs. -/
theorem reads (queues : v.Queues) (resting : v.Resting p) {pipep : ObjPtr} {pipeId len : Int}
    {pipe : Pipe} (reads : v.Reads p act pipep len pipeId pipe w) (a : Addr)
    (member : a ∈ pipe.waitingQ) : a ∈ v.live ∧ (a ∈ v.blocked → v.ReadsPipe pipep a) := by
  cases reads with
  | @call pipe _ _ _ _ object =>
      rcases List.mem_append.mp member with early | late
      · have readsPipe := queues.pipe.waits.waits pipep _ (pipeQueue_of object) a early
        exact ⟨readsPipe.1, fun _ => readsPipe⟩
      · cases List.mem_singleton.mp late
        exact ⟨resting.runner, fun blocked => absurd rfl (resting.sleeper p blocked).2.1⟩
  | again _ object =>
      have readsPipe := queues.pipe.waits.waits pipep _ (pipeQueue_of object) a member
      exact ⟨readsPipe.1, fun _ => readsPipe⟩

/-- Every wake-up matches the event that the process waits for. -/
theorem rouses (queues : v.Queues) (resting : v.Resting p) (family : Family v.toCrowd)
    (reportsToWaiter : v.ReportsToWaiter p) (step : v.Step p next act w) :
    Crowd.Rouses (fun cause a => v.Matches p w.toObjects a cause) v.toCrowd w.toCrowd := by
  cases step with
  | crowd step => exact rouses_crowd resting family reportsToWaiter step _
  | lockInit _ => exact (Crowd.Rouses.record v.toCrowd rfl).trans (Set.Subset.refl _) (.finish _ p _ _)
  | cvarInit _ => exact (Crowd.Rouses.record v.toCrowd rfl).trans (Set.Subset.refl _) (.finish _ p _ _)
  | pipeInit _ _ => exact (Crowd.Rouses.record v.toCrowd rfl).trans (Set.Subset.refl _) (.finish _ p _ _)
  | acquireBlock _ _ _ => exact .suspend v.toCrowd p _
  | release _ _ releases =>
      refine ((rouses_releases queues.lock resting releases).mono ?_).trans
        (blocked_releases releases) (.finish _ p _ _)
      rintro cause a _ ⟨rfl, lock, rest, call, object, queue, waits, dequeued⟩
      exact .release waits object queue dequeued
  | @cvarWait c l cvarQ w _ _ _ _ releases =>
      rcases releases with rfl | releases
      · exact .suspend v.toCrowd p _
      · refine ((rouses_releases (v := v.setCvar c (some (enqQ cvarQ p))) queues.lock resting
          releases).mono ?_).trans (blocked_releases releases) (.suspend _ p _)
        rintro cause a _ ⟨rfl, lock, rest, call, object, queue, waits, dequeued⟩
        exact .release waits object queue dequeued
  | signal _ _ _ dequeues =>
      rcases dequeues with ⟨_, rfl⟩ | dequeues
      · exact .finish _ p _ _
      · obtain ⟨first, rest, object, taken, _, _, blocked, rouses⟩ :=
          rouses_dequeues resting queues.cvarLive dequeues
        refine (rouses.mono ?_).trans blocked (.finish _ p _ _)
        rintro cause a _ ⟨rfl, rfl⟩
        obtain ⟨_, _, l, waits⟩ := queues.cvar.waits _ _ object a List.mem_cons_self
        exact .signal waits object taken
  | @broadcast c w _ _ _ dequeues empty =>
      obtain ⟨cvarQ, object⟩ := dequeuesAll_known dequeues empty
      obtain ⟨_, _, _, blocked, rouses⟩ :=
        rouses_dequeuesAll resting object (queues.cvarLive cvarQ object) dequeues
      refine (rouses.mono ?_).trans blocked (.finish _ p _ _)
      rintro cause a _ ⟨rfl, member⟩
      obtain ⟨_, _, l, waits⟩ := queues.cvar.waits _ _ object a member
      exact .broadcast waits object member empty
  | pipeBlock reads _ =>
      rw [← keeps_reads reads]
      exact .suspend _ p _
  | @pipeTake pipep pipeId len pipe first rest w x reads _ queue _ wakes =>
      have same := keeps_reads reads
      have taken : Crowd.Rouses (fun cause a => v.Matches p x.toObjects a cause) v.toCrowd
          ((w.setPipe pipep (some (pipe.consumed len rest))).record
            (.pipeRead pipep len (pipe.buffer.take len.toNat))).toCrowd := by
        rw [← same]
        exact .record w.toCrowd rfl
      split at wakes
      · have object : x.pipes pipep = some (pipe.consumed len rest) := by
          rw [wakes.objects]
          exact Function.update_self _ _ _
        have behind (a : Addr) (member : a ∈ rest) := queues.reads resting reads a
          (queue ▸ List.mem_cons_of_mem first member)
        have still : ((w.setPipe pipep (some (pipe.consumed len rest))).record
            (.pipeRead pipep len (pipe.buffer.take len.toNat))).Resting p := by
          have resting := same.symm ▸ resting
          exact ⟨resting.runner, resting.sleeper, resting.distinct⟩
        obtain ⟨blocked, rouses⟩ := rouses_wakesHead still
          (fun a member => (congrArg Crowd.live same).symm.subset (behind a member).1) wakes
        refine (taken.trans ?_ (rouses.mono ?_)).trans ?_ (.finish _ p _ _)
        · exact (congrArg Crowd.blocked same).subset
        · rintro cause a inside ⟨rfl, later, rfl⟩
          have before : a ∈ v.blocked := (congrArg Crowd.blocked same).subset inside
          obtain ⟨_, pipeId, len, waits⟩ := (behind a List.mem_cons_self).2 before
          exact .pipe waits object rfl
        · exact blocked.trans (congrArg Crowd.blocked same).subset
      · subst wakes
        exact taken.trans (congrArg Crowd.blocked same).subset (.finish _ p _ _)
  | pipeDry reads _ _ =>
      rw [← keeps_reads reads]
      exact .finish _ p _ _
  | @pipeWrite pipep len bytes buffer pipe w _ _ _ _ _ object _ _ wakes =>
      have written : w.pipes pipep =
          some ⟨buffer, pipe.numBytesWritten + len, pipe.waitingQ⟩ := by
        rw [wakes.objects]
        exact Function.update_self _ _ _
      have reads (a : Addr) (member : a ∈ pipe.waitingQ) : v.ReadsPipe pipep a :=
        queues.pipe.waits.waits pipep _ (pipeQueue_of object) a member
      have still : ((v.setPipe pipep (some ⟨buffer, pipe.numBytesWritten + len,
          pipe.waitingQ⟩)).record (.pipeWritten pipep bytes)).Resting p :=
        ⟨resting.runner, resting.sleeper, resting.distinct⟩
      obtain ⟨blocked, rouses⟩ := rouses_wakesHead still (fun a member => (reads a member).1) wakes
      refine (((Crowd.Rouses.record v.toCrowd rfl).trans (Set.Subset.refl _)
        (rouses.mono ?_)).trans blocked (.finish _ p _ _))
      rintro cause a _ ⟨rfl, rest, queue⟩
      obtain ⟨_, pipeId, len, waits⟩ := reads a (queue ▸ List.mem_cons_self)
      exact .pipe waits written queue
  | _ => exact .finish v.toCrowd p _ _

end Queues

/-- Every step keeps the queues right while children report to waiting parents only. -/
theorem Queues.step (queues : v.Queues) (resting : v.Resting p) (family : Family v.toCrowd)
    (bounded : v.toObjects.Bounded) (reportsToWaiter : v.ReportsToWaiter p)
    (step : v.Step p next act w) : w.Queues := by
  have rouses := queues.rouses resting family reportsToWaiter step
  refine ⟨?_, ?_, ?_⟩
  · refine lockQueued_step queues.lock resting step.lockStep step.family ?_
    intro a blocked woken l call point
    obtain ⟨cause, met⟩ := rouses.woken a blocked woken
    cases met with
    | release waits object queue dequeued =>
        rw [point] at waits
        cases waits
        exact ⟨_, _, object, queue, dequeued⟩
    | childExit _ _ waits =>
        rw [point] at waits
        cases waits
    | signal waits _ _ =>
        rw [point] at waits
        cases waits
    | broadcast waits _ _ _ =>
        rw [point] at waits
        cases waits
    | pipe waits _ _ =>
        rw [point] at waits
        cases waits
  · refine queues.cvar.step (step.cvarEffect resting bounded).steps ?_ ?_ ?_
    · intro c members later a before after inside stays
      obtain ⟨live, blocked, l, point⟩ := queues.cvar.waits c members before a inside
      obtain ⟨still, pos, _⟩ := step.family.other live (resting.sleeper a blocked).2.1
      refine ⟨still, ?_, l, pos.trans point⟩
      by_contra woken
      obtain ⟨cause, met⟩ := rouses.woken a blocked woken
      cases met with
      | signal waits queue dequeued =>
          rw [point] at waits
          cases waits
          rw [before] at queue
          cases queue
          rw [after] at dequeued
          cases dequeued
          exact (List.nodup_cons.mp (queues.cvar.nodup c _ before)).1 stays
      | broadcast waits _ _ dequeued =>
          rw [point] at waits
          cases waits
          rw [after] at dequeued
          cases dequeued
          cases stays
      | childExit _ _ waits =>
          rw [point] at waits
          cases waits
      | release waits _ _ _ =>
          rw [point] at waits
          cases waits
      | pipe waits _ _ =>
          rw [point] at waits
          cases waits
    · rintro c _ ⟨_, blocked, _⟩
      exact (resting.sleeper p blocked).2.1 rfl
    · rintro c ⟨_, live, blocked, waits⟩
      exact ⟨live ▸ resting.runner, blocked, waits⟩
  · refine queues.pipe.step resting step.family
      ((step.pipeStep resting.runner).effect queues.pipe resting bounded) ?_
    intro a blocked woken pipep pipeId len point
    obtain ⟨cause, met⟩ := rouses.woken a blocked woken
    cases met with
    | pipe waits object queue =>
        rw [point] at waits
        cases waits
        exact ⟨_, (pipeQueue_of object).trans (congrArg some queue)⟩
    | childExit _ _ waits =>
        rw [point] at waits
        cases waits
    | release waits _ _ _ =>
        rw [point] at waits
        cases waits
    | signal waits _ _ =>
        rw [point] at waits
        cases waits
    | broadcast waits _ _ _ =>
        rw [point] at waits
        cases waits

theorem Fresh.queues (fresh : v.Fresh) : v.Queues := by
  have locks : v.lockQueue = fun _ => none := funext fun l => by simp [lockQueue, fresh.locks]
  have pipes : v.pipeQueue = fun _ => none := funext fun l => by simp [pipeQueue, fresh.pipes]
  have cvars : v.cvars = fun _ => none := funext fresh.cvars
  have empty (waits : ObjPtr → Addr → Prop) : Queued (fun _ => none) waits := by
    constructor <;> rintro _ _ ⟨⟩
  refine ⟨locks ▸ empty _, cvars ▸ empty _, pipes ▸ empty _, ?_, ?_⟩
  · intro pipep members present
    rw [pipes] at present
    cases present
  · rintro pipep a ⟨live, _, _, point⟩
    have plain := fresh.plain a live
    rw [point] at plain
    cases plain

end View

theorem Kernel.reportsToWaiter_view {s : Kernel} (reports : s.reportsToWaiter = true) :
    s.view.ReportsToWaiter s.currPCB := by
  intro status parent exits link blocked
  have point : s.cpu = .exit status := s.pos_curr.symm.trans exits
  have linked : s.curr.parent = some parent := link
  have inside : parent ∈ s.blockedMap.items := blocked
  simp only [Kernel.reportsToWaiter, point, linked, inside, not_true_eq_false, decide_false,
    Bool.false_or] at reports
  exact Pos.isWait_iff.mp reports

/-- The queues hold waiting processes in every run in which children report to waiting parents
only. -/
theorem run_queues {guard : Kernel → Input → Prop}
    (reports : ∀ s i, guard s i → s.reportsToWaiter = true) {s : Kernel}
    (run : yallnix.Run guard s) : s.view.Queues := by
  refine (run_invariant (fun s => s.view.toObjects.Bounded ∧ s.view.Queues) ?_ ?_ run).2
  · intro s _ fresh _
    exact ⟨fresh.bounded, fresh.queues⟩
  · rintro s i t sound _ ⟨bounded, queues⟩ meets _ step
    exact ⟨bounded.step step, queues.step sound.resting sound.family bounded
      (Kernel.reportsToWaiter_view (reports s i meets)) step⟩

end

section
attribute [local instance] smallHardware

end

end Yallnix

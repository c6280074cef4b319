import Yallnix.Proof.ReadyQueue
import Yallnix.Proof.StatusStore
import Yallnix.Proof.WakeMatch

namespace Yallnix

section
variable [Hardware]

/-- A waiting process has a live child while it is blocked and a zombie after that. -/
structure Crowd.Attended (c : Crowd) (a : Addr) : Prop where
  blocked : a ∈ c.blocked → ∃ b ∈ c.live, (c.proc b).parent = some a
  woken : a ∉ c.blocked → (c.proc a).zombies ≠ []

/-- Nobody waits for a sync object, and every process in `KernelWait` is attended. -/
structure Crowd.Awaited (c : Crowd) : Prop where
  calm : ∀ a ∈ c.live, (c.proc a).pos.isSyncWait = false
  attended : ∀ a ∈ c.live, (c.proc a).pos.isWait = true → c.Attended a

section
variable {p next a : Addr} {c d : Crowd}

theorem Pos.isPlain_isSyncWait {k : Pos} (plain : k.isPlain = true) :
    k.isSyncWait = false ∧ k.isWait = false := by
  cases k <;> first | exact ⟨rfl, rfl⟩ | cases plain

/-- A step of the processes leaves its process outside of the sync calls. -/
theorem Crowd.Step.calm (step : c.Step p next d) (runs : p ∈ c.live) (stays : p ∈ d.live) :
    (d.proc p).pos.isSyncWait = false := by
  cases step with
  | quiet _ after _ =>
      rw [Crowd.move_pos, if_pos rfl]
      exact (Pos.isPlain_isSyncWait after).1
  | fork _ fresh _ =>
      rw [Family.fork_proc p (by rintro rfl; exact fresh runs)]
      dsimp only
      rw [if_pos rfl]
      rfl
  | exit _ _ => exact absurd stays (Finset.notMem_erase _ _)
  | waitBlock _ _ =>
      rw [Crowd.block_proc, Crowd.move_pos, if_pos rfl]
      rfl
  | _ =>
      rw [Crowd.finish_pos, if_pos rfl]
      rfl

namespace Crowd.Attended

theorem keeps (attended : c.Attended a) (keeps : c.Keeps p d)
    (blocked : a ∈ d.blocked ↔ a ∈ c.blocked) : d.Attended a where
  blocked inside := by
    obtain ⟨b, live, parent⟩ := attended.blocked (blocked.mp inside)
    exact ⟨b, keeps.live ▸ live, (keeps.parent b).trans parent⟩
  woken outside := by
    rw [keeps.zombies]
    exact attended.woken fun inside => outside (blocked.mpr inside)

theorem forkFailed (attended : c.Attended a) {child : Addr} {junk : Proc} (fresh : child ∉ c.live)
    (live : a ∈ c.live) :
    ({ c.update child fun _ => junk with nextPid := c.nextPid + 1 } : Crowd).Attended a where
  blocked inside := by
    obtain ⟨b, liveB, parent⟩ := attended.blocked inside
    refine ⟨b, liveB, ?_⟩
    change (Function.update c.proc child junk b).parent = some a
    rw [Crowd.update_fresh fresh junk liveB]
    exact parent
  woken outside := by
    change (Function.update c.proc child junk a).zombies ≠ []
    rw [Crowd.update_fresh fresh junk live]
    exact attended.woken outside

theorem fork (attended : c.Attended a) {child : Addr} (fresh : child ∉ c.live)
    (live : a ∈ c.live) : (c.fork p child).Attended a where
  blocked inside := by
    obtain ⟨b, liveB, parent⟩ := attended.blocked inside
    refine ⟨b, Finset.mem_insert_of_mem liveB, ?_⟩
    rw [Family.fork_proc p (by rintro rfl; exact fresh liveB)]
    exact parent
  woken outside := by
    rw [Family.fork_proc p (by rintro rfl; exact fresh live)]
    exact attended.woken outside

theorem collect (attended : c.Attended a) (other : a ≠ p) (rest : Queue Zombie) :
    (c.update p fun proc => { proc with zombies := rest }).Attended a where
  blocked inside := by
    obtain ⟨b, liveB, parent⟩ := attended.blocked inside
    refine ⟨b, liveB, ?_⟩
    rw [Crowd.update_proc, Crowd.update_zombies]
    exact parent
  woken outside := by
    rw [Crowd.update_proc, Crowd.update_zombies, if_neg other]
    exact attended.woken outside

theorem record (attended : c.Attended a) (event : Event) : (c.record event).Attended a :=
  ⟨attended.blocked, attended.woken⟩

/-- The report of an exit wakes the waiting parent and nobody else. -/
theorem exit (attended : c.Attended a) (family : Family c) (resting : c.Resting p)
    (stranger : c.NoStranger p) {status : Int} {junk : Proc} (point : (c.proc p).pos = .exit status)
    (reports : c.Reports p status d) (live : a ∈ c.live) (other : a ≠ p) :
    (((d.disown (c.proc p).children).remove p junk).record
      (.exited (c.proc p).pid status)).Attended a := by
  by_cases mine : (c.proc p).parent = some a
  · refine ⟨fun inside => ?_, fun _ => ?_⟩
    · change a ∈ d.blocked at inside
      cases reports with
      | orphan alone => exact absurd (alone.symm.trans mine) (Option.some_ne_none a).symm
      | @child q _ parent woken =>
          cases Option.some.inj (parent.symm.trans mine)
          cases woken with
          | nobody absent =>
              refine absurd ?_ (absent a inside)
              simp
          | @somebody b blocked same =>
              refine absurd (resting.distinct b (resting.sleeper b blocked).1 a live ?_).symm
                inside.2
              rw [Crowd.update_proc, Crowd.update_zombies] at same
              exact same
    · rw [Crowd.exit_proc reports other]
      dsimp only
      rw [if_pos mine]
      exact List.append_ne_nil_of_right_ne_nil _ (List.cons_ne_nil _ _)
  · have kept : a ∈ d.blocked ↔ a ∈ c.blocked := by
      cases reports with
      | orphan _ => exact Iff.rfl
      | @child q _ parent woken =>
          cases woken with
          | nobody _ => exact Iff.rfl
          | @somebody b blocked same =>
              refine ⟨fun inside => inside.1, fun inside => ⟨inside, ?_⟩⟩
              rintro rfl
              rw [Crowd.update_proc, Crowd.update_zombies] at same
              have liveQ := (family.parentLive p resting.runner q parent).1
              exact mine (parent.trans (congrArg some (resting.distinct a live q liveQ same).symm))
    refine ⟨fun inside => ?_, fun outside => ?_⟩
    · obtain ⟨b, liveB, parent⟩ := attended.blocked (kept.mp inside)
      have stays : b ≠ p := by
        rintro rfl
        exact mine parent
      refine ⟨b, Finset.mem_erase.mpr ⟨stays, reports.keeps.1.symm ▸ liveB⟩, ?_⟩
      rw [Crowd.exit_proc reports stays]
      dsimp only
      rw [if_neg ?_]
      · exact parent
      · rintro ⟨key, member⟩
        rcases stranger status point key b liveB member with none | some
        · cases parent.symm.trans none
        · exact other (Option.some.inj (parent.symm.trans some))
    · rw [Crowd.exit_proc reports other]
      dsimp only
      rw [if_neg mine]
      exact attended.woken fun inside => outside (kept.mpr inside)

end Crowd.Attended

/-- A step of the processes keeps the waiting ones attended if a new one has a live child. -/
theorem Crowd.Awaited.step (awaited : c.Awaited) (family : Family c) (resting : c.Resting p)
    (stranger : c.NoStranger p) (step : c.Step p next d)
    (begins : p ∈ d.live → (d.proc p).pos.isWait = true →
      ∃ b ∈ c.live, (c.proc b).parent = some p) : d.Awaited := by
  have origin (a : Addr) (inside : a ∈ d.live) := step.family.live inside
  refine ⟨fun a inside => ?_, fun a inside waits => ?_⟩
  · rcases origin a inside with old | ⟨-, -, born⟩
    · by_cases same : a = p
      · subst same
        exact step.calm old inside
      · rw [(step.family.other old same).2.1]
        exact awaited.calm a old
    · rw [born]
      rfl
  · rcases origin a inside with old | ⟨-, -, born⟩
    swap
    · rw [born] at waits
      cases waits
    by_cases same : a = p
    · subst same
      obtain ⟨b, liveB, parent⟩ := begins inside waits
      obtain ⟨statusPtr, point⟩ := Pos.isWait_iff.mp waits
      obtain ⟨-, rfl⟩ := step.waits old inside point
      exact ⟨fun _ => ⟨b, liveB, (Crowd.move_parent ..).trans parent⟩,
        fun outside => absurd (Set.mem_insert _ _) outside⟩
    · have attended := awaited.attended a old ((step.family.other old same).2.1 ▸ waits)
      cases step with
      | quiet _ _ silent =>
          refine attended.keeps ((Crowd.Keeps.records p c fun event member =>
            Event.isQuiet_isFamily (silent event member)).trans (.move p _ _)) Iff.rfl
      | forkFailed _ fresh =>
          exact (attended.forkFailed fresh old).keeps (.finish p _ _ _) Iff.rfl
      | fork _ fresh _ => exact attended.fork fresh old
      | forkReturn _ => exact attended.keeps (.finish p c _ _) Iff.rfl
      | exit point reports => exact attended.exit family resting stranger point reports old same
      | waitBlock _ _ =>
          exact attended.keeps (.suspend p c _) (Set.mem_insert_iff.trans (or_iff_right same))
      | waitCollect _ _ =>
          exact ((attended.collect same _).record _).keeps (.finish p _ _ _) Iff.rfl
      | waitEmpty _ _ => exact attended.keeps (.finish p c _ _) Iff.rfl

end

/-- The pointer passes the checks of `KernelWait`. -/
structure Scheduler.AcceptsPointer (s : Scheduler) (statusPtr : Nat) : Prop where
  region : getAddressRegion statusPtr = 1
  prot : getAddressProt s.curr.r1PageTable statusPtr = .ok protReadWrite

namespace Scheduler.AcceptsPointer

variable {s : Scheduler} {statusPtr : Nat}

theorem childless (accepts : s.AcceptsPointer statusPtr) (none : s.curr.numChildren = 0) :
    kernelWait statusPtr s = .ok (.ret s errorCode) := by
  rw [kernelWait, if_neg (not_not.mpr accepts.region), accepts.prot, Outcome.ok_bind,
    if_neg (not_not.mpr rfl), if_pos none.le]
  rfl

theorem collects (accepts : s.AcceptsPointer statusPtr) (counted : s.curr.numChildren ≠ 0)
    (zombies : s.curr.zombieQ.getD makeQ ≠ []) :
    kernelWait statusPtr s = .ok (.ret (kernelWaitCollect s).2 (kernelWaitCollect s).1) := by
  rw [kernelWait, if_neg (not_not.mpr accepts.region), accepts.prot, Outcome.ok_bind,
    if_neg (not_not.mpr rfl), if_neg (by omega), if_neg]
  · rfl
  · exact fun empty => zombies (List.head?_eq_none_iff.mp empty)

/-- A wait without a zombie blocks and lets another process run. -/
theorem blocks (accepts : s.AcceptsPointer statusPtr) (placed : Placed s) (user : s.cpu = .user)
    (notIdle : s.currPCB ≠ s.idlePCB) (counted : s.curr.numChildren ≠ 0)
    (empty : s.curr.zombieQ.getD makeQ = []) :
    ∃ t, kernelWait statusPtr s = .ok (.go t) ∧ t.currPCB ≠ s.currPCB ∧
      t.crowd = (s.crowd.move s.currPCB (.waitWoken statusPtr)).block s.currPCB := by
  obtain ⟨t, blocked, -, other⟩ := blockProcess_serves placed notIdle (.waitWoken statusPtr)
  obtain ⟨u, same, -, crowd⟩ := blockProcess_refines placed (by rw [user]; rfl) rfl notIdle blocked
  cases same
  have nobody : peekQ (s.curr.zombieQ.getD makeQ) = none := List.head?_eq_none_iff.mpr empty
  refine ⟨t, ?_, other, crowd⟩
  rw [kernelWait, if_neg (not_not.mpr accepts.region), accepts.prot, Outcome.ok_bind,
    if_neg (not_not.mpr rfl), if_neg (by omega), if_pos nobody, blocked]
  rfl

end Scheduler.AcceptsPointer

/-- The running process never forked, or it has a zombie or a live child. -/
def Kernel.WaitsInTime (s : Kernel) : Prop :=
  s.curr.numChildren = 0 ∨ s.curr.zombieQ.getD makeQ ≠ [] ∨ s.crowd.HasChild s.currPCB

/-- The wait returns the pid of the oldest zombie. -/
structure Kernel.Collects (s : Kernel) (statusPtr : Nat) (zombie : Zombie) (t : Kernel) : Prop where
  oldest : (s.curr.zombieQ.getD makeQ).head? = some zombie
  valid : zombie.pid ≠ errorCode
  returned : t.log = .returned s.curr.pid (.wait statusPtr) zombie.pid ::
    .waited s.curr.pid zombie.pid zombie.exitStatus :: s.log

/-- A wait fails at once without any child, collects a zombie or blocks for a live child. -/
inductive Kernel.AnswersWait (s : Kernel) (statusPtr : Nat) (t : Kernel) : Prop where
  | childless (alone : ¬s.crowd.HasChild s.currPCB) (empty : s.curr.zombieQ.getD makeQ = [])
      (runs : t.currPCB = s.currPCB) (blocked : t.blockedMap = s.blockedMap)
      (returned : t.log = .returned s.curr.pid (.wait statusPtr) errorCode :: s.log)
  | zombie {zombie : Zombie} (collects : s.Collects statusPtr zombie t)
  | blocks (child : s.crowd.HasChild s.currPCB) (empty : s.curr.zombieQ.getD makeQ = [])
      (blocked : s.currPCB ∈ t.blockedMap.items) (silent : t.log = s.log)

/-- The input is no call of a sync object. -/
def Input.isCalm (i : Input) : Bool := i.act.all fun call => !call.isSync

/-- No sync call wakes a process out of turn, no exit cuts off a stranger, and every accepted wait
comes in time. -/
structure WaitGuarded (s : Kernel) (i : Input) : Prop where
  calm : i.isCalm = true
  stranger : s.NoStranger
  inTime : ∀ statusPtr oracle, i = .kernelCall (.wait statusPtr) oracle →
    s.AcceptsPointer statusPtr → s.WaitsInTime

theorem WaitGuarded.calls {s : Kernel} {i : Input} (guarded : WaitGuarded s i) (call : Call)
    (act : i.act = some call) : call.isSync = false := by
  have calm := guarded.calm
  rw [Input.isCalm, act] at calm
  exact (Bool.not_eq_true' _).mp calm

/-- These facts about children, zombies and waits hold in a guarded run. -/
structure Kernel.WaitsKept (s : Kernel) : Prop where
  awaited : s.crowd.Awaited
  ledger : s.crowd.Ledger
  counted : s.crowd.CountedBy fun a => (s.pcbs a).numChildren
  positive : s.crowd.Positive

section
variable {s t : Kernel} {i : Input}

theorem Kernel.WaitsKept.fresh (sound : Sound s) (fresh : s.view.Fresh) : s.WaitsKept where
  awaited := by
    refine ⟨fun a live => (Pos.isPlain_isSyncWait (fresh.plain a live)).1, fun a live waits => ?_⟩
    cases (Pos.isPlain_isSyncWait (fresh.plain a live)).2.symm.trans waits
  ledger := fresh.ledger
  counted := by
    rintro a live (zombies | ⟨b, liveB, parent⟩)
    · exact absurd (fresh.zombies a live) zombies
    · cases (fresh.parent b liveB).symm.trans parent
  positive := by
    obtain ⟨low, high⟩ := sound.placed.pidUsed s.currPCB sound.placed.live
    refine ⟨low.trans high.le, fun a live => (sound.placed.pidUsed a live).1, ?_⟩
    intro a live zombie member
    rw [show (s.crowd.proc a).zombies = [] from fresh.zombies a live] at member
    cases member

theorem Kernel.WaitsKept.step (sound : Sound s) (kept : s.WaitsKept) (guarded : WaitGuarded s i)
    (next : yallnix.step s i t) : t.WaitsKept := by
  have live := sound.placed.live
  have calm : s.cpu.isSyncWait = false := by
    rw [← s.pos_curr]
    exact kept.awaited.calm s.currPCB live
  have carries := sound.carries s.currPCB live
  have refines := handle_refinesCrowd sound.placed sound.family (by rwa [s.pos_curr] at carries)
    next.1 guarded.calls calm next.2
  have stranger := guarded.stranger.crowd
  have family := refines.step.family
  refine ⟨kept.awaited.step sound.family sound.resting stranger refines.step ?_,
    kept.ledger.step sound.family live stranger family, ?_, kept.positive.step live family⟩
  · intro stays waits
    obtain ⟨statusPtr, point⟩ := Pos.isWait_iff.mp waits
    obtain ⟨oracle, act, accepts, empty⟩ := sound.waits next stays point
    rcases guarded.inTime statusPtr oracle act ⟨accepts.region, accepts.prot⟩ with
      none | zombie | child
    · have counted := accepts.children
      omega
    · exact absurd empty zombie
    · exact (kept.ledger.hasChild live).mp child
  · have framed := handle_framed (f := PCB.r1PageTable) sound.placed sound.family next.1
      (fun _ _ _ => rfl) next.2
    exact kept.counted.step sound.family live family framed.counts framed.born

/-- A process in `KernelWait` that holds a zombie collects it. -/
theorem Kernel.StoresStatus.answers {statusPtr : Nat} (kept : s.WaitsKept)
    (live : s.currPCB ∈ s.live) (stores : s.StoresStatus statusPtr i)
    (done : handle s i = .ok t) : ∃ zombie, s.Collects statusPtr zombie t := by
  obtain ⟨zombie, rest, queue, log⟩ := stores.collects done
  refine ⟨zombie, by rw [queue]; rfl, ?_, log⟩
  have member : zombie ∈ s.curr.zombieQ.getD makeQ := queue ▸ List.mem_cons_self
  have low := kept.positive.zombies s.currPCB live zombie member
  intro same
  rw [same] at low
  exact absurd low (by decide)

/-- A wait call with an accepted pointer is answered as it should if and only if it comes in
time. -/
theorem Kernel.WaitsKept.answers (sound : Sound s) (kept : s.WaitsKept) {statusPtr : Nat}
    {oracle : Oracle} (ready : enabled s (.kernelCall (.wait statusPtr) oracle) = true)
    (accepts : s.AcceptsPointer statusPtr) :
    ∃ t, yallnix.step s (.kernelCall (.wait statusPtr) oracle) t ∧
      (s.AnswersWait statusPtr t ↔ s.WaitsInTime) := by
  have live := sound.placed.live
  have counted := kept.counted s.currPCB live
  by_cases none : s.curr.numChildren = 0
  · have handled : handle s (.kernelCall (.wait statusPtr) oracle) =
        .ok (s.sysReturn (.wait statusPtr) errorCode) := by
      simp only [handle, handleTrapKernel, accepts.childless none]
      rfl
    refine ⟨_, ⟨ready, handled⟩, iff_of_true (.childless ?_ ?_ rfl rfl rfl) (.inl none)⟩
    · intro child
      exact (counted (.inr ((kept.ledger.hasChild live).mp child))).ne' none
    · by_contra zombies
      exact (counted (.inl zombies)).ne' none
  by_cases empty : s.curr.zombieQ.getD makeQ = []
  · have notIdle : s.currPCB ≠ s.idlePCB := by
      simp only [enabled, Bool.and_eq_true, decide_eq_true_eq] at ready
      exact ready.1.1.2
    have user : s.cpu = .user := by
      simp only [enabled, Bool.and_eq_true, decide_eq_true_eq, isUser_iff] at ready
      exact ready.1.1.1
    obtain ⟨u, waited, other, crowd⟩ := accepts.blocks sound.placed user notIdle none empty
    have handled : handle s (.kernelCall (.wait statusPtr) oracle) = .ok (s.withScheduler u) := by
      simp only [handle, handleTrapKernel, waited]
      rfl
    refine ⟨_, ⟨ready, handled⟩, fun answers => ?_, fun inTime => ?_⟩
    · cases answers with
      | childless _ _ runs _ _ => exact absurd runs other
      | zombie collects =>
          have oldest := collects.oldest
          rw [empty] at oldest
          cases oldest
      | blocks child _ _ _ => exact .inr (.inr child)
    · rcases inTime with never | zombies | child
      · exact absurd never none
      · exact absurd empty zombies
      · refine .blocks child empty ?_ (congrArg Crowd.log crowd)
        have blocked : s.currPCB ∈ u.crowd.blocked := by
          rw [crowd]
          exact Set.mem_insert _ _
        exact blocked
  · have stores : s.StoresStatus statusPtr (.kernelCall (.wait statusPtr) oracle) :=
      .call ⟨accepts.region, accepts.prot, Nat.pos_of_ne_zero none⟩ empty
    have handled : handle s (.kernelCall (.wait statusPtr) oracle) =
        .ok (finishScheduler (.wait statusPtr) s
          (.ret (kernelWaitCollect s.toScheduler).2 (kernelWaitCollect s.toScheduler).1)) := by
      simp only [handle, handleTrapKernel, accepts.collects none empty]
      rfl
    obtain ⟨zombie, collects⟩ := stores.answers kept live handled
    exact ⟨_, ⟨ready, handled⟩, iff_of_true (.zombie collects) (.inr (.inl empty))⟩

end

/-- Every guarded run keeps the facts about waits. -/
theorem run_waitsKept {s : Kernel} (run : yallnix.Run WaitGuarded s) : s.WaitsKept := by
  refine run.invariant_of_reachable (fun _ => reachable_sound) ?_ ?_
  · rintro u ⟨boot, done⟩
    obtain ⟨sound, fresh, -⟩ := kernelStart_fresh done
    exact .fresh sound fresh
  · intro u i v sound kept guarded next
    exact kept.step sound guarded next

/-- In every guarded run a blocked wait has a live child, a woken one collects a zombie, and a wait
call is answered as it should if and only if it comes in time. -/
theorem run_waits {s : Kernel} (run : yallnix.Run WaitGuarded s) :
    (∀ a ∈ s.blockedMap.items, (s.pos a).isWait = true → s.crowd.HasChild a) ∧
    (∀ statusPtr junk, s.cpu = .waitWoken statusPtr →
      ∃ t zombie, yallnix.step s (.resume junk) t ∧ s.Collects statusPtr zombie t) ∧
    ∀ statusPtr oracle, enabled s (.kernelCall (.wait statusPtr) oracle) = true →
      s.AcceptsPointer statusPtr →
      ∃ t, yallnix.step s (.kernelCall (.wait statusPtr) oracle) t ∧
        (s.AnswersWait statusPtr t ↔ s.WaitsInTime) := by
  have sound := reachable_sound run.reachable
  have kept := run_waitsKept run
  have live := sound.placed.live
  refine ⟨fun a blocked waits => ?_, fun statusPtr junk point => ?_,
    fun statusPtr oracle ready accepts => kept.answers sound ready accepts⟩
  · have liveA := (sound.resting.sleeper a blocked).1
    exact (kept.ledger.hasChild liveA).mpr
      ((kept.awaited.attended a liveA waits).blocked blocked)
  · have here : s.pos s.currPCB = .waitWoken statusPtr := s.pos_curr.trans point
    have attended := kept.awaited.attended s.currPCB live (Pos.isWait_iff.mpr ⟨_, here⟩)
    have zombies := attended.woken fun blocked => (sound.resting.sleeper _ blocked).2.1 rfl
    have handled : handle s (.resume junk) = .ok (finishScheduler (.wait statusPtr) s
        (.ret (kernelWaitCollect s.toScheduler).2 (kernelWaitCollect s.toScheduler).1)) := by
      simp only [handle, resumeKernel, point]
      rfl
    have stores : s.StoresStatus statusPtr (.resume junk) := .woken point zombies
    obtain ⟨zombie, collects⟩ := stores.answers kept live handled
    refine ⟨_, zombie, ⟨?_, handled⟩, collects⟩
    rw [enabled, point]
    rfl

end

section
attribute [local instance] smallHardware

/-- `init` waits for its dead child and gets its pid. -/
theorem run_waits_small : ∃ s t : Kernel, s.curr.zombieQ.getD makeQ = [⟨2, 7⟩] ∧
    yallnix.step s (asks (.wait 144)) t ∧ s.AnswersWait 144 t := by
  obtain ⟨s, run, tested⟩ := exists_run
    (fun s i => (i.isCalm = true ∧ isWait i = false) ∧ s.NoStranger)
    (fun s => enabled s (asks (.wait 144)) &&
      decide (getAddressProt s.curr.r1PageTable 144 = .ok protReadWrite) &&
      decide (s.curr.zombieQ.getD makeQ = [⟨2, 7⟩]))
    [forks 2, goesOn, asks (.exit 7), goesOn, goesOn, .clock, goesOn] (by decide +kernel)
  simp only [Bool.and_eq_true, decide_eq_true_eq] at tested
  obtain ⟨⟨ready, prot⟩, zombies⟩ := tested
  have guarded : yallnix.Run WaitGuarded s := by
    refine run.mono ?_
    rintro u i ⟨⟨calm, other⟩, stranger⟩
    refine ⟨calm, stranger, fun statusPtr oracle act => ?_⟩
    rw [act] at other
    cases other
  have inTime : s.WaitsInTime := by
    refine .inr (.inl ?_)
    rw [zombies]
    exact List.cons_ne_nil _ _
  obtain ⟨t, next, answers⟩ := (run_waits guarded).2.2 144 _ ready ⟨by decide, prot⟩
  exact ⟨s, t, zombies, next, answers.mpr inTime⟩

/-- `init` has collected its only child and blocks in the next wait. -/
theorem waits_false : ¬∀ s : Kernel, yallnix.Run (fun _ i => i.isCalm = true) s →
    ∀ statusPtr oracle t, s.AcceptsPointer statusPtr →
      yallnix.step s (.kernelCall (.wait statusPtr) oracle) t → s.AnswersWait statusPtr t := by
  intro all
  obtain ⟨s, t, run, -, next, tested⟩ := exists_step (fun _ i => i.isCalm = true)
    (fun s t => decide (getAddressProt s.curr.r1PageTable 144 = .ok protReadWrite) &&
      decide (s.curr.zombieQ.getD makeQ = []) && decide (t.currPCB ≠ s.currPCB) &&
      decide (∀ a ∈ s.live, isChild s.curr.pid (s.pcbs a).pid s.log = false))
    [forks 2, goesOn, asks (.exit 7), goesOn, goesOn, .clock, goesOn, asks (.wait 144)]
    (asks (.wait 144)) (by decide +kernel)
  simp only [Bool.and_eq_true, decide_eq_true_eq] at tested
  obtain ⟨⟨⟨prot, empty⟩, switched⟩, childless⟩ := tested
  cases all s run 144 _ t ⟨by decide, prot⟩ next with
  | childless _ _ runs _ _ => exact switched runs
  | zombie collects =>
      have oldest := collects.oldest
      rw [empty] at oldest
      cases oldest
  | blocks child _ _ _ =>
      obtain ⟨a, live, link⟩ := child
      cases (childless a live).symm.trans link

end

end Yallnix

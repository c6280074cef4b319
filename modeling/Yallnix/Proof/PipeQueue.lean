import Yallnix.ToMathlib.WaitQueue
import Yallnix.Proof.WakeStep
import Yallnix.Proof.PipeStep

namespace Yallnix

section
variable [Hardware]

namespace View

variable {p next : Addr} {act : Option Call} {v w u : View}

/-- Every pipe that exists has a queue. -/
def pipeQueue (v : View) : ObjPtr → Option (Queue Addr) := Option.map Pipe.waitingQ ∘ v.pipes

/-- The process is inside the loop of `KernelPipeRead`. -/
def ReadsPipe (v : View) (pipep : ObjPtr) (a : Addr) : Prop :=
  a ∈ v.live ∧ ∃ pipeId len, (v.proc a).pos = .pipeRead pipep pipeId len

/-- The queue of a pipe holds exactly its readers, and only the head may be awake. -/
structure PipeQueues (v : View) : Prop where
  waits : Queued v.pipeQueue v.ReadsPipe
  behind : ∀ pipep members, v.pipeQueue pipep = some members → ∀ a ∈ members.tail, a ∈ v.blocked
  reader : ∀ pipep a, v.ReadsPipe pipep a → ∃ members, v.pipeQueue pipep = some members ∧ a ∈ members

theorem pipeQueue_of {pipep : ObjPtr} {pipe : Pipe} (object : v.pipes pipep = some pipe) :
    v.pipeQueue pipep = some pipe.waitingQ := by
  simp [pipeQueue, object]

theorem pipeQueue_setPipe (v : View) (pipep : ObjPtr) (pipe : Option Pipe) :
    (v.setPipe pipep pipe).pipeQueue =
      Function.update v.pipeQueue pipep (pipe.map Pipe.waitingQ) :=
  Function.comp_update _ _ _ _

/-- A process that runs in the loop of `KernelPipeRead` is the head of the queue. -/
theorem PipeQueues.head (queues : v.PipeQueues) (resting : v.Resting p) {pipep : ObjPtr}
    {pipeId len : Int} {pipe : Pipe} (reads : v.Reads p act pipep len pipeId pipe u)
    {first : Addr} {rest : Queue Addr} (queue : pipe.waitingQ = first :: rest)
    (turn : (v.proc p).pos = .user → first = p) :
    first = p ∧ ((v.proc p).pos = .user → rest = []) := by
  cases reads with
  | @call pipe _ user _ _ object =>
      have same := turn user
      subst same
      refine ⟨rfl, fun _ => ?_⟩
      have joined : pipe.waitingQ ++ [first] = first :: rest := queue
      cases members : pipe.waitingQ with
      | nil =>
          rw [members] at joined
          exact (List.cons.inj joined).2.symm
      | cons head behind =>
          rw [members] at joined
          have same := (List.cons.inj joined).1
          obtain ⟨_, _, _, point⟩ := queues.waits.waits pipep _ (pipeQueue_of object) head
            (by rw [members]; exact List.mem_cons_self)
          rw [same, user] at point
          cases point
  | again point object =>
      obtain ⟨members, present, member⟩ := queues.reader pipep p ⟨resting.runner, _, _, point⟩
      rw [pipeQueue_of object] at present
      cases present
      rw [queue] at member
      refine ⟨?_, fun user => ?_⟩
      · refine ((List.mem_cons.mp member).resolve_right fun late => ?_).symm
        have blocked := queues.behind pipep _ (pipeQueue_of object) p (by rw [queue]; exact late)
        exact (resting.sleeper p blocked).2.1 rfl
      · rw [point] at user
        cases user

/-- A reader that runs always finds itself in the queue. -/
theorem PipeQueues.not_dry (queues : v.PipeQueues) (resting : v.Resting p) {pipep : ObjPtr}
    {pipeId len : Int} {pipe : Pipe} (reads : v.Reads p act pipep len pipeId pipe u) :
    pipe.waitingQ ≠ [] := by
  cases reads with
  | call _ _ _ _ _ => exact List.append_ne_nil_of_right_ne_nil _ (List.cons_ne_nil _ _)
  | again point object =>
      obtain ⟨members, present, member⟩ := queues.reader pipep p ⟨resting.runner, _, _, point⟩
      rw [pipeQueue_of object] at present
      cases present
      exact List.ne_nil_of_mem member

/-- A read that takes its bytes leaves the queue behind it. -/
theorem pipeQueue_take {pipep : ObjPtr} {pipeId len : Int} {pipe : Pipe} {rest : Queue Addr}
    (reads : v.Reads p act pipep len pipeId pipe u)
    (wakes : if 0 < pipe.numBytesWritten - len then
        ((u.setPipe pipep (some (pipe.consumed len rest))).record
          (.pipeRead pipep len (pipe.buffer.take len.toNat))).WakesHead pipep rest w
      else w = (u.setPipe pipep (some (pipe.consumed len rest))).record
        (.pipeRead pipep len (pipe.buffer.take len.toNat))) :
    w.pipeQueue = Function.update v.pipeQueue pipep (some rest) := by
  have after : w.toObjects = (u.setPipe pipep (some (pipe.consumed len rest))).toObjects :=
    objects_of_wakes wakes
  have taken : w.pipeQueue = (u.setPipe pipep (some (pipe.consumed len rest))).pipeQueue := by
    rw [pipeQueue, pipeQueue, after]
  rw [taken, pipeQueue_setPipe]
  cases reads with
  | call _ _ _ _ _ =>
      rw [pipeQueue_setPipe, Function.update_idem]
      rfl
  | again _ _ => rfl

/-- What a step does to the queues of the pipes and to the running process in them. -/
inductive PipeEffect (p : Addr) (v w : View) : Prop where
  | outside (queues : w.pipeQueue = v.pipeQueue) (before : (v.proc p).pos.isPipe = false)
      (after : p ∈ w.live → (w.proc p).pos.isPipe = false)
  | stays {pipep : ObjPtr} {pipeId len : Int} (queues : w.pipeQueue = v.pipeQueue)
      (before : (v.proc p).pos = .pipeRead pipep pipeId len)
      (after : (w.proc p).pos = .pipeRead pipep pipeId len) (blocked : p ∈ w.blocked)
      (live : w.live = v.live)
  | creates {object : ObjPtr} (fresh : v.pipeQueue object = none)
      (queues : w.pipeQueue = Function.update v.pipeQueue object (some []))
      (before : (v.proc p).pos.isPipe = false) (after : (w.proc p).pos.isPipe = false)
  | frees {object : ObjPtr} (empty : v.pipeQueue object = some [])
      (queues : w.pipeQueue = Function.update v.pipeQueue object none)
      (before : (v.proc p).pos.isPipe = false) (after : (w.proc p).pos.isPipe = false)
  | joins {pipep : ObjPtr} {pipeId len : Int} {members : Queue Addr}
      (present : v.pipeQueue pipep = some members)
      (queues : w.pipeQueue = Function.update v.pipeQueue pipep (some (members ++ [p])))
      (before : (v.proc p).pos = .user) (after : (w.proc p).pos = .pipeRead pipep pipeId len)
      (blocked : p ∈ w.blocked) (live : w.live = v.live)
  | leaves {pipep : ObjPtr} {pipeId len : Int} {rest : Queue Addr}
      (present : v.pipeQueue pipep = some (p :: rest))
      (queues : w.pipeQueue = Function.update v.pipeQueue pipep (some rest))
      (before : (v.proc p).pos = .pipeRead pipep pipeId len)
      (after : (w.proc p).pos.isPipe = false)

theorem user_isPipe {k : Pos} (user : k = .user) : k.isPipe = false := by
  rw [user]
  rfl

/-- Every step changes at most one queue, and a reader that leaves takes its own entry. -/
theorem PipeStep.effect (queues : v.PipeQueues) (resting : v.Resting p)
    (bounded : v.toObjects.Bounded) (step : v.PipeStep p next act w) : PipeEffect p v w := by
  cases step with
  | other _ pipes _ before after =>
      have same : w.pipeQueue = v.pipeQueue := by
        rw [pipeQueue, pipes]
        rfl
      exact .outside same before after
  | pipeInit user _ =>
      have fresh : v.pipes v.nextSyncId = none := by
        by_contra present
        exact lt_irrefl _ (bounded.pipe.below _ present)
      have noQueue : v.pipeQueue v.nextSyncId = none := by simp [pipeQueue, fresh]
      refine .creates noQueue ?_ (user_isPipe user) (finish_isPipe _ _ _ _)
      exact pipeQueue_setPipe v _ _
  | pipeBlock reads _ =>
      cases reads with
      | call _ user _ _ object =>
          exact .joins (pipeQueue_of object) (pipeQueue_setPipe v _ _) user (suspend_pos _ _ _)
            (Set.mem_insert _ _) rfl
      | again point _ => exact .stays rfl point (suspend_pos _ _ _) (Set.mem_insert _ _) rfl
  | @pipeTake pipep pipeId len pipe first rest u x reads _ queue turn wakes =>
      have after : (x.finish p (.pipeRead pipeId len) len).pipeQueue =
          Function.update v.pipeQueue pipep (some rest) := pipeQueue_take (w := x) reads wakes
      obtain ⟨rfl, alone⟩ := queues.head resting reads queue turn
      cases reads with
      | @call pipe _ user _ _ object =>
          refine .outside ?_ (user_isPipe user) fun _ => finish_isPipe _ _ _ _
          have none : pipe.waitingQ = [] := by
            have joined : pipe.waitingQ ++ [first] = first :: rest := queue
            rw [alone user] at joined
            simpa using joined
          have present := pipeQueue_of object
          rw [none] at present
          rw [after, alone user, ← present, Function.update_eq_self]
      | again point object =>
          have present := pipeQueue_of object
          rw [queue] at present
          exact .leaves present after point (finish_isPipe _ _ _ _)
  | pipeDry reads _ queue => exact absurd queue (queues.not_dry resting reads)
  | @pipeWrite pipep len bytes buffer pipe x _ user _ _ object _ _ wakes =>
      refine .outside ?_ (user_isPipe user) fun _ => finish_isPipe _ _ _ _
      have written : x.pipes = _ := congrArg Objects.pipes wakes.objects
      change x.pipeQueue = v.pipeQueue
      rw [pipeQueue, written]
      refine (pipeQueue_setPipe v pipep _).trans ?_
      have present := pipeQueue_of object
      rw [Option.map_some, ← present, Function.update_eq_self]
  | reclaimPipe user object empty =>
      refine .frees ?_ (pipeQueue_setPipe v _ _) (user_isPipe user) (finish_isPipe _ _ _ _)
      rw [pipeQueue_of object, empty]

namespace PipeEffect

variable {pipep : ObjPtr} {members : Queue Addr} {a : Addr}

/-- Only the running process enters a queue. -/
theorem steps (effect : PipeEffect p v w) :
    QueueSteps p (fun pipep => (v.proc p).pos = .user ∧ w.live = v.live ∧ p ∈ w.blocked ∧
      ∃ pipeId len, (w.proc p).pos = .pipeRead pipep pipeId len) v.pipeQueue w.pipeQueue := by
  cases effect with
  | outside queues _ _ => exact queues ▸ .refl p _ _
  | stays queues _ _ _ _ => exact queues ▸ .refl p _ _
  | creates _ queues _ _ =>
      rw [queues]
      refine .update fun members same => ?_
      cases same
      exact .empty
  | frees _ queues _ _ =>
      rw [queues]
      refine .update fun members same => ?_
      cases same
  | joins present queues before after blocked live =>
      rw [queues]
      refine .update fun members same => ?_
      cases same
      rw [present]
      exact .joined ⟨before, live, blocked, _, _, after⟩
  | leaves present queues _ _ =>
      rw [queues]
      refine .update fun members same => ?_
      cases same
      rw [present]
      exact .shrinks (List.sublist_cons_self _ _)

/-- A reader other than the running process stays in its queue. -/
theorem kept (effect : PipeEffect p v w) (before : v.pipeQueue pipep = some members)
    (member : a ∈ members) (differs : a ≠ p) :
    ∃ later, w.pipeQueue pipep = some later ∧ a ∈ later := by
  have update {object : ObjPtr} {queue : Option (Queue Addr)}
      (after : w.pipeQueue = Function.update v.pipeQueue object queue)
      (here : pipep = object → ∃ later, queue = some later ∧ a ∈ later) :
      ∃ later, w.pipeQueue pipep = some later ∧ a ∈ later := by
    rw [after]
    by_cases same : pipep = object
    · subst same
      rw [Function.update_self]
      exact here rfl
    · rw [Function.update_of_ne same]
      exact ⟨members, before, member⟩
  cases effect with
  | outside queues _ _ => exact ⟨members, queues ▸ before, member⟩
  | stays queues _ _ _ _ => exact ⟨members, queues ▸ before, member⟩
  | creates fresh queues _ _ =>
      refine update queues ?_
      rintro rfl
      rw [before] at fresh
      cases fresh
  | frees empty queues _ _ =>
      refine update queues ?_
      rintro rfl
      rw [before] at empty
      cases empty
      cases member
  | joins present queues _ _ _ _ =>
      refine update queues ?_
      rintro rfl
      rw [before] at present
      cases present
      exact ⟨_, rfl, List.mem_append_left _ member⟩
  | leaves present queues _ _ =>
      refine update queues ?_
      rintro rfl
      rw [before] at present
      cases present
      exact ⟨_, rfl, (List.mem_cons.mp member).resolve_left differs⟩

end PipeEffect

/-- A running reader that stays in its queue stays in its loop. -/
theorem PipeEffect.own (effect : PipeEffect p v w) (queues : v.PipeQueues)
    (resting : v.Resting p) {pipep : ObjPtr} {later : Queue Addr}
    (reads : v.ReadsPipe pipep p) (after : w.pipeQueue pipep = some later) (stays : p ∈ later) :
    w.ReadsPipe pipep p := by
  obtain ⟨live, pipeId, len, point⟩ := reads
  cases effect with
  | outside _ before _ =>
      rw [point] at before
      cases before
  | stays _ before next _ live =>
      rw [point] at before
      cases before
      exact ⟨live ▸ resting.runner, _, _, next⟩
  | creates _ _ before _ =>
      rw [point] at before
      cases before
  | frees _ _ before _ =>
      rw [point] at before
      cases before
  | joins _ _ before _ _ _ =>
      rw [point] at before
      cases before
  | leaves present effect before _ =>
      rw [point] at before
      cases before
      rw [effect, Function.update_self] at after
      cases after
      exact absurd stays (List.nodup_cons.mp (queues.waits.nodup pipep _ present)).1

/-- The running process is in the queue of the loop that it goes to. -/
theorem PipeEffect.enters (effect : PipeEffect p v w) (queues : v.PipeQueues)
    (resting : v.Resting p) {pipep : ObjPtr} (reads : w.ReadsPipe pipep p) :
    ∃ members, w.pipeQueue pipep = some members ∧ p ∈ members := by
  obtain ⟨live, pipeId, len, point⟩ := reads
  cases effect with
  | outside _ _ after =>
      have notPipe := after live
      rw [point] at notPipe
      cases notPipe
  | stays same before after _ _ =>
      rw [point] at after
      cases after
      rw [same]
      exact queues.reader pipep p ⟨resting.runner, _, _, before⟩
  | creates _ _ _ after =>
      rw [point] at after
      cases after
  | frees _ _ _ after =>
      rw [point] at after
      cases after
  | joins _ queue _ after _ _ =>
      rw [point] at after
      cases after
      rw [queue, Function.update_self]
      exact ⟨_, rfl, List.mem_append_right _ (List.mem_singleton_self p)⟩
  | leaves _ _ _ after =>
      rw [point] at after
      cases after

/-- The queues of the pipes stay right if only their heads are woken. -/
theorem PipeQueues.step (queues : v.PipeQueues) (resting : v.Resting p)
    (family : v.toCrowd.FamilyStep p next w.toCrowd) (effect : PipeEffect p v w)
    (heads : ∀ a ∈ v.blocked, a ∉ w.blocked → ∀ pipep pipeId len,
      (v.proc a).pos = .pipeRead pipep pipeId len →
        ∃ rest, w.pipeQueue pipep = some (a :: rest)) : w.PipeQueues := by
  have steps := effect.steps
  have waits : Queued w.pipeQueue w.ReadsPipe := by
    refine queues.waits.step steps ?_ ?_ ?_
    · intro pipep members later a before after inside stays
      have reads := queues.waits.waits pipep members before a inside
      by_cases same : a = p
      · subst same
        exact effect.own queues resting reads after stays
      · obtain ⟨live, pipeId, len, point⟩ := reads
        obtain ⟨still, pos, _⟩ := family.other live same
        exact ⟨still, pipeId, len, pos.trans point⟩
    · rintro pipep ⟨user, _⟩ ⟨_, _, _, point⟩
      rw [user] at point
      cases point
    · rintro pipep ⟨_, live, _, reads⟩
      exact ⟨live ▸ resting.runner, reads⟩
  refine ⟨waits, ?_, ?_⟩
  · intro pipep later after a behind
    have step := steps pipep later after
    have distinct := waits.nodup pipep later after
    -- A process that was behind the head before the step is behind it after the step.
    have sleeps (members : Queue Addr) (before : v.pipeQueue pipep = some members)
        (old : a ∈ members.tail) : a ∈ w.blocked := by
      obtain ⟨_, pipeId, len, point⟩ :=
        queues.waits.waits pipep members before a (List.mem_of_mem_tail old)
      by_contra woken
      obtain ⟨rest, head⟩ := heads a (queues.behind pipep members before a old) woken _ _ _ point
      rw [after] at head
      cases head
      exact (List.nodup_cons.mp distinct).1 behind
    cases before : v.pipeQueue pipep with
    | none =>
        rw [before] at step
        cases step
        cases behind
    | some members =>
        rw [before] at step
        cases step with
        | empty => cases behind
        | shrinks sublist => exact sleeps members before (sublist.tail.subset behind)
        | joined joins =>
            cases members with
            | nil => cases behind
            | cons first rest =>
                rcases List.mem_append.mp behind with early | late
                · exact sleeps _ before early
                · rw [List.mem_singleton.mp late]
                  exact joins.2.2.1
  · intro pipep a reads
    by_cases same : a = p
    · subst same
      exact effect.enters queues resting reads
    · obtain ⟨live, pipeId, len, point⟩ := reads
      rcases family.live live with old | ⟨_, _, child⟩
      · have before := (family.other old same).2.1.symm.trans point
        obtain ⟨members, present, member⟩ := queues.reader pipep a ⟨old, pipeId, len, before⟩
        exact effect.kept present member same
      · rw [child] at point
        cases point

end View

end

end Yallnix

import Mathlib.Data.Fintype.EquivFin
import Yallnix.Proof.PipeProgress

namespace Yallnix

section
variable [Hardware]

/-- The process may call `KernelPipeWrite` as soon as it runs in user mode. -/
structure Kernel.Writer (s : Kernel) (w : Addr) : Prop where
  live : w ∈ s.live
  notIdle : w ≠ s.idlePCB
  outside : (s.pos w).isPipe = false

/-- The call of a reader has returned with its whole length since the first state. -/
structure Kernel.ReadReturns (s t : Kernel) (a : Addr) (pipeId len : Int) : Prop where
  outside : (t.pos a).isPipe = false
  answered : ∃ events, t.log = events ++ s.log ∧
    .returned (s.pcbs a).pid (.pipeRead pipeId len) len ∈ events

/-- A served reader has its answer. -/
theorem View.Drains.returns {s t : Kernel} {q : ObjPtr} {served : Queue Addr}
    (drained : View.Drains q served s.view t.view) {a : Addr} (live : a ∈ s.live)
    (member : a ∈ served) {pipeId len : Int} (point : s.pos a = .pipeRead q pipeId len) :
    s.ReadReturns t a pipeId len := by
  obtain ⟨events, log, answers⟩ := drained.answered
  exact ⟨drained.left a live member, events, log, (answers a live member pipeId len point).2⟩

theorem Kernel.ReadReturns.since {s t u : Kernel} {a : Addr} {pipeId len : Int}
    (returns : t.ReadReturns u a pipeId len) {q : ObjPtr} {served : Queue Addr}
    (drained : View.Drains q served s.view t.view) (live : a ∈ s.live) :
    s.ReadReturns u a pipeId len := by
  obtain ⟨events, log, answer⟩ := returns.answered
  obtain ⟨earlier, written, -⟩ := drained.answered
  have written : t.log = earlier ++ s.log := written
  have pid : (t.pcbs a).pid = (s.pcbs a).pid := drained.pid a live
  refine ⟨returns.outside, events ++ earlier, by rw [log, written, List.append_assoc], ?_⟩
  rw [← pid]
  exact List.mem_append_left _ answer

namespace Kernel

variable {s t : Kernel} {q : ObjPtr} {w : Addr}

theorem Writer.drained (writer : s.Writer w) (drains : s.Drains q t) : t.Writer w := by
  obtain ⟨served, drained⟩ := drains.drains
  exact ⟨drained.live writer.live, drains.idlePCB.symm ▸ writer.notIdle,
    drained.outside w writer.live writer.outside⟩

namespace PipeWork

/-- A writer comes to run in user mode. -/
theorem reachesUser (work : s.PipeWork) (writer : s.Writer w) (known : q ∈ s.pipeMap.keys) :
    ∃ t, s.HelpedTo t ∧ t.currPCB = w ∧ t.cpu = .user := by
  have awake : w ∉ s.blockedMap.items := by
    intro asleep
    obtain ⟨key, entry⟩ := HashMap.mem_items.mp asleep
    obtain ⟨-, -, -, blocking⟩ := work.streams.sound.placed.mem_blocked entry
    have points := work.points w writer.live
    have outside := writer.outside
    cases point : s.pos w <;>
      simp [point, Pos.isPipeWork, Pos.isPipe, Pos.isBlocking] at points blocking outside
  obtain ⟨t, helped, curr⟩ := work.runs writer.live awake
  by_cases user : t.cpu = .user
  · exact ⟨t, helped, curr, user⟩
  · have later := work.helped helped
    have still := writer.drained (work.leads known helped)
    have notIdle : t.currPCB ≠ t.idlePCB := curr.symm ▸ still.notIdle
    obtain ⟨x, rest, queue⟩ := List.exists_cons_of_ne_nil
      (List.ne_nil_of_mem (later.streams.sound.placed.queue notIdle).1)
    obtain ⟨u, next, ⟨atUser, same, -⟩ | ⟨reads, -⟩⟩ := later.resume user queue
    · exact ⟨u, helped.tail ⟨_, rfl, next⟩, same.trans curr, atUser⟩
    · rw [curr, still.outside] at reads
      cases reads

/-- A writer in user mode can fill a pipe up to any number of bytes that fits. -/
theorem fills (work : s.PipeWork) (user : s.cpu = .user) (notIdle : s.currPCB ≠ s.idlePCB)
    (known : q ∈ s.pipeMap.keys) {pipe : Pipe} (object : s.pipes q = some pipe) {len : Int}
    (more : pipe.numBytesWritten < len) (room : len ≤ pipeMaxBytes) :
    ∃ t later, s.HelpedTo t ∧ t.pipes q = some later ∧ later.numBytesWritten = len := by
  have fits := (work.streams.streams q).fits pipe object
  have size := fits.size
  have nonneg := fits.nonneg
  have small := pipeMaxBytes_lt
  obtain ⟨pcb, fresh⟩ := Infinite.exists_notMem_finset s.allocated
  obtain ⟨bytes, length⟩ : ∃ bytes : List Byte, bytes.length = (len - pipe.numBytesWritten).toNat :=
    ⟨List.replicate _ 0, List.length_replicate⟩
  have tested : pipeWriteTests q (len - pipe.numBytesWritten) s = .ok (.inr (q, pipe)) := by
    obtain ⟨pipep, found⟩ := HashMap.find_of_mem known
    obtain ⟨rfl, -⟩ := find_eq_some work.streams.sound.named.pipe found
    refine pipeWriteTests_eq_inr.mpr ⟨by omega, found, object, ?_⟩
    rw [wrapInt_of_range (by omega) (by omega)]
    omega
  obtain ⟨buffer, copied⟩ : ∃ buffer,
      memmove pipe.buffer pipe.numBytesWritten bytes = .ok buffer := by
    rw [memmove, if_pos ⟨nonneg, by omega⟩]
    exact ⟨_, rfl⟩
  obtain ⟨t, woken, unblocked, -, -⟩ := unblockHead_appends
    (s := (s.withScheduler (s.record (.pipeWritten q bytes))).setPipe q
      (some ⟨buffer, pipe.numBytesWritten + (len - pipe.numBytesWritten), pipe.waitingQ⟩))
    (work.streams.sound.placed.record _) q pipe.waitingQ
    (fun a inside =>
      (work.queues.pipe.waits.waits q _ (View.pipeQueue_of object) a inside).1)
  have copy : pipeWriteCopy q pipe (len - pipe.numBytesWritten) bytes s =
      .ok (len - pipe.numBytesWritten, t) := by
    rw [pipeWriteCopy, copied, Outcome.ok_bind]
    dsimp only
    rw [unblocked]
    rfl
  have written : kernelPipeWrite q (len - pipe.numBytesWritten) bytes s =
      .ok (len - pipe.numBytesWritten, t) := by
    rw [kernelPipeWrite_eq, tested, Outcome.ok_bind]
    exact copy
  obtain ⟨other, pipes⟩ := pipeWriteCopy_pipes copy
  let call : Call := .pipeWrite q (len - pipe.numBytesWritten) bytes
  refine ⟨t.sysReturn call (len - pipe.numBytesWritten),
    ⟨other, pipe.numBytesWritten + (len - pipe.numBytesWritten), pipe.waitingQ⟩, ?_, ?_, ?_⟩
  · refine .single ⟨.kernelCall call ⟨pcb, s.curr, fun _ => ⟨false, protNone, 0⟩, fun _ => 0⟩,
      rfl, ?_, ?_⟩
    · simp [enabled, user, Pos.isUser, notIdle, fresh, call, Call.wellFormed, length]
    · rw [handle, handleTrapKernel, written]
      rfl
  · change t.pipes q = _
    rw [pipes, Function.update_self]
  · change pipe.numBytesWritten + (len - pipe.numBytesWritten) = len
    omega

/-- A drain that serves nobody leaves the queue and its readers. -/
theorem idle_or_shorter (work : s.PipeWork) (drains : s.Drains q t) {pipe : Pipe}
    (object : s.pipes q = some pipe) : ∃ later, t.pipes q = some later ∧
      (later.waitingQ.length < pipe.waitingQ.length ∨
        later.waitingQ = pipe.waitingQ ∧ pipe.numBytesWritten ≤ later.numBytesWritten ∧
          ∀ a ∈ pipe.waitingQ, t.pos a = s.pos a) := by
  obtain ⟨served, drained⟩ := drains.drains
  obtain ⟨later, after, queue, bytes⟩ := drained.pipe pipe object
  refine ⟨later, after, ?_⟩
  cases served with
  | nil =>
      refine .inr ⟨queue.symm, bytes rfl, fun a member => ?_⟩
      exact drained.waits a (work.queues.pipe.waits.waits q _ (View.pipeQueue_of object) a member)
        List.not_mem_nil
  | cons first behind =>
      refine .inl ?_
      rw [queue, List.length_append, List.length_cons]
      omega

/-- The head of a queue is served, or the pipe gets the bytes that it waits for. -/
theorem feeds (work : s.PipeWork) (writer : s.Writer w) (known : q ∈ s.pipeMap.keys) {pipe : Pipe}
    (object : s.pipes q = some pipe) {len : Int} (room : len ≤ pipeMaxBytes) :
    ∃ t later, s.HelpedTo t ∧ t.pipes q = some later ∧
      (later.waitingQ.length < pipe.waitingQ.length ∨ len ≤ later.numBytesWritten) := by
  obtain ⟨t, helped, curr, user⟩ := work.reachesUser writer known
  have drains := work.leads known helped
  have still := writer.drained drains
  obtain ⟨later, after, shorter | ⟨queue, -, -⟩⟩ := work.idle_or_shorter drains object
  · exact ⟨t, later, helped, after, .inl shorter⟩
  · by_cases enough : len ≤ later.numBytesWritten
    · exact ⟨t, later, helped, after, .inr enough⟩
    · obtain ⟨u, filled, more, present, bytes⟩ := drains.work.fills user
        (curr.symm ▸ still.notIdle) drains.known after (not_le.mp enough) room
      exact ⟨u, filled, helped.trans more, present, .inr bytes.ge⟩

/-- A head that runs with enough bytes is served. -/
theorem takes (work : s.PipeWork) (known : q ∈ s.pipeMap.keys) {pipe : Pipe}
    (object : s.pipes q = some pipe) {pipeId len : Int} (point : s.cpu = .pipeRead q pipeId len)
    (enough : len ≤ pipe.numBytesWritten) :
    ∃ t later, s.HelpedTo t ∧ t.pipes q = some later ∧
      later.waitingQ.length < pipe.waitingQ.length := by
  have sound := work.streams.sound
  obtain ⟨x, rest, queue⟩ := List.exists_cons_of_ne_nil (List.ne_nil_of_mem
    (sound.placed.queue (sound.placed.not_idle (by rw [point]; rfl))).1)
  obtain ⟨t, next, -⟩ := work.resume (fun user => by cases point.symm.trans user) queue
  have here : s.pos s.currPCB = .pipeRead q pipeId len := s.pos_curr.trans point
  have helped : s.HelpedTo t := .single ⟨_, rfl, next⟩
  obtain ⟨later, after, shorter | ⟨-, -, stay⟩⟩ :=
    work.idle_or_shorter (work.leads known helped) object
  · exact ⟨t, later, helped, after, shorter⟩
  · exfalso
    obtain ⟨same, present, member⟩ := work.object sound.placed.live here
    cases object.symm.trans present
    have stays : (t.view.proc s.currPCB).pos = .pipeRead q pipeId len :=
      (stay s.currPCB member).trans here
    have read := resume_reads sound next point
    generalize t.view = w at read stays
    cases read with
    | blocks reads waits =>
        cases reads with
        | call _ user _ _ _ => cases (user.symm.trans here)
        | again _ found =>
            cases object.symm.trans found
            rcases waits with short | ⟨user, -⟩
            · omega
            · cases user.symm.trans here
    | @takes _ _ _ _ x _ _ _ _ _ =>
        have gone := View.finish_isPipe x s.currPCB (.pipeRead pipeId len) len
        rw [stays] at gone
        cases gone
    | dry reads _ empty => exact work.queues.pipe.not_dry sound.resting reads empty

/-- The head of a queue is served if the pipe can hold the bytes that it waits for. -/
theorem serves (work : s.PipeWork) (writer : s.Writer w) (known : q ∈ s.pipeMap.keys) {pipe : Pipe}
    (object : s.pipes q = some pipe) {first : Addr} {rest : Queue Addr}
    (queue : pipe.waitingQ = first :: rest) {pipeId len : Int}
    (point : s.pos first = .pipeRead q pipeId len) (room : len ≤ pipeMaxBytes) :
    ∃ t later, s.HelpedTo t ∧ t.pipes q = some later ∧
      later.waitingQ.length < pipe.waitingQ.length := by
  have head : first ∈ pipe.waitingQ := queue ▸ List.mem_cons_self
  obtain ⟨t, fed, helped, after, shorter | enough⟩ := work.feeds writer known object room
  · exact ⟨t, fed, helped, after, shorter⟩
  have drains := work.leads known helped
  obtain ⟨same, present, shorter | ⟨unchanged, -, stay⟩⟩ := work.idle_or_shorter drains object
  · exact ⟨t, same, helped, present, shorter⟩
  cases after.symm.trans present
  have live : first ∈ s.live :=
    (work.queues.pipe.waits.waits q _ (View.pipeQueue_of object) first head).1
  obtain ⟨served, drained⟩ := drains.drains
  have awake : first ∉ t.blockedMap.items :=
    drains.work.heads.ready q fed first rest pipeId len after (unchanged.trans queue)
      ((stay first head).trans point) enough
  obtain ⟨u, ran, curr⟩ := drains.work.runs (drained.live live) awake
  have later := drains.work.leads drains.known ran
  obtain ⟨last, final, shorter | ⟨kept, more, still⟩⟩ := drains.work.idle_or_shorter later after
  · exact ⟨u, last, helped.trans ran, final, unchanged ▸ shorter⟩
  have atLoop : u.cpu = .pipeRead q pipeId len := by
    rw [← u.pos_curr, curr, still first (unchanged ▸ head), stay first head, point]
  obtain ⟨v, done, took, gone, fewer⟩ :=
    later.work.takes later.known final atLoop (enough.trans more)
  rw [kept, unchanged] at fewer
  exact ⟨v, done, (helped.trans ran).trans took, gone, fewer⟩

/-- Every reader behind small reads gets its answer. -/
theorem returns (work : s.PipeWork) (writer : s.Writer w) (known : q ∈ s.pipeMap.keys) {a : Addr}
    {pipeId len : Int} (point : s.pos a = .pipeRead q pipeId len) {pipe : Pipe}
    (object : s.pipes q = some pipe) {before behind : Queue Addr}
    (queue : pipe.waitingQ = before ++ a :: behind)
    (small : ∀ b ∈ before ++ [a], ∀ otherId size, s.pos b = .pipeRead q otherId size →
      size ≤ pipeMaxBytes) : ∃ t, s.HelpedTo t ∧ s.ReadReturns t a pipeId len := by
  induction size : before.length using Nat.strong_induction_on generalizing s before pipe with
  | _ n ih =>
      have waits := work.queues.pipe.waits.waits q _ (View.pipeQueue_of object)
      have live : a ∈ s.live :=
        (waits a (queue ▸ List.mem_append_right _ List.mem_cons_self)).1
      obtain ⟨t, later, helped, after, shorter⟩ : ∃ t later, s.HelpedTo t ∧
          t.pipes q = some later ∧ later.waitingQ.length < pipe.waitingQ.length := by
        cases before with
        | nil => exact work.serves writer known object queue point (small a (by simp) _ _ point)
        | cons first others =>
            obtain ⟨-, otherId, len, here⟩ := waits first (queue ▸ List.mem_cons_self)
            exact work.serves writer known object queue here
              (small first List.mem_cons_self _ _ here)
      have drains := work.leads known helped
      obtain ⟨served, drained⟩ := drains.drains
      by_cases returned : a ∈ served
      · exact ⟨t, helped, drained.returns live returned point⟩
      · obtain ⟨same, present, parts, -⟩ := drained.pipe pipe object
        cases after.symm.trans present
        rw [queue] at parts
        obtain ⟨left, front, back⟩ := split_behind parts returned
        have fewer : left.length < n := by
          rw [queue, parts, List.length_append] at shorter
          rw [← size, front, List.length_append]
          omega
        have distinct := work.queues.pipe.waits.nodup q _ (View.pipeQueue_of object)
        rw [queue, front, List.append_assoc] at distinct
        have kept (b : Addr) (member : b ∈ left ++ [a]) : t.pos b = s.pos b := by
          have inside : b ∈ left ++ a :: behind := by
            rcases List.mem_append.mp member with member | member
            · exact List.mem_append_left _ member
            · exact List.mem_append_right _ (List.mem_singleton.mp member ▸ List.mem_cons_self)
          refine drained.waits b (waits b ?_) fun early => ?_
          · rw [queue, front, List.append_assoc]
            exact List.mem_append_right _ inside
          · exact List.disjoint_of_nodup_append distinct early inside
        obtain ⟨u, more, returns⟩ := ih left.length fewer drains.work (writer.drained drains)
          drains.known ((kept a (List.mem_append_right _ List.mem_cons_self)).trans point) after back
          (fun b member otherId len here => small b (by
            rw [front, List.append_assoc]
            exact List.mem_append_right _ member) otherId len ((kept b member).symm.trans here)) rfl
        exact ⟨u, helped.trans more, returns.since drained live⟩

end PipeWork

end Kernel

end

section
attribute [local instance] smallHardware

/-- The process waits in the first object for this number of bytes. -/
def Pos.reads (size : Int) : Pos → Bool
  | .pipeRead pipep pipeId len => pipep = 0 ∧ pipeId = 0 ∧ len = size
  | _ => false

end

end Yallnix

import Yallnix.ToMathlib.ServiceOrder
import Yallnix.Proof.WakeMatch

namespace Yallnix

section
variable [Hardware]

namespace View

variable {p next : Addr} {act : Option Call} {v w : View}

/-- A head reader with enough bytes is awake, and every reader waits for some bytes. -/
structure HeadsReady (v : View) : Prop where
  positive : v.ReadersPositive
  ready : ∀ pipep pipe first rest pipeId len, v.pipes pipep = some pipe →
    pipe.waitingQ = first :: rest → (v.proc first).pos = .pipeRead pipep pipeId len →
      len ≤ pipe.numBytesWritten → first ∉ v.blocked

/-- A pipe that a read joined has the bytes that it had before, and other heads stay. -/
theorem Reads.head {pipep : ObjPtr} {pipeId len : Int} {pipe : Pipe}
    (reads : v.Reads p act pipep len pipeId pipe w) {first : Addr} {rest : Queue Addr}
    (queue : pipe.waitingQ = first :: rest) (differs : first ≠ p) :
    ∃ before behind, v.pipes pipep = some before ∧
      before.numBytesWritten = pipe.numBytesWritten ∧ before.waitingQ = first :: behind := by
  cases reads with
  | @call pipe _ _ _ _ object =>
      refine ⟨pipe, ?_⟩
      have joined : pipe.waitingQ ++ [p] = first :: rest := queue
      cases members : pipe.waitingQ with
      | nil =>
          rw [members] at joined
          exact absurd (List.cons.inj joined).1.symm differs
      | cons head behind =>
          rw [members] at joined
          exact ⟨behind, object, rfl, by rw [(List.cons.inj joined).1]⟩
  | again _ object => exact ⟨pipe, rest, object, rfl, queue⟩

/-- The head of the queue is awake after its wake-up. -/
theorem WakesHead.gone (resting : v.Resting p) {pipep : ObjPtr} {first : Addr}
    {rest : Queue Addr} (wakes : v.WakesHead pipep (first :: rest) w) : first ∉ w.blocked := by
  cases wakes with
  | head woken =>
      cases woken with
      | mk woken => exact woken.gone resting

/-- A head reader with enough bytes is awake after every step. -/
theorem HeadsReady.step (heads : v.HeadsReady) (queues : v.PipeQueues) (later : w.PipeQueues)
    (resting : v.Resting p) (step : v.PipeStep p next act w)
    (family : v.toCrowd.FamilyStep p next w.toCrowd) (blocked : w.blocked ⊆ insert p v.blocked) :
    w.HeadsReady := by
  refine ⟨heads.positive.step resting.runner step family, ?_⟩
  intro pipep pipe first rest pipeId len object queue point enough inside
  obtain ⟨live, _⟩ := later.waits.waits pipep _ (pipeQueue_of object) first
    (by rw [queue]; exact List.mem_cons_self)
  by_cases same : first = p
  · subst same
    obtain ⟨_, u, reads, waits, rfl⟩ := step.blocks live point
    cases reads.pipe.symm.trans object
    rcases waits with short | ⟨_, behind⟩
    · omega
    · rw [queue] at behind
      exact behind rfl
  have before : (v.proc first).pos = .pipeRead pipep pipeId len := by
    rcases family.live live with old | ⟨_, _, forked⟩
    · exact (family.other old same).2.1.symm.trans point
    · rw [forked] at point
      cases point
  have asleep : first ∈ v.blocked := (blocked inside).resolve_left same
  have kept {earlier : Pipe} {behind : Queue Addr} (here : v.pipes pipep = some earlier)
      (bytes : earlier.numBytesWritten = pipe.numBytesWritten)
      (head : earlier.waitingQ = first :: behind) : False :=
    heads.ready pipep earlier first behind pipeId len here head before (bytes ▸ enough) asleep
  cases step with
  | other _ pipes _ _ _ => exact kept (pipes ▸ object) rfl queue
  | @pipeInit buffer _ _ =>
      have after : (Function.update v.pipes v.nextSyncId (some ⟨buffer, 0, makeQ⟩)) pipep =
        some pipe := object
      by_cases here : pipep = v.nextSyncId
      · subst here
        rw [Function.update_self] at after
        cases after
        cases queue
      · rw [Function.update_of_ne here] at after
        exact kept after rfl queue
  | @pipeBlock other _ _ _ u reads _ =>
      have after : u.pipes pipep = some pipe := object
      by_cases here : pipep = other
      · subst here
        cases reads.pipe.symm.trans after
        obtain ⟨_, _, present, bytes, head⟩ := reads.head queue same
        exact kept present bytes head
      · rw [reads.pipe_of_ne here] at after
        exact kept after rfl queue
  | @pipeTake other _ size taken _ left u x reads _ _ _ wakes =>
      have objects : x.toObjects = (u.setPipe other (some (taken.consumed size left))).toObjects :=
        objects_of_wakes wakes
      have after : x.pipes pipep = some pipe := object
      rw [objects] at after
      change Function.update u.pipes other (some (taken.consumed size left)) pipep = _ at after
      by_cases here : pipep = other
      · subst here
        rw [Function.update_self] at after
        cases after
        change left = first :: rest at queue
        subst queue
        split at wakes
        · have still : ((u.setPipe pipep (some (taken.consumed size (first :: rest)))).record
              (.pipeRead pipep size (taken.buffer.take size.toNat))).Resting p := by
            have resting := (keeps_reads reads).symm ▸ resting
            exact ⟨resting.runner, resting.sleeper, resting.distinct⟩
          exact wakes.gone still inside
        · have positive := heads.positive first (resting.sleeper first asleep).1 _ _ _ before
          change len ≤ taken.numBytesWritten - size at enough
          omega
      · rw [Function.update_of_ne here, reads.pipe_of_ne here] at after
        exact kept after rfl queue
  | pipeDry reads _ empty => exact queues.not_dry resting reads empty
  | @pipeWrite other size bytes buffer written x _ _ _ _ present _ _ wakes =>
      have after : x.pipes pipep = some pipe := object
      rw [wakes.objects] at after
      change Function.update v.pipes other _ pipep = _ at after
      by_cases here : pipep = other
      · subst here
        rw [Function.update_self] at after
        cases after
        change written.waitingQ = first :: rest at queue
        rw [queue] at wakes
        have still : ((v.setPipe pipep (some ⟨buffer, written.numBytesWritten + size,
            first :: rest⟩)).record (.pipeWritten pipep bytes)).Resting p :=
          ⟨resting.runner, resting.sleeper, resting.distinct⟩
        exact wakes.gone still inside
      · rw [Function.update_of_ne here] at after
        exact kept after rfl queue
  | @reclaimPipe id _ _ _ _ =>
      have after : Function.update v.pipes id none pipep = some pipe := object
      by_cases here : pipep = id
      · subst here
        rw [Function.update_self] at after
        cases after
      · rw [Function.update_of_ne here] at after
        exact kept after rfl queue

/-- A read serves the queue of its pipe from the front. -/
theorem ReadStep.order {notes : List (ServiceNote ObjPtr Addr)} {pipep : ObjPtr}
    {pipeId len : Int} (order : ServesInOrder v.pipeQueue notes) (queues : v.PipeQueues)
    (resting : v.Resting p) (read : v.ReadStep p act pipep pipeId len w) :
    ((v.proc p).pos = .user → ServesInOrder w.pipeQueue
      ((if (w.proc p).pos.isPipe then [.called pipep p]
        else [.served pipep p, .called pipep p]) ++ notes)) ∧
    ((v.proc p).pos = .pipeRead pipep pipeId len → ServesInOrder w.pipeQueue
      ((if (w.proc p).pos.isPipe then [] else [.served pipep p]) ++ notes)) := by
  cases read with
  | blocks reads _ =>
      rw [suspend_pos]
      cases reads with
      | call _ user _ _ object =>
          refine ⟨fun _ => order.join (pipeQueue_of object) (pipeQueue_setPipe v _ _), ?_⟩
          intro point
          cases user.symm.trans point
      | again point _ =>
          refine ⟨?_, fun _ => order⟩
          intro user
          cases user.symm.trans point
  | @takes pipe first rest u x reads _ queue turn wakes =>
      have after : (x.finish p (.pipeRead pipeId len) len).pipeQueue =
          Function.update v.pipeQueue pipep (some rest) := pipeQueue_take (w := x) reads wakes
      obtain ⟨rfl, alone⟩ := queues.head resting reads queue turn
      rw [finish_isPipe]
      cases reads with
      | @call pipe _ user _ _ object =>
          refine ⟨fun _ => ?_, ?_⟩
          · have joined : pipe.waitingQ ++ [first] = first :: rest := queue
            rw [alone user] at joined after
            have present := pipeQueue_of object
            rw [show pipe.waitingQ = [] by simpa using joined] at present
            refine order.pass present ?_
            rw [after, ← present, Function.update_eq_self]
          · intro point
            cases user.symm.trans point
      | again point object =>
          refine ⟨?_, fun _ => ?_⟩
          · intro user
            cases user.symm.trans point
          · have present := pipeQueue_of object
            rw [queue] at present
            exact order.leave present after
  | dry reads _ queue => exact absurd queue (queues.not_dry resting reads)

/-- A step without a read of a pipe serves nobody. -/
theorem PipeStep.order {notes : List (ServiceNote ObjPtr Addr)}
    (order : ServesInOrder v.pipeQueue notes) (queues : v.PipeQueues) (resting : v.Resting p)
    (bounded : v.toObjects.Bounded) (step : v.PipeStep p next act w)
    (outside : (v.proc p).pos.isPipe = false)
    (uncalled : ∀ pipep len, act = some (.pipeRead pipep len) → 0 < len → pipep ∉ v.pipeIds) :
    ServesInOrder w.pipeQueue notes := by
  cases step.effect queues resting bounded with
  | outside same _ _ => exact same ▸ order
  | stays same _ _ _ _ => exact same ▸ order
  | @creates object fresh created _ _ =>
      refine order.same fun other => ?_
      rw [created]
      by_cases same : other = object
      · subst same
        rw [fresh, Function.update_self]
        rfl
      · rw [Function.update_of_ne same]
  | @frees object empty freed _ _ =>
      refine order.same fun other => ?_
      rw [freed]
      by_cases same : other = object
      · subst same
        rw [empty, Function.update_self]
        rfl
      · rw [Function.update_of_ne same]
  | joins _ _ user after _ live =>
      obtain ⟨_, _, reads, _, _⟩ := step.blocks (live ▸ resting.runner) after
      cases reads with
      | call called _ known positive _ => exact absurd known (uncalled _ _ called positive)
      | again point _ => cases user.symm.trans point
  | leaves _ _ before _ =>
      rw [before] at outside
      cases outside

end View

end

section
attribute [local instance] smallHardware

end

end Yallnix

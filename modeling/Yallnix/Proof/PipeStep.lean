import Yallnix.Proof.LockStep

namespace Yallnix

section
variable [Hardware]

/-- These events move bytes through a pipe. -/
def Event.isPipe : Event → Bool
  | .pipeRead .. | .pipeWritten .. => true
  | _ => false

theorem Event.isQuiet_isPipe {event : Event} (quiet : event.isQuiet = true) :
    event.isPipe = false := by
  cases event <;> first | rfl | cases quiet

theorem Pos.isPlain_isPipe {k : Pos} (plain : k.isPlain = true) : k.isPipe = false := by
  cases k <;> first | rfl | cases plain

namespace View

/-- The steps of the kernel as the pipes see them. -/
inductive PipeStep (p next : Addr) (act : Option Call) (v : View) : View → Prop where
  | other {w : View} (family : v.toCrowd.FamilyStep p next w.toCrowd) (pipes : w.pipes = v.pipes)
      (silent : Crowd.Writes (fun event => event.isPipe = false) v.toCrowd w.toCrowd)
      (before : (v.proc p).pos.isPipe = false)
      (after : p ∈ w.live → (w.proc p).pos.isPipe = false) : PipeStep p next act v w
  | pipeInit {buffer : List Byte} (user : (v.proc p).pos = .user)
      (size : buffer.length = pipeMaxBytes) :
      PipeStep p next act v (({ v.created p with pipeIds := insert v.nextSyncId v.pipeIds }.setPipe
        v.nextSyncId (some ⟨buffer, 0, makeQ⟩)).finish p .pipeInit successCode)
  | pipeBlock {pipep : ObjPtr} {pipeId len : Int} {pipe : Pipe} {w : View}
      (reads : v.Reads p act pipep len pipeId pipe w)
      (waits : pipe.numBytesWritten < len ∨
        (v.proc p).pos = .user ∧ peekQ pipe.waitingQ ≠ some p) :
      PipeStep p next act v (w.suspend p (.pipeRead pipep pipeId len))
  | pipeTake {pipep : ObjPtr} {pipeId len : Int} {pipe : Pipe} {first : Addr}
      {rest : Queue Addr} {w x : View} (reads : v.Reads p act pipep len pipeId pipe w)
      (enough : len ≤ pipe.numBytesWritten) (queue : pipe.waitingQ = first :: rest)
      (turn : (v.proc p).pos = .user → first = p)
      (wakes : if 0 < pipe.numBytesWritten - len then
          ((w.setPipe pipep (some (pipe.consumed len rest))).record
            (.pipeRead pipep len (pipe.buffer.take len.toNat))).WakesHead pipep rest x
        else x = (w.setPipe pipep (some (pipe.consumed len rest))).record
          (.pipeRead pipep len (pipe.buffer.take len.toNat))) :
      PipeStep p next act v (x.finish p (.pipeRead pipeId len) len)
  | pipeDry {pipep : ObjPtr} {pipeId len : Int} {pipe : Pipe} {w : View}
      (reads : v.Reads p act pipep len pipeId pipe w) (enough : len ≤ pipe.numBytesWritten)
      (queue : pipe.waitingQ = []) :
      PipeStep p next act v (w.finish p (.pipeRead pipeId len) errorCode)
  | pipeWrite {pipep : ObjPtr} {len : Int} {bytes buffer : List Byte} {pipe : Pipe} {w : View}
      (called : act = some (.pipeWrite pipep len bytes)) (user : (v.proc p).pos = .user)
      (positive : 0 < len) (size : bytes.length = len.toNat) (object : v.pipes pipep = some pipe)
      (room : wrapInt (pipe.numBytesWritten + len) ≤ pipeMaxBytes)
      (copied : memmove pipe.buffer pipe.numBytesWritten bytes = .ok buffer)
      (wakes : ((v.setPipe pipep (some ⟨buffer, pipe.numBytesWritten + len, pipe.waitingQ⟩)).record
        (.pipeWritten pipep bytes)).WakesHead pipep pipe.waitingQ w) :
      PipeStep p next act v (w.finish p (.pipeWrite pipep len bytes) len)
  | reclaimPipe {id : Int} {pipe : Pipe} (user : (v.proc p).pos = .user)
      (object : v.pipes id = some pipe) (empty : pipe.waitingQ = []) :
      PipeStep p next act v (({ v with pipeIds := v.pipeIds \ {id} }.setPipe id none).finish p
        (.reclaim id) successCode)

section
variable {p next : Addr} {act : Option Call} {v w : View}

theorem silent_releases {l : ObjPtr} (releases : v.Releases p l w) :
    Crowd.Writes (fun event => event.isPipe = false) v.toCrowd w.toCrowd := by
  cases releases with
  | alone _ _ _ _ => exact .record rfl rfl
  | waiter _ _ _ _ woken =>
      cases woken with
      | mk woken =>
          have released : Crowd.Writes (fun event => event.isPipe = false) v.toCrowd
              (v.toCrowd.record (.released (v.proc p).pid l)) := .record rfl rfl
          exact released.trans (.wake woken fun _ => rfl)

theorem silent_wakesHead {pipep : ObjPtr} {waitingQ : Queue Addr}
    (wakes : v.WakesHead pipep waitingQ w) :
    Crowd.Writes (fun event => event.isPipe = false) v.toCrowd w.toCrowd := by
  cases wakes with
  | empty => exact .same rfl
  | head woken =>
      cases woken with
      | mk woken => exact .wake woken fun _ => rfl

theorem silent_dequeuesAll {cause : Cause} {c : ObjPtr}
    (dequeues : Relation.ReflTransGen (Dequeues cause c) v w) :
    Crowd.Writes (fun event => event.isPipe = false) v.toCrowd w.toCrowd := by
  induction dequeues with
  | refl => exact .same rfl
  | tail _ last ih =>
      cases last with
      | mk _ woken =>
          cases woken with
          | mk woken => exact ih.trans (.wake woken fun _ => rfl)

theorem dequeuesAll_pipes {cause : Cause} {c : ObjPtr}
    (dequeues : Relation.ReflTransGen (Dequeues cause c) v w) : w.pipes = v.pipes := by
  induction dequeues with
  | refl => rfl
  | tail _ last ih =>
      obtain ⟨_, _, _, after⟩ := last.objects
      rw [after]
      exact ih

/-- A call that returns is another step for the pipes when it changes no pipe. -/
theorem PipeStep.finish {u : View} (call : Call) (code : Int)
    (keeps : v.toCrowd.Keeps p u.toCrowd) (pipes : u.pipes = v.pipes)
    (silent : Crowd.Writes (fun event => event.isPipe = false) v.toCrowd u.toCrowd)
    (before : (v.proc p).pos.isPipe = false) :
    v.PipeStep p next act (u.finish p call code) := by
  refine .other (.keeps (keeps.trans (.finish p _ _ _))) pipes
    (silent.trans (.record rfl rfl)) before fun _ => ?_
  rw [View.finish, onCrowd_toCrowd, Crowd.finish_pos, if_pos rfl]
  rfl

/-- A call that blocks is another step for the pipes when it changes no pipe. -/
theorem PipeStep.suspend {u : View} {k : Pos} (keeps : v.toCrowd.Keeps p u.toCrowd)
    (pipes : u.pipes = v.pipes)
    (silent : Crowd.Writes (fun event => event.isPipe = false) v.toCrowd u.toCrowd)
    (before : (v.proc p).pos.isPipe = false) (after : k.isPipe = false) :
    v.PipeStep p next act (u.suspend p k) := by
  refine .other (.keeps (keeps.trans (.suspend p _ _))) pipes (silent.trans (.same rfl)) before
    fun _ => ?_
  rw [View.suspend, onCrowd_toCrowd, Crowd.block_proc, Crowd.move_pos, if_pos rfl]
  exact after

/-- A step of a process call is another step for the pipes. -/
theorem PipeStep.crowd {c : Crowd} (live : p ∈ v.live) (step : v.toCrowd.Step p next c) :
    v.PipeStep p next act { v with toCrowd := c } := by
  have user {k : Pos} (point : (v.proc p).pos = k) (notPipe : k.isPipe = false) :
      (v.proc p).pos.isPipe = false := point ▸ notPipe
  have finished (d : Crowd) (call : Call) (code : Int) :
      ((d.finish p call code).proc p).pos.isPipe = false := by
    rw [Crowd.finish_pos, if_pos rfl]
    rfl
  refine .other step.family rfl ?_ ?_ ?_
  · cases step with
    | quiet _ _ silent =>
        exact ⟨_, rfl, fun event member => Event.isQuiet_isPipe (silent event member)⟩
    | @exit _ d _ _ reports =>
        have reported : Crowd.Writes (fun event => event.isPipe = false) v.toCrowd d := by
          cases reports with
          | orphan _ => exact .same rfl
          | child _ woken =>
              have woke : Crowd.Writes (fun event => event.isPipe = false) _ d :=
                .wake woken fun _ => rfl
              exact woke
        exact reported.trans (.record rfl rfl)
    | waitBlock _ _ => exact .same rfl
    | waitCollect _ _ => exact ⟨[_, _], rfl, by simp [Event.isPipe]⟩
    | _ => exact .record rfl rfl
  · cases step with
    | quiet before _ _ => exact Pos.isPlain_isPipe before
    | forkFailed point _ => exact user point rfl
    | fork point _ _ => exact user point rfl
    | forkReturn point => exact user point rfl
    | exit point _ => exact user point rfl
    | waitBlock point _ => exact user point rfl
    | waitCollect point _ => exact point.elim (fun point => user point rfl) fun point => user point rfl
    | waitEmpty point _ => exact user point rfl
  · intro inside
    cases step with
    | quiet _ after _ =>
        rw [Crowd.move_pos, if_pos rfl]
        exact Pos.isPlain_isPipe after
    | fork _ fresh _ =>
        change ((v.toCrowd.fork p _).proc p).pos.isPipe = false
        rw [Family.fork_proc p (by rintro rfl; exact fresh live)]
        dsimp only
        rw [if_pos rfl]
        rfl
    | exit _ _ => exact absurd inside (Finset.notMem_erase _ _)
    | waitBlock _ _ =>
        rw [Crowd.block_proc, Crowd.move_pos, if_pos rfl]
        rfl
    | _ => exact finished _ _ _

end

/-- The pipes see every step as one of their own. -/
theorem Step.pipeStep {p next : Addr} {act : Option Call} {v w : View} (live : p ∈ v.live)
    (step : v.Step p next act w) : v.PipeStep p next act w := by
  have starts {k : Pos} (point : (v.proc p).pos = k) (notPipe : k.isPipe = false) :
      (v.proc p).pos.isPipe = false := point ▸ notPipe
  have acquires {l : ObjPtr} {call : Call} (acquires : v.Acquires p l call) :
      (v.proc p).pos.isPipe = false := by
    cases acquires with
    | call user _ => exact starts user rfl
    | again point => exact starts point rfl
    | woken point _ => exact starts point rfl
  cases step with
  | crowd step => exact .crowd live step
  | lockInit user => exact .finish _ _ (.record p v.toCrowd rfl) rfl (.record rfl rfl) (starts user rfl)
  | cvarInit user => exact .finish _ _ (.record p v.toCrowd rfl) rfl (.record rfl rfl) (starts user rfl)
  | pipeInit user size => exact .pipeInit user size
  | acquireTake enters _ _ => exact .finish _ _ (.refl p v.toCrowd) rfl (.same rfl) (acquires enters)
  | acquireBlock enters _ _ =>
      exact .suspend (.refl p v.toCrowd) rfl (.same rfl) (acquires enters) rfl
  | acquireFailed point _ =>
      exact .finish _ _ (.refl p v.toCrowd) rfl (.same rfl) (starts point rfl)
  | release _ user releases =>
      obtain ⟨_, _, _, _, after⟩ := releases.objects
      exact .finish _ _ (keeps_releases releases) (by rw [after]; rfl) (silent_releases releases)
        (starts user rfl)
  | @cvarWait c l cvarQ w _ user _ _ releases =>
      rcases releases with rfl | releases
      · exact .suspend (.refl p v.toCrowd) rfl (.same rfl) (starts user rfl) rfl
      · obtain ⟨_, _, _, _, after⟩ := releases.objects
        have keeps := keeps_releases (v := v.setCvar c (some (enqQ cvarQ p))) releases
        have silent := silent_releases (v := v.setCvar c (some (enqQ cvarQ p))) releases
        exact .suspend keeps (by rw [after]; rfl) silent (starts user rfl) rfl
  | signal _ user _ dequeues =>
      rcases dequeues with ⟨_, rfl⟩ | dequeues
      · exact .finish _ _ (.refl p _) rfl (.same rfl) (starts user rfl)
      · obtain ⟨_, _, _, after⟩ := dequeues.objects
        exact .finish _ _ (keeps_dequeues p dequeues) (by rw [after]; rfl)
          (silent_dequeuesAll (.single dequeues)) (starts user rfl)
  | broadcast _ user _ dequeues _ =>
      exact .finish _ _ (keeps_dequeuesAll p dequeues) (dequeuesAll_pipes dequeues)
        (silent_dequeuesAll dequeues) (starts user rfl)
  | pipeBlock reads waits => exact .pipeBlock reads waits
  | pipeTake reads enough queue turn wakes => exact .pipeTake reads enough queue turn wakes
  | pipeDry reads enough queue => exact .pipeDry reads enough queue
  | pipeWrite called user _ positive size object room copied wakes =>
      exact .pipeWrite called user positive size object room copied wakes
  | reclaimPipe _ user _ object empty => exact .reclaimPipe user object empty
  | reclaimLock _ user _ _ _ => exact .finish _ _ (.refl p _) rfl (.same rfl) (starts user rfl)
  | reclaimOwned _ user _ _ _ => exact .finish _ _ (.refl p _) rfl (.same rfl) (starts user rfl)
  | reclaimCvar _ user _ _ => exact .finish _ _ (.refl p _) rfl (.same rfl) (starts user rfl)
  | reclaimWaited _ user _ _ _ => exact .finish _ _ (.refl p _) rfl (.same rfl) (starts user rfl)
  | reclaimRead _ user _ _ _ => exact .finish _ _ (.refl p _) rfl (.same rfl) (starts user rfl)

section
variable {p next : Addr} {act : Option Call} {v w : View}

theorem finish_isPipe (v : View) (p : Addr) (call : Call) (code : Int) :
    ((v.finish p call code).proc p).pos.isPipe = false := by
  rw [View.finish, onCrowd_toCrowd, Crowd.finish_pos, if_pos rfl]
  rfl

theorem suspend_pos (v : View) (p : Addr) (k : Pos) : ((v.suspend p k).proc p).pos = k := by
  rw [View.suspend, onCrowd_toCrowd, Crowd.block_proc, Crowd.move_pos, if_pos rfl]

/-- A process that is in the loop after its step has just blocked there. -/
theorem PipeStep.blocks (step : v.PipeStep p next act w) (live : p ∈ w.live) {pipep : ObjPtr}
    {pipeId len : Int} (point : (w.proc p).pos = .pipeRead pipep pipeId len) :
    ∃ pipe u, v.Reads p act pipep len pipeId pipe u ∧ (pipe.numBytesWritten < len ∨
      (v.proc p).pos = .user ∧ peekQ pipe.waitingQ ≠ some p) ∧
        w = u.suspend p (.pipeRead pipep pipeId len) := by
  have finished {u : View} {call : Call} {code : Int} (same : w = u.finish p call code) : False := by
    have notPipe := finish_isPipe u p call code
    rw [← same, point] at notPipe
    cases notPipe
  cases step with
  | other _ _ _ _ after =>
      have notPipe := after live
      rw [point] at notPipe
      cases notPipe
  | pipeBlock reads waits =>
      rw [suspend_pos] at point
      cases point
      exact ⟨_, _, reads, waits, rfl⟩
  | pipeInit _ _ => exact (finished rfl).elim
  | pipeTake _ _ _ _ _ => exact (finished rfl).elim
  | pipeDry _ _ _ => exact (finished rfl).elim
  | pipeWrite _ _ _ _ _ _ _ _ => exact (finished rfl).elim
  | reclaimPipe _ _ _ => exact (finished rfl).elim

/-- Every process in the loop waits for some bytes. -/
def ReadersPositive (v : View) : Prop :=
  ∀ a ∈ v.live, ∀ pipep pipeId len, (v.proc a).pos = .pipeRead pipep pipeId len → 0 < len

theorem ReadersPositive.step (positive : v.ReadersPositive) (runner : p ∈ v.live)
    (step : v.PipeStep p next act w) (family : v.toCrowd.FamilyStep p next w.toCrowd) :
    w.ReadersPositive := by
  intro a live pipep pipeId len point
  by_cases same : a = p
  · subst same
    obtain ⟨_, _, reads, _, _⟩ := step.blocks live point
    cases reads with
    | call _ _ _ more _ => exact more
    | again before _ => exact positive a runner _ _ _ before
  · rcases family.live live with old | ⟨_, _, forked⟩
    · exact positive a old _ _ _ ((family.other old same).2.1.symm.trans point)
    · rw [forked] at point
      cases point

/-- The pipe of a read is there after the read has joined its queue. -/
theorem Reads.pipe {pipep : ObjPtr} {pipeId len : Int} {pipe : Pipe}
    (reads : v.Reads p act pipep len pipeId pipe w) : w.pipes pipep = some pipe := by
  cases reads with
  | call _ _ _ _ _ => exact Function.update_self _ _ _
  | again _ object => exact object

theorem Reads.pipe_of_ne {pipep other : ObjPtr} {pipeId len : Int} {pipe : Pipe}
    (reads : v.Reads p act pipep len pipeId pipe w) (differs : other ≠ pipep) :
    w.pipes other = v.pipes other := by
  cases reads with
  | call _ _ _ _ _ => exact Function.update_of_ne differs _ _
  | again _ _ => rfl

end

end View

/-- A call for bytes of a pipe that exists is a read of this pipe. -/
theorem call_reads {s t : Kernel} (sound : Sound s) {pipep : ObjPtr} {len : Int} {oracle : Oracle}
    (next : yallnix.step s (.kernelCall (.pipeRead pipep len) oracle) t) (positive : 0 < len)
    (known : pipep ∈ s.pipeMap.keys) :
    s.view.ReadStep s.currPCB (some (.pipeRead pipep len)) pipep pipep len t.view := by
  obtain ⟨ready, done⟩ := next
  simp only [enabled, Bool.and_eq_true, decide_eq_true_eq, isUser_iff] at ready
  obtain ⟨⟨⟨user, notIdle⟩, _⟩, _⟩ := ready
  obtain ⟨flow, read, done⟩ := Outcome.bind_eq_ok.mp done
  cases done
  exact (kernelPipeRead_reads sound.placed sound.named user notIdle positive known read).read

/-- A reader that runs again reads its pipe. -/
theorem resume_reads {s t : Kernel} (sound : Sound s) {i : Input} (next : yallnix.step s i t)
    {pipep : ObjPtr} {pipeId len : Int} (point : s.cpu = .pipeRead pipep pipeId len) :
    s.view.ReadStep s.currPCB none pipep pipeId len t.view := by
  obtain ⟨ready, done⟩ := next
  cases i with
  | resume junk =>
      change resumeKernel junk s = .ok t at done
      unfold resumeKernel at done
      rw [point] at done
      obtain ⟨flow, read, done⟩ := Outcome.bind_eq_ok.mp done
      cases done
      exact (pipeReadLoop_reads sound.placed sound.named point read).read
  | _ =>
      exfalso
      simp [enabled, point, Pos.isUser] at ready

end

end Yallnix

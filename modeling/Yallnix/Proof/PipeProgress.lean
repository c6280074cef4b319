import Yallnix.Proof.PipeCapacity
import Yallnix.Proof.PipeDrain
import Yallnix.Proof.ReadyQueue

namespace Yallnix

section
variable [Hardware]

/-- A process that blocks runs the head of `readyQ`. -/
theorem blockProcess_next {s : Scheduler} (placed : Placed s) (notIdle : s.currPCB ≠ s.idlePCB)
    (k : Pos) {x : Addr} {rest : Queue Addr} (queue : s.readyQ = x :: rest) :
    ∃ u, blockProcess k s = .ok (.go u) ∧ u.currPCB = x ∧ u.readyQ = rest := by
  obtain ⟨u, done, -, -⟩ := blockProcess_serves placed notIdle k
  refine ⟨u, done, ?_⟩
  obtain ⟨inserted, -, ran⟩ := Outcome.bind_eq_ok.mp done
  cases inserted with
  | none => cases ran
  | some blockedMap =>
      simp only [runReady, queue, deqQ_cons] at ran
      cases ran
      exact ⟨rfl, rfl⟩

/-- A wake-up puts at most one process behind `readyQ`. -/
theorem unblockHead_appends {s : Kernel} (placed : Placed s.toScheduler) (pipep : ObjPtr)
    (waitingQ : Queue Addr) (live : ∀ a ∈ waitingQ, a ∈ s.live) :
    ∃ t woken, unblockHead pipep waitingQ s = .ok t ∧ t.readyQ = s.readyQ ++ woken ∧
      t.currPCB = s.currPCB := by
  unfold unblockHead
  cases waitingQ with
  | nil => exact ⟨s, [], rfl, (List.append_nil _).symm, rfl⟩
  | cons first rest =>
      have nonneg := (placed.pidUsed first (live first List.mem_cons_self)).1
      obtain ⟨t, woken, done, readyQ, curr⟩ : ∃ t woken,
          unblockProcess (.pipe pipep) (s.pcbs first).pid s.toScheduler = .ok t ∧
            t.readyQ = s.readyQ ++ woken ∧ t.currPCB = s.currPCB :=
        unblockProcess_appends nonneg
      refine ⟨s.withScheduler t, woken, ?_, readyQ, curr⟩
      change unblockWaiter (.pipe pipep) first s = _
      rw [unblockWaiter, done]
      rfl

/-- Writes, the clock and kernel code that goes on lead from one state to another one. -/
abbrev Kernel.HelpedTo (s t : Kernel) : Prop :=
  yallnix.Leads (fun i => i.helpsReaders = true) s t

namespace Kernel.PipeWork

variable {s t : Kernel} {x : Addr} {rest : Queue Addr}

theorem helped (work : s.PipeWork) (helped : s.HelpedTo t) : t.PipeWork :=
  helped.invariant work fun _ _ _ work helps next =>
    work.step (Input.helpsReaders_isPipeWork helps) next

/-- Nobody sleeps. -/
theorem sleepers (work : s.PipeWork) : s.sleepingMap.entries = [] := by
  refine List.eq_nil_iff_forall_not_mem.mpr ?_
  rintro ⟨key, a⟩ entry
  obtain ⟨-, live, -, ticks, point⟩ := work.streams.sound.placed.mem_sleeping entry
  have works := work.points a live
  rw [point] at works
  cases works

/-- The clock runs the head of `readyQ`. -/
theorem tick (work : s.PipeWork) (user : s.cpu = .user) (queue : s.readyQ = x :: rest) :
    ∃ t, yallnix.step s .clock t ∧ t.currPCB = x ∧ t.readyQ = rest ++ [s.currPCB] := by
  have ticked : tickDownSleepers s.toScheduler = .ok (successCode, s.toScheduler) := by
    rw [tickDownSleepers, HashMap.iterate_eq_foldl, work.sleepers]
    rfl
  have kicked : kickProcess s.toScheduler = .go (switchBetween .trapReturn (some s.currPCB) x
      { s.toScheduler with readyQ := rest ++ [s.currPCB] }) := by
    simp [kickProcess, runReady, queue, peekQ, enqQ]
  refine ⟨s.withScheduler (switchBetween .trapReturn (some s.currPCB) x
    { s.toScheduler with readyQ := rest ++ [s.currPCB] }), ⟨isUser_iff.mpr user, ?_⟩, rfl, rfl⟩
  rw [handle, handleTrapClock, ticked, Outcome.ok_bind]
  simp only [kicked]
  rfl

/-- The pipe of a reader is there and has the reader in its queue. -/
theorem object (work : s.PipeWork) {a : Addr} (live : a ∈ s.live) {pipep : ObjPtr}
    {pipeId len : Int} (point : s.pos a = .pipeRead pipep pipeId len) :
    ∃ pipe, s.pipes pipep = some pipe ∧ a ∈ pipe.waitingQ := by
  obtain ⟨members, present, member⟩ := work.queues.pipe.reader pipep a ⟨live, pipeId, len, point⟩
  obtain ⟨pipe, object, rfl⟩ := Option.map_eq_some_iff.mp present
  exact ⟨pipe, object, member⟩

/-- A reader that runs again gets its bytes, or it blocks and runs the head of `readyQ`. -/
theorem loop (work : s.PipeWork) {pipep : ObjPtr} {pipeId len : Int}
    (point : s.cpu = .pipeRead pipep pipeId len) (queue : s.readyQ = x :: rest) :
    ∃ flow, pipeReadLoop pipep pipeId len s = .ok flow ∧
      ((∃ t code woken, flow = .ret t code ∧ t.currPCB = s.currPCB ∧
        t.readyQ = s.readyQ ++ woken) ∨
          ∃ t, flow = .go t ∧ t.currPCB = x ∧ t.readyQ = rest) := by
  have placed := work.streams.sound.placed
  have here : s.pos s.currPCB = .pipeRead pipep pipeId len := s.pos_curr.trans point
  have positive : 0 < len := work.heads.positive s.currPCB placed.live _ _ _ here
  obtain ⟨pipe, object, member⟩ := work.object placed.live here
  have fits := (work.streams.streams pipep).fits pipe object
  have size := fits.size
  have bound := fits.bound
  unfold pipeReadLoop
  rw [object, deref, Outcome.ok_bind]
  split
  · obtain ⟨u, blocked, curr, readyQ⟩ := blockProcess_next placed
      (placed.not_idle (by rw [point]; rfl)) (.pipeRead pipep pipeId len) queue
    refine ⟨.go (s.withScheduler u), ?_, .inr ⟨_, rfl, curr, readyQ⟩⟩
    rw [blockCurrent, blocked]
    rfl
  · rename_i enough
    cases members : pipe.waitingQ with
    | nil =>
        rw [members] at member
        cases member
    | cons first behind =>
        simp only [deqQ_cons]
        have read : readBytes pipe.buffer 0 len = .ok (pipe.buffer.take len.toNat) := by
          rw [readBytes, if_pos ⟨le_refl _, by omega, by omega⟩]
          rfl
        rw [read, Outcome.ok_bind]
        split
        · have remaining : readBytes pipe.buffer len (pipe.numBytesWritten - len) =
              .ok ((pipe.buffer.drop len.toNat).take (pipe.numBytesWritten - len).toNat) := by
            rw [readBytes, if_pos ⟨by omega, by omega, by omega⟩]
          obtain ⟨buffer, moved⟩ : ∃ buffer, memmove pipe.buffer 0
              ((pipe.buffer.drop len.toNat).take (pipe.numBytesWritten - len).toNat) =
                .ok buffer := by
            rw [memmove, if_pos ⟨le_refl _, by simp only [List.length_take, List.length_drop]; omega⟩]
            exact ⟨_, rfl⟩
          rw [remaining, Outcome.ok_bind, moved, Outcome.ok_bind]
          obtain ⟨t, woken, done, readyQ, curr⟩ := unblockHead_appends
            (s := (s.withScheduler (s.record (.pipeRead pipep len
              (pipe.buffer.take len.toNat)))).setPipe pipep
                (some ⟨buffer, pipe.numBytesWritten - len, behind⟩))
            (placed.record _) pipep behind (fun a inside =>
              (work.queues.pipe.waits.waits pipep _ (View.pipeQueue_of object) a
                (members ▸ List.mem_cons_of_mem _ inside)).1)
          rw [done]
          exact ⟨_, rfl, .inl ⟨t, len, woken, rfl, curr, readyQ⟩⟩
        · exact ⟨_, rfl, .inl ⟨_, len, [], rfl, rfl, (List.append_nil _).symm⟩⟩

/-- Kernel code that goes on reaches user mode, or its process blocks. -/
theorem resume (work : s.PipeWork) (busy : s.cpu ≠ .user) (queue : s.readyQ = x :: rest) :
    ∃ t, yallnix.step s (.resume s.curr) t ∧
      ((t.cpu = .user ∧ t.currPCB = s.currPCB ∧ ∃ woken, t.readyQ = s.readyQ ++ woken) ∨
        (s.pos s.currPCB).isPipe = true ∧ t.currPCB = x ∧ t.readyQ = rest) := by
  have ready : enabled s (.resume s.curr) = true := by
    cases point : s.cpu <;> first | exact absurd point busy | rw [enabled, point]; rfl
  have steps (u : Kernel) (done : resumeKernel s.curr s = .ok u) (user : u.cpu = .user)
      (curr : u.currPCB = s.currPCB) (woken : Queue Addr) (readyQ : u.readyQ = s.readyQ ++ woken) :
      ∃ t, yallnix.step s (.resume s.curr) t ∧
        ((t.cpu = .user ∧ t.currPCB = s.currPCB ∧ ∃ woken, t.readyQ = s.readyQ ++ woken) ∨
          (s.pos s.currPCB).isPipe = true ∧ t.currPCB = x ∧ t.readyQ = rest) :=
    ⟨u, ⟨ready, done⟩, .inl ⟨user, curr, woken, readyQ⟩⟩
  have works := work.cpu
  cases point : s.cpu with
  | user => exact absurd point busy
  | starter | trapReturn =>
      refine steps { s with cpu := .user } ?_ rfl rfl [] (List.append_nil _).symm
      rw [resumeKernel, point]
      rfl
  | fork parentPCB childPCB =>
      refine steps (s.sysReturn .fork (kernelForkReturn parentPCB childPCB s.toScheduler)) ?_ rfl
        rfl [] (List.append_nil _).symm
      rw [resumeKernel, point]
      rfl
  | pipeRead pipep pipeId len =>
      obtain ⟨flow, looped, outcome⟩ := work.loop point queue
      have done : resumeKernel s.curr s = .ok (finish (.pipeRead pipeId len) flow) := by
        rw [resumeKernel, point]
        dsimp only
        rw [looped]
        rfl
      rcases outcome with ⟨t, code, woken, rfl, curr, readyQ⟩ | ⟨t, rfl, curr, readyQ⟩
      · exact steps _ done rfl curr woken readyQ
      · exact ⟨t, ⟨ready, done⟩, .inr ⟨by rw [s.pos_curr, point]; rfl, curr, readyQ⟩⟩
  | _ =>
      rw [point] at works
      cases works

/-- The head of `readyQ` runs after at most two inputs. -/
theorem advance (work : s.PipeWork) (queue : s.readyQ = x :: rest) :
    ∃ t more, s.HelpedTo t ∧ t.currPCB = x ∧ t.readyQ = rest ++ more := by
  by_cases user : s.cpu = .user
  · obtain ⟨t, next, curr, readyQ⟩ := work.tick user queue
    exact ⟨t, [s.currPCB], .single ⟨.clock, rfl, next⟩, curr, readyQ⟩
  · obtain ⟨t, next, ⟨user, _, woken, readyQ⟩ | ⟨-, curr, readyQ⟩⟩ :=
      work.resume user queue
    · rw [queue, List.cons_append] at readyQ
      obtain ⟨u, ticked, curr, behind⟩ := (work.step (i := .resume s.curr) rfl next).tick user readyQ
      refine ⟨u, woken ++ [t.currPCB], ?_, curr, behind.trans (List.append_assoc _ _ _)⟩
      exact .tail (.single ⟨.resume s.curr, rfl, next⟩) ⟨.clock, rfl, ticked⟩
    · exact ⟨t, [], .single ⟨.resume s.curr, rfl, next⟩, curr, by rw [readyQ, List.append_nil]⟩

/-- Every process of `readyQ` runs at some time. -/
theorem brings (work : s.PipeWork) {before behind : Queue Addr}
    (queue : s.readyQ = before ++ x :: behind) : ∃ t, s.HelpedTo t ∧ t.currPCB = x := by
  induction before generalizing s behind with
  | nil =>
      obtain ⟨t, _, helped, curr, _⟩ := work.advance queue
      exact ⟨t, helped, curr⟩
  | cons first before ih =>
      have queue : s.readyQ = first :: (before ++ x :: behind) := queue
      obtain ⟨t, more, helped, _, readyQ⟩ := work.advance queue
      rw [List.append_assoc, List.cons_append] at readyQ
      obtain ⟨u, later, curr⟩ := ih (work.helped helped) readyQ
      exact ⟨u, helped.trans later, curr⟩

/-- Every process that is not blocked runs at some time. -/
theorem runs (work : s.PipeWork) {a : Addr} (live : a ∈ s.live)
    (awake : a ∉ s.blockedMap.items) : ∃ t, s.HelpedTo t ∧ t.currPCB = a := by
  by_cases same : a = s.currPCB
  · exact ⟨s, .refl, same.symm⟩
  · have points := work.points a live
    have ready : a ∈ s.readyQ := by
      refine Settled.awake_ready work.streams.sound.placed live
        (fun out => same (Finset.mem_singleton.mp out)) ?_ awake
      cases point : s.pos a <;> rw [point] at points <;> first | rfl | cases points
    obtain ⟨before, behind, queue⟩ := List.append_of_mem ready
    exact work.brings queue

end Kernel.PipeWork

end

end Yallnix

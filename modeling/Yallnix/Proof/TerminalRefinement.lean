import Yallnix.Construction.TrapHandlers
import Yallnix.Proof.SchedulerRefinement

namespace Yallnix

section
variable [Hardware]

/-- A scheduler returns a code to user mode. -/
def Scheduler.sysReturn (s : Scheduler) (call : Call) (code : Int) : Scheduler :=
  { s.record (.returned s.curr.pid call code) with cpu := .user }

def Flow.finish (call : Call) : Flow Scheduler → Scheduler
  | .ret s code => s.sysReturn call code
  | .go s => s

theorem finishScheduler_eq (call : Call) (s : Kernel) (flow : Flow Scheduler) :
    finishScheduler call s flow = s.withScheduler (flow.finish call) := by
  cases flow <;> rfl

theorem sysReturn_refines {s : Scheduler} (placed : Placed s) (call : Call) (code : Int)
    (before : s.cpu.isBatch = false) :
    Placed (s.sysReturn call code) ∧
      (s.sysReturn call code).crowd = s.crowd.finish s.currPCB call code := by
  obtain ⟨moved, crowd⟩ := (placed.record (.returned s.curr.pid call code)).setCpu (k := .user)
    before rfl (fun _ => rfl)
  exact ⟨moved, crowd⟩

/-- A flow is quiet when other processes see only the program point of the current one. -/
def QuietFlow (s : Scheduler) : Flow Scheduler → Prop
  | .go t => Placed t ∧ ∃ (k : Pos) (events : List Event), k.isPlain = true ∧
      (∀ event ∈ events, event.isQuiet = true) ∧
      t.crowd = ({ s.crowd with log := events ++ s.log } : Crowd).move s.currPCB k
  | .ret t _ => t.currPCB = s.currPCB ∧ Placed { t with cpu := .user } ∧
      ∃ events : List Event, (∀ event ∈ events, event.isQuiet = true) ∧
      ({ t with cpu := .user } : Scheduler).crowd =
        ({ s.crowd with log := events ++ s.log } : Crowd).move s.currPCB .user

/-- A quiet flow is a quiet step of the abstract scheduler. -/
theorem QuietFlow.step {s : Scheduler} {flow : Flow Scheduler} (quiet : QuietFlow s flow)
    (call : Call) (before : s.cpu.isPlain = true)
    (silent : ∀ t code, flow = .ret t code → call.isQuiet code = true) :
    Placed (flow.finish call) ∧
      s.crowd.Step s.currPCB (flow.finish call).currPCB (flow.finish call).crowd := by
  have point : (s.crowd.proc s.currPCB).pos.isPlain = true := by
    change (s.pos s.currPCB).isPlain = true
    rwa [Scheduler.pos_curr]
  cases flow with
  | go t =>
      obtain ⟨placed, k, events, plain, allQuiet, crowd⟩ := quiet
      refine ⟨placed, ?_⟩
      change Crowd.Step s.currPCB t.currPCB s.crowd t.crowd
      rw [crowd]
      exact .quiet point plain allQuiet
  | ret t code =>
      obtain ⟨curr, placed, events, allQuiet, crowd⟩ := quiet
      refine ⟨placed.record (.returned t.curr.pid call code), ?_⟩
      have step : (Flow.finish call (.ret t code)).crowd =
          ({ s.crowd with log := (.returned t.curr.pid call code :: events) ++ s.log } :
            Crowd).move s.currPCB .user := by
        change ({ t with cpu := .user } : Scheduler).crowd.record _ = _
        rw [crowd]
        rfl
      rw [step]
      refine .quiet point rfl ?_
      intro event member
      rcases List.mem_cons.mp member with rfl | old
      · exact silent t code rfl
      · exact allQuiet event old

/-- A call that changes nothing returns quietly. -/
theorem QuietFlow.same {s : Scheduler} (placed : Placed s) (before : s.cpu.isBatch = false)
    (code : Int) : QuietFlow s (.ret s code) := by
  obtain ⟨moved, crowd⟩ := placed.setCpu (k := .user) before rfl (fun _ => rfl)
  exact ⟨rfl, moved, [], by simp, crowd⟩

theorem QuietFlow.suspended {s t : Scheduler} {k : Pos} (placed : Placed t)
    (plain : k.isPlain = true) (crowd : t.crowd = s.crowd.move s.currPCB k) :
    QuietFlow s (.go t) :=
  ⟨placed, k, [], plain, by simp, crowd⟩

theorem blockTransmitter_refines {s : Scheduler} (tty : Fin numTerminals) (call : Call)
    (r0Buf : List Byte) (placed : Placed s) (busy : s.cpu.isBatch = false)
    (notIdle : s.currPCB ≠ s.idlePCB) :
    ∃ t, blockTransmitter (.ttyWrite tty call r0Buf) tty s = .go t ∧ Placed t ∧
      t.crowd = s.crowd.move s.currPCB (.ttyWrite tty call r0Buf) := by
  have parked := placed.park (k := .ttyWrite tty call r0Buf)
    (t := { s with
      transmittingQs := Function.update s.transmittingQs tty
        (enqQ (s.transmittingQs tty) s.currPCB) })
    ⟨rfl, Finset.Subset.refl _, fun _ _ => rfl, le_refl _, rfl, rfl, rfl⟩
    (gains_transmitting s tty s.currPCB) (Finset.mem_singleton_self _) (fun _ => Or.inl)
    (fun _ => Or.inl) (by rwa [Scheduler.pos_curr]) rfl ⟨call, r0Buf, rfl⟩
    (fun same => absurd same notIdle)
  rw [Finset.erase_singleton] at parked
  exact runReady_refines parked (update_pos s _)

theorem blockReader_refines {s : Scheduler} (tty : Fin numTerminals) (call : Call) (len : Int)
    (placed : Placed s) (busy : s.cpu.isBatch = false) (notIdle : s.currPCB ≠ s.idlePCB) :
    ∃ t, blockReader (.ttyRead tty call len) tty s = .go t ∧ Placed t ∧
      t.crowd = s.crowd.move s.currPCB (.ttyRead tty call len) := by
  have parked := placed.park (k := .ttyRead tty call len)
    (t := { s with
      readingQs := Function.update s.readingQs tty (enqQ (s.readingQs tty) s.currPCB) })
    ⟨rfl, Finset.Subset.refl _, fun _ _ => rfl, le_refl _, rfl, rfl, rfl⟩
    (gains_reading s tty s.currPCB) (Finset.mem_singleton_self _) (fun _ => Or.inl)
    (fun _ => Or.inl) (by rwa [Scheduler.pos_curr]) rfl ⟨call, len, rfl⟩
    (fun same => absurd same notIdle)
  rw [Finset.erase_singleton] at parked
  exact runReady_refines parked (update_pos s _)

/-- `unblockReader` moves the first waiting reader to `readyQ`. -/
theorem unblockReader_refines {s : Scheduler} (placed : Placed s) (tty : Fin numTerminals) :
    Steady s (unblockReader tty s) := by
  unfold unblockReader
  cases queue : s.readingQs tty with
  | nil => exact ⟨placed, rfl, rfl, rfl, rfl⟩
  | cons first rest =>
      obtain ⟨woken, _⟩ := placed.wake
        (t := { s with readingQs := Function.update s.readingQs tty rest })
        ⟨rfl, Finset.Subset.refl _, fun _ _ => rfl, le_refl _, rfl, rfl, rfl⟩
        (gains_reading_front queue) (List.Subset.refl _) (List.Subset.refl _)
      exact ⟨woken, rfl, rfl, rfl, rfl⟩

/-- The process may transmit when the terminal is free or its own. -/
def Transmitter (tty : Fin numTerminals) (s : Scheduler) : Prop :=
  s.currTransmitters tty = none ∧ s.cpu.isBatch = false ∨ s.cpu.Transmits tty

theorem Transmitter.settled {s : Scheduler} {tty : Fin numTerminals} (placed : Placed s)
    (may : Transmitter tty s) (notIdle : s.currPCB ≠ s.idlePCB) :
    Settled { s with currTransmitters := Function.update s.currTransmitters tty none }
      (Function.update s.pos s.currPCB .user) {s.currPCB} := by
  rcases may with ⟨free, notBatch⟩ | transmits
  · have same : Function.update s.currTransmitters tty none = s.currTransmitters := by
      rw [← free]
      exact Function.update_eq_self tty s.currTransmitters
    have moved := Settled.point placed (k := .user) (Finset.mem_singleton_self s.currPCB)
      (by rwa [Scheduler.pos_curr]) rfl (fun _ => rfl)
    rw [same]
    exact moved
  · exact Settled.endTransmit placed (Finset.mem_singleton_self s.currPCB)
      (by rwa [Scheduler.pos_curr]) rfl notIdle

/-- The last batch frees the terminal and wakes the next writer. -/
theorem unblockTransmitter_refines {s : Scheduler} {tty : Fin numTerminals} (placed : Placed s)
    (may : Transmitter tty s) (notIdle : s.currPCB ≠ s.idlePCB) (code : Int) :
    QuietFlow s (.ret (unblockTransmitter tty s) code) := by
  have cleared := may.settled placed notIdle
  have pos (u : Scheduler) (curr : u.currPCB = s.currPCB) (cpu : u.cpu = .user)
      (pcbs : u.pcbs = s.pcbs) (a : Addr) :
      u.pos a = Function.update s.pos s.currPCB .user a := by
    rw [update_pos]
    simp only [Scheduler.pos, curr, cpu, pcbs]
    split <;> rfl
  have crowd (u : Scheduler) (curr : u.currPCB = s.currPCB) (cpu : u.cpu = .user)
      (pcbs : u.pcbs = s.pcbs) (live : u.live = s.live) (blocked : u.blockedMap = s.blockedMap)
      (nextPid : u.nextPid = s.nextPid) (log : u.log = s.log) :
      u.crowd = s.crowd.move s.currPCB .user := by
    refine Scheduler.crowd_move live blocked nextPid log (fun a => ?_) (fun a => ?_)
      (fun a => ?_) (fun a => ?_) (fun a => ?_)
    · rw [pcbs]
    · rw [pcbs]
    · rw [pcbs]
    · rw [pcbs]
    · rw [pos u curr cpu pcbs a, update_pos]
  cases queue : s.transmittingQs tty with
  | nil =>
      have freed : unblockTransmitter tty s =
          { s with currTransmitters := Function.update s.currTransmitters tty none } := by
        simp only [unblockTransmitter, queue, deqQ_nil]
      rw [freed]
      refine ⟨rfl, Placed.of (Function.update s.pos s.currPCB .user) ?_ ?_, [], by simp, ?_⟩
      · exact cleared.frame
          ⟨rfl, Finset.Subset.refl _, fun _ _ => rfl, le_refl _, rfl, rfl, rfl⟩
          (by intro place a; cases place <;> rfl) (List.Subset.refl _) (List.Subset.refl _)
      · exact pos _ rfl rfl rfl
      · exact crowd _ rfl rfl rfl rfl rfl rfl rfl
  | cons first rest =>
      have freed : unblockTransmitter tty s = { s with
          currTransmitters := Function.update s.currTransmitters tty none
          transmittingQs := Function.update s.transmittingQs tty rest
          readyQ := enqQ s.readyQ first } := by
        simp only [unblockTransmitter, queue, deqQ_cons]
      rw [freed]
      obtain ⟨woken, _⟩ := cleared.wake
        (t := { s with
          currTransmitters := Function.update s.currTransmitters tty none
          transmittingQs := Function.update s.transmittingQs tty rest })
        ⟨rfl, Finset.Subset.refl _, fun _ _ => rfl, le_refl _, rfl, rfl, rfl⟩
        (gains_transmitting_front queue) (List.Subset.refl _) (List.Subset.refl _)
      refine ⟨rfl, Placed.of (Function.update s.pos s.currPCB .user) ?_ ?_, [], by simp, ?_⟩
      · exact woken.frame
          ⟨rfl, Finset.Subset.refl _, fun _ _ => rfl, le_refl _, rfl, rfl, rfl⟩
          (by intro place a; cases place <;> rfl) (List.Subset.refl _) (List.Subset.refl _)
      · exact pos _ rfl rfl rfl
      · exact crowd _ rfl rfl rfl rfl rfl rfl rfl

/-- Each batch waits for its interrupt, and the last one frees the terminal. -/
theorem transmitLoop_refines {s : Scheduler} {tty : Fin numTerminals} (placed : Placed s)
    (may : Transmitter tty s) (notIdle : s.currPCB ≠ s.idlePCB) {call : Call}
    (terminal : call.isTerminal = true) (r0Buf : List Byte) (sent : Nat) :
    QuietFlow s (transmitLoop tty call r0Buf sent s) := by
  unfold transmitLoop
  split
  · dsimp only
    generalize min terminalMaxLine (r0Buf.length - sent) = batchSize
    have slot : s.currTransmitters tty = none ∨ s.currTransmitters tty = some s.currPCB := by
      rcases may with ⟨free, _⟩ | transmits
      · exact .inl free
      · refine .inr ((placed.transmitter tty s.currPCB).mpr ⟨placed.live, ?_⟩)
        rwa [Scheduler.pos_curr]
    have point : (s.pos s.currPCB).isBatch = false ∨ (s.pos s.currPCB).Transmits tty := by
      rw [Scheduler.pos_curr]
      exact may.imp_left And.right
    have parked := Settled.transmit placed (k := .ttyBatch tty call r0Buf (sent + batchSize))
      (Finset.mem_singleton_self s.currPCB) ⟨call, r0Buf, sent + batchSize, rfl⟩ notIdle slot point
    rw [Finset.erase_singleton] at parked
    let event : Event := .transmitted tty s.curr.pid ((r0Buf.drop sent).take batchSize)
    have framed := parked.frame (t := { s.record event with
        currTransmitters := Function.update s.currTransmitters tty (some s.currPCB)
        transmitting := Function.update s.transmitting tty true })
      ⟨rfl, Finset.Subset.refl _, fun _ _ => rfl, le_refl _, rfl, rfl, rfl⟩
      (by intro place a; cases place <;> rfl) (List.Subset.refl _) (List.Subset.refl _)
    obtain ⟨t, ran, result, crowd⟩ := runReady_refines framed
      (k := .ttyBatch tty call r0Buf (sent + batchSize)) (fun a => update_pos s _ a)
    have waits : waitTransmitter (.ttyBatch tty call r0Buf (sent + batchSize)) tty
        (({ s with transmitting := Function.update s.transmitting tty true } :
          Scheduler).record event) = .go t := ran
    change QuietFlow s (match waitTransmitter (.ttyBatch tty call r0Buf (sent + batchSize)) tty
        (({ s with transmitting := Function.update s.transmitting tty true } :
          Scheduler).record event) with
      | .ret s _ => .go { s with cpu := .ttyBatch tty call r0Buf (sent + batchSize) }
      | .go s => .go s)
    rw [waits]
    exact ⟨result, .ttyBatch tty call r0Buf (sent + batchSize), [event], terminal, by simp [event, Event.isQuiet], crowd⟩
  · exact unblockTransmitter_refines placed may notIdle _

theorem ttyWriteLoop_refines {s : Scheduler} {tty : Fin numTerminals} (placed : Placed s)
    (busy : s.cpu.isBatch = false) (notIdle : s.currPCB ≠ s.idlePCB) {call : Call}
    (terminal : call.isTerminal = true) (r0Buf : List Byte) :
    QuietFlow s (ttyWriteLoop tty call r0Buf s) := by
  unfold ttyWriteLoop
  split
  · rename_i available
    exact transmitLoop_refines placed (.inl ⟨Option.isNone_iff_eq_none.mp available, busy⟩)
      notIdle terminal r0Buf 0
  · obtain ⟨t, blocked, result, crowd⟩ :=
      blockTransmitter_refines tty call r0Buf placed busy notIdle
    rw [blocked]
    exact .suspended (k := .ttyWrite tty call r0Buf) result terminal crowd

theorem kernelTtyWrite_refines {s : Scheduler} (placed : Placed s) (user : s.cpu = .user)
    (notIdle : s.currPCB ≠ s.idlePCB) {oracle : Oracle} {ttyId : Int} {buf : Nat} {len : Int}
    {bytes : List Byte} {flow : Flow Scheduler}
    (done : kernelTtyWrite oracle ttyId buf len bytes s = .ok flow) : QuietFlow s flow := by
  have busy : s.cpu.isBatch = false := by rw [user]; rfl
  have same (code : Int) : QuietFlow s (.ret s code) := QuietFlow.same placed busy code
  unfold kernelTtyWrite at done
  split at done
  · exact Except.ok.inj done ▸ same _
  split at done
  · exact Except.ok.inj done ▸ same _
  split at done
  · exact Except.ok.inj done ▸ same _
  split at done
  · exact Except.ok.inj done ▸ same _
  · obtain ⟨tty, _, done⟩ := Outcome.bind_eq_ok.mp done
    exact Except.ok.inj done ▸ ttyWriteLoop_refines placed busy notIdle rfl _

/-- The interrupt preempts the current process for the waiting transmitter. -/
theorem handleTtyTransmit_refines {s t : Scheduler} (placed : Placed s) (user : s.cpu = .user)
    {tty : Fin numTerminals} (busy : s.transmitting tty = true)
    (done : handleTtyTransmit tty s = .ok t) :
    Placed t ∧ t.crowd = s.crowd.move s.currPCB .trapReturn := by
  obtain ⟨a, slot, notCurr⟩ := placed.transmission tty busy
  have ended := Settled.interrupt placed slot
  have parked := ended.park (k := .trapReturn)
    (t := { s with
      transmitting := Function.update s.transmitting tty false
      readyQ := enqQ s.readyQ s.currPCB })
    ⟨rfl, Finset.Subset.refl _, fun _ _ => rfl, le_refl _, rfl, rfl, rfl⟩
    (gains_ready _ s.currPCB) (Finset.mem_insert_of_mem (Finset.mem_singleton_self _))
    (fun _ => Or.inl) (fun _ => Or.inl) (by rw [Scheduler.pos_curr, user]; rfl) rfl trivial
    (fun _ => rfl)
  have out : (insert a {s.currPCB} : Finset Addr).erase s.currPCB = {a} := by
    rw [Finset.pair_comm, Finset.erase_insert]
    rw [Finset.mem_singleton]
    exact fun same => notCurr (Finset.mem_singleton.mpr same.symm)
  rw [out] at parked
  have result : t = switchBetween .trapReturn (some s.currPCB) a { s with
      transmitting := Function.update s.transmitting tty false
      readyQ := enqQ s.readyQ s.currPCB } := by
    simp only [handleTtyTransmit, signalTransmitter, slot] at done
    exact (Except.ok.inj done).symm
  rw [result]
  constructor
  · refine Placed.of (Function.update s.pos s.currPCB .trapReturn)
      (switchBetween_settled parked .trapReturn (some s.currPCB) a) ?_
    intro b
    rw [update_pos]
    exact switchBetween_pos .trapReturn a b { s with
      transmitting := Function.update s.transmitting tty false
      readyQ := enqQ s.readyQ s.currPCB }
  · exact switchBetween_crowd .trapReturn a { s with
      transmitting := Function.update s.transmitting tty false
      readyQ := enqQ s.readyQ s.currPCB }

/-- The clock interrupt wakes sleepers and preempts the current process. -/
theorem handleTrapClock_refines {s t : Scheduler} (placed : Placed s) (user : s.cpu = .user)
    (done : handleTrapClock s = .ok t) :
    Placed t ∧ (t.crowd = s.crowd ∨ t.crowd = s.crowd.move s.currPCB .trapReturn) := by
  unfold handleTrapClock at done
  obtain ⟨⟨code, u⟩, ticked, done⟩ := Outcome.bind_eq_ok.mp done
  have steady := tickDownSleepers_refines placed ticked
  dsimp only at done
  split at done
  · cases done
  · rcases kickProcess_refines steady.placed (steady.cpu.trans user) with
      stays | ⟨v, kicked, result, crowd⟩
    · rw [stays] at done
      dsimp only at done
      rw [if_neg (by decide)] at done
      cases done
      exact ⟨steady.placed, .inl steady.crowd⟩
    · rw [kicked] at done
      cases done
      refine ⟨result, .inr ?_⟩
      rw [crowd, steady.crowd, steady.currPCB]

/-- `writeBuffer` wakes one reader at most. -/
theorem writeBuffer_refines {s t : Kernel} {tty : Fin numTerminals} {line : Option (List Byte)}
    (placed : Placed s.toScheduler) (done : writeBuffer tty line s = .ok t) :
    Steady s.toScheduler t.toScheduler ∧ t.toSyncObjects = s.toSyncObjects := by
  unfold writeBuffer at done
  cases line with
  | none =>
      have eq := Except.ok.inj done
      subst eq
      exact ⟨⟨placed, rfl, rfl, rfl, rfl⟩, rfl⟩
  | some bytes =>
      obtain ⟨base, _, done⟩ := Outcome.bind_eq_ok.mp done
      have eq := Except.ok.inj done
      subst eq
      exact ⟨unblockReader_refines placed tty, rfl⟩

theorem withReceived_refines {s : Scheduler} (busy : s.cpu.isBatch = false)
    {event : Event} (silent : event.isQuiet = true) {t : Scheduler}
    (steady : Steady (s.record event) t) (code : Int) : QuietFlow s (.ret t code) := by
  obtain ⟨moved, crowd⟩ := steady.placed.setCpu (k := .user)
    (by rw [steady.cpu]; exact busy) rfl (fun _ => rfl)
  refine ⟨steady.currPCB, moved, [event], by simpa using silent, ?_⟩
  rw [crowd, steady.crowd, steady.currPCB]
  rfl

/-- A reader blocks on its terminal or takes bytes of the line. -/
theorem readBufferLoop_refines {s : Kernel} {tty : Fin numTerminals}
    (placed : Placed s.toScheduler) (busy : s.cpu.isBatch = false)
    (notIdle : s.currPCB ≠ s.idlePCB) {call : Call} (terminal : call.isTerminal = true)
    {len : Int} {flow : Flow Kernel} (done : readBufferLoop tty call len s = .ok flow) :
    (finish call flow).toSyncObjects = s.toSyncObjects ∧
      ∃ inner, QuietFlow s.toScheduler inner ∧
        (finish call flow).toScheduler = inner.finish call := by
  unfold readBufferLoop at done
  dsimp only at done
  split at done
  · have eq := Except.ok.inj done
    obtain ⟨t, blocked, result, crowd⟩ := blockReader_refines tty call len placed busy notIdle
    rw [blocked] at eq
    subst eq
    exact ⟨rfl, .go t, .suspended (k := .ttyRead tty call len) result terminal crowd, rfl⟩
  · split at done
    · obtain ⟨bytes, _, done⟩ := Outcome.bind_eq_ok.mp done
      obtain ⟨rest, _, done⟩ := Outcome.bind_eq_ok.mp done
      obtain ⟨base, _, done⟩ := Outcome.bind_eq_ok.mp done
      have eq := Except.ok.inj done
      subst eq
      refine ⟨rfl, .ret (unblockReader tty (s.toScheduler.record
        (.received tty s.curr.pid bytes))) len, ?_, rfl⟩
      exact withReceived_refines busy rfl
        (unblockReader_refines (placed.record _) tty) len
    · obtain ⟨bytes, _, done⟩ := Outcome.bind_eq_ok.mp done
      have eq := Except.ok.inj done
      subst eq
      refine ⟨rfl, .ret (s.toScheduler.record (.received tty s.curr.pid bytes))
        (s.buffers tty).numBytesWritten, ?_, rfl⟩
      exact withReceived_refines busy rfl ⟨placed.record _, rfl, rfl, rfl, rfl⟩ _

theorem kernelTtyRead_refines {s : Kernel} (placed : Placed s.toScheduler)
    (user : s.cpu = .user) (notIdle : s.currPCB ≠ s.idlePCB) {oracle : Oracle} {ttyId : Int}
    {buf : Nat} {len : Int} {flow : Flow Kernel}
    (done : kernelTtyRead oracle ttyId buf len s = .ok flow) :
    (finish (.ttyRead ttyId buf len) flow).toSyncObjects = s.toSyncObjects ∧
      ∃ inner, QuietFlow s.toScheduler inner ∧
        (finish (.ttyRead ttyId buf len) flow).toScheduler =
          inner.finish (.ttyRead ttyId buf len) := by
  have busy : s.cpu.isBatch = false := by rw [user]; rfl
  have same (code : Int) :
      (finish (.ttyRead ttyId buf len) (.ret s code)).toSyncObjects = s.toSyncObjects ∧
      ∃ inner, QuietFlow s.toScheduler inner ∧
        (finish (.ttyRead ttyId buf len) (.ret s code)).toScheduler =
          inner.finish (.ttyRead ttyId buf len) :=
    ⟨rfl, .ret s.toScheduler code, QuietFlow.same placed busy code, rfl⟩
  unfold kernelTtyRead at done
  split at done
  · exact Except.ok.inj done ▸ same _
  split at done
  · exact Except.ok.inj done ▸ same _
  split at done
  · exact Except.ok.inj done ▸ same _
  split at done
  · exact Except.ok.inj done ▸ same _
  · obtain ⟨tty, _, done⟩ := Outcome.bind_eq_ok.mp done
    exact readBufferLoop_refines placed busy notIdle rfl done

end

end Yallnix

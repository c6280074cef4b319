import Yallnix.Proof.TerminalFrame
import Yallnix.Proof.SingleResidence

namespace Yallnix

section
variable [Hardware]

/-- The kernel keeps these facts about one terminal. -/
structure Terminal where
  currTransmitter : Option Addr
  transmittingQ : Queue Addr
  readingQ : Queue Addr
  transmitting : Bool
  isLineReady : Bool

def Kernel.terminal (s : Kernel) (tty : Fin numTerminals) : Terminal where
  currTransmitter := s.currTransmitters tty
  transmittingQ := s.transmittingQs tty
  readingQ := s.readingQs tty
  transmitting := s.transmitting tty
  isLineReady := (s.buffers tty).isLineReady

/-- The process is in a call that uses this terminal. -/
def Pos.usesTty (tty : Fin numTerminals) : Pos → Bool
  | .ttyWrite other .. | .ttyBatch other .. | .ttyRead other .. => decide (other = tty)
  | _ => false

/-- The event is a batch or the end of a write on this terminal. -/
def Event.usesTty (tty : Fin numTerminals) : Event → Bool
  | .transmitted other .. => decide (other = tty)
  | .returned _ (.ttyWrite ttyId _ len _) code => decide (ttyId = tty.val ∧ 0 < len ∧ code = len)
  | _ => false

/-- The call writes these bytes to this terminal. -/
def Call.Writes (tty : Fin numTerminals) (r0Buf : List Byte) : Call → Prop
  | .ttyWrite ttyId _ len bytes =>
      ttyId = tty.val ∧ 0 < len ∧ bytes = r0Buf ∧ r0Buf.length = len.toNat
  | _ => False

/-- The saved program point of a terminal call carries its call. -/
def Pos.CarriesTerminal : Pos → Prop
  | .ttyWrite tty call r0Buf => call.Writes tty r0Buf
  | .ttyBatch tty call r0Buf bytesTransmitted =>
      call.Writes tty r0Buf ∧ bytesTransmitted ≤ r0Buf.length
  | .ttyRead tty call len => ∃ buf, call = .ttyRead tty.val buf len
  | _ => True

/-- These checks of `KernelTtyWrite` come before its loops. -/
def acceptsWrite (oracle : Oracle) (buf : Nat) (len : Int) (s : Scheduler) : Bool :=
  decide (vmem1Base ≤ buf) && decide (0 < len) &&
    isValidBuffer (fun index => s.r0PageTable.getD index (oracle.pastTable index))
      (r1Memory oracle s) buf len ⟨true, false, false⟩

/-- These checks of `KernelTtyRead` come before `readBuffer`. -/
def acceptsRead (oracle : Oracle) (buf : Nat) (len : Int) (s : Scheduler) : Bool :=
  decide (vmem1Base ≤ buf) && decide (0 < len) &&
    isValidBuffer (fun index => s.r0PageTable.getD index (oracle.pastTable index))
      (r1Memory oracle s) buf len ⟨false, true, false⟩

/-- The bytes of an accepted write call on this terminal. -/
def Input.written (tty : Fin numTerminals) (s : Scheduler) : Input → Option (List Byte)
  | .kernelCall (.ttyWrite ttyId buf len bytes) oracle =>
      if ttyId = tty.val ∧ acceptsWrite oracle buf len s = true then some bytes else none
  | _ => none

/-- The running process is at the first loop of `KernelTtyWrite`. -/
inductive Kernel.Writes (s : Kernel) (tty : Fin numTerminals) (i : Input) (call : Call)
    (r0Buf : List Byte) : Prop where
  | enters (user : s.cpu = .user) (accepted : i.written tty s.toScheduler = some r0Buf)
      (writes : call.Writes tty r0Buf)
  | again (silent : ∀ other, i.written other s.toScheduler = none)
      (point : s.cpu = .ttyWrite tty call r0Buf)

/-- The running process is at the second loop of `KernelTtyWrite`. -/
def Kernel.MayTransmit (s : Kernel) (tty : Fin numTerminals) (i : Input) (call : Call)
    (r0Buf : List Byte) (bytesTransmitted : Nat) : Prop :=
  s.Writes tty i call r0Buf ∧ bytesTransmitted = 0 ∧ s.currTransmitters tty = none ∨
    (∀ other, i.written other s.toScheduler = none) ∧
      s.cpu = .ttyBatch tty call r0Buf bytesTransmitted

/-- The step of the running process as one terminal sees it. -/
inductive TtyStep (tty : Fin numTerminals) (i : Input) (s t : Kernel) : Prop where
  | passes (before : s.cpu.usesTty tty = false) (silent : i.written tty s.toScheduler = none)
      (same : t.terminal tty = s.terminal tty)
      (log : ∃ events, t.log = events ++ s.log ∧ ∀ event ∈ events, event.usesTty tty = false)
      (after : s.currPCB ∈ t.live → (t.pos s.currPCB).usesTty tty = false)
  | queues {call : Call} {r0Buf : List Byte} (writes : s.Writes tty i call r0Buf)
      (busy : s.currTransmitters tty ≠ none)
      (after : t.terminal tty = { s.terminal tty with
        transmittingQ := enqQ (s.transmittingQs tty) s.currPCB })
      (log : t.log = s.log) (point : t.pos s.currPCB = .ttyWrite tty call r0Buf)
  | sends {call : Call} {r0Buf : List Byte} {bytesTransmitted : Nat}
      (may : s.MayTransmit tty i call r0Buf bytesTransmitted)
      (more : bytesTransmitted < r0Buf.length)
      (after : t.terminal tty = { s.terminal tty with
        currTransmitter := some s.currPCB
        transmitting := true })
      (log : t.log = .transmitted tty s.curr.pid ((r0Buf.drop bytesTransmitted).take
        (min terminalMaxLine (r0Buf.length - bytesTransmitted))) :: s.log)
      (point : t.pos s.currPCB = .ttyBatch tty call r0Buf
        (bytesTransmitted + min terminalMaxLine (r0Buf.length - bytesTransmitted)))
  | ends {call : Call} {r0Buf : List Byte} {bytesTransmitted : Nat}
      (may : s.MayTransmit tty i call r0Buf bytesTransmitted)
      (whole : r0Buf.length ≤ bytesTransmitted)
      (after : t.terminal tty = { s.terminal tty with
        currTransmitter := none
        transmittingQ := (s.transmittingQs tty).tail })
      (log : t.log = .returned s.curr.pid call r0Buf.length :: s.log)
      (point : t.pos s.currPCB = .user)
  | interrupt (asked : i = .ttyTransmit tty) (user : s.cpu = .user)
      (busy : s.transmitting tty = true)
      (after : t.terminal tty = { s.terminal tty with transmitting := false })
      (log : t.log = s.log) (point : t.pos s.currPCB = .trapReturn)
  | waits {call : Call} {len : Int} (silent : i.written tty s.toScheduler = none)
      (carries : ∃ buf, call = .ttyRead tty.val buf len)
      (reads : s.cpu = .user ∨ s.cpu = .ttyRead tty call len)
      (unready : (s.buffers tty).isLineReady = false)
      (after : t.terminal tty = { s.terminal tty with
        readingQ := enqQ (s.readingQs tty) s.currPCB })
      (log : t.log = s.log) (point : t.pos s.currPCB = .ttyRead tty call len)
  /-- A reader takes bytes, or a line or an EOF arrives. -/
  | takes (ready : Bool) (silent : i.written tty s.toScheduler = none)
      (reads : s.cpu = .user ∨ ∃ call len, s.cpu = .ttyRead tty call len)
      (after : t.terminal tty = { s.terminal tty with
        readingQ := if ready then (s.readingQs tty).tail else s.readingQs tty
        isLineReady := ready })
      (log : ∃ events, t.log = events ++ s.log ∧ ∀ event ∈ events, event.usesTty tty = false)
      (point : t.pos s.currPCB = .user)

theorem Pos.usesTty_isTty {tty : Fin numTerminals} {k : Pos} (outside : k.isTty = false) :
    k.usesTty tty = false := by
  cases k <;> first | rfl | cases outside

theorem Event.usesTty_isTty {tty : Fin numTerminals} {event : Event}
    (outside : event.isTty = false) : event.usesTty tty = false := by
  cases event with
  | transmitted => cases outside
  | returned pid call code =>
      cases call with
      | ttyWrite ttyId buf len bytes =>
          simp only [Event.isTty, decide_eq_false_iff_not] at outside
          exact decide_eq_false fun both => outside both.2
      | _ => rfl
  | _ => rfl

section
variable {s t : Kernel} {i : Input} {tty : Fin numTerminals}

/-- A step away from the terminals passes every terminal. -/
theorem Away.passes (away : Away s t) (outside : s.cpu.isTty = false)
    (silent : i.written tty s.toScheduler = none) : TtyStep tty i s t := by
  obtain ⟨events, log, quiet⟩ := away.offline.log
  refine .passes (Pos.usesTty_isTty outside) silent ?_
    ⟨events, log, fun event member => Event.usesTty_isTty (quiet event member)⟩ fun live => ?_
  · simp only [Kernel.terminal, away.offline.currTransmitters, away.offline.transmittingQs,
      away.offline.readingQs, away.offline.transmitting, away.buffers]
  · refine Pos.usesTty_isTty (Bool.eq_false_iff.mpr fun inside => ?_)
    have same := (away.offline.points s.currPCB live inside).2
    rw [same, Scheduler.pos_curr, outside] at inside
    cases inside

/-- A terminal other than the used one only sees the program point of the process. -/
theorem TtyStep.elsewhere {other : Fin numTerminals} (differs : other ≠ tty)
    (before : s.cpu.usesTty tty = false) (silent : i.written tty s.toScheduler = none)
    (same : t.terminal tty = s.terminal tty)
    (log : ∃ events, t.log = events ++ s.log ∧ ∀ event ∈ events, event.usesTty tty = false)
    (point : t.pos s.currPCB = .user ∨ (t.pos s.currPCB).usesTty other = true) :
    TtyStep tty i s t := by
  refine .passes before silent same log fun _ => ?_
  rcases point with user | there
  · rw [user]
    rfl
  · cases at' : t.pos s.currPCB <;> rw [at'] at there <;>
      simp_all [Pos.usesTty]

end

/-- The terminals stay, and the process leaves the processor at a program point. -/
structure Parks (k : Pos) (s u : Scheduler) : Prop where
  currTransmitters : u.currTransmitters = s.currTransmitters
  transmittingQs : u.transmittingQs = s.transmittingQs
  readingQs : u.readingQs = s.readingQs
  transmitting : u.transmitting = s.transmitting
  log : u.log = s.log
  point : u.pos s.currPCB = k

theorem parks_stay (k : Pos) (s : Scheduler) : Parks k s { s with cpu := k } :=
  ⟨rfl, rfl, rfl, rfl, rfl, if_pos rfl⟩

theorem parks_switch (k : Pos) (s : Scheduler) (next : Addr) (readyQ : Queue Addr) :
    Parks k s (switchBetween k (some s.currPCB) next { s with readyQ := readyQ }) := by
  refine ⟨rfl, rfl, rfl, rfl, rfl, ?_⟩
  rw [switchBetween_pos k next s.currPCB { s with readyQ := readyQ }, if_pos rfl]

/-- A loop that finds no ready process goes on, and otherwise it leaves the processor. -/
theorem runReady_parks (k : Pos) (s : Scheduler) :
    ∃ u, (match runReady k s with
      | .ret v _ => Flow.go { v with cpu := k }
      | .go v => .go v) = .go u ∧ Parks k s u := by
  unfold runReady
  cases s.readyQ with
  | nil => exact ⟨_, rfl, parks_stay k s⟩
  | cons next rest => exact ⟨_, rfl, parks_switch k s next rest⟩

/-- A blocked transmitter goes behind the queue of its terminal. -/
theorem ttyWriteLoop_busy {s : Scheduler} {tty : Fin numTerminals} (call : Call)
    (r0Buf : List Byte) (busy : s.currTransmitters tty ≠ none) :
    ∃ u, ttyWriteLoop tty call r0Buf s = .go u ∧ Parks (.ttyWrite tty call r0Buf) { s with
      transmittingQs := Function.update s.transmittingQs tty
        (enqQ (s.transmittingQs tty) s.currPCB) } u := by
  have taken : isTtyTransmitAvailable tty s ≠ true :=
    fun free => busy (Option.isNone_iff_eq_none.mp free)
  unfold ttyWriteLoop
  rw [if_neg taken]
  exact runReady_parks (.ttyWrite tty call r0Buf) _

/-- One more batch goes out, and the terminal is taken. -/
theorem transmitLoop_more (s : Scheduler) (tty : Fin numTerminals) (call : Call)
    {r0Buf : List Byte} {bytesTransmitted : Nat} (more : bytesTransmitted < r0Buf.length) :
    ∃ u, transmitLoop tty call r0Buf bytesTransmitted s = .go u ∧
      Parks (.ttyBatch tty call r0Buf
          (bytesTransmitted + min terminalMaxLine (r0Buf.length - bytesTransmitted)))
        { s.record (.transmitted tty s.curr.pid ((r0Buf.drop bytesTransmitted).take
            (min terminalMaxLine (r0Buf.length - bytesTransmitted)))) with
          currTransmitters := Function.update s.currTransmitters tty (some s.currPCB)
          transmitting := Function.update s.transmitting tty true } u := by
  unfold transmitLoop
  rw [if_pos more]
  exact runReady_parks (.ttyBatch tty call r0Buf
    (bytesTransmitted + min terminalMaxLine (r0Buf.length - bytesTransmitted))) _

/-- After the last batch the terminal is free, and the first queued writer is ready. -/
theorem transmitLoop_last (s : Scheduler) (tty : Fin numTerminals) (call : Call)
    {r0Buf : List Byte} {bytesTransmitted : Nat} (whole : r0Buf.length ≤ bytesTransmitted) :
    ∃ u, transmitLoop tty call r0Buf bytesTransmitted s = .ret u r0Buf.length ∧
      u.currTransmitters = Function.update s.currTransmitters tty none ∧
      u.transmittingQs = Function.update s.transmittingQs tty (s.transmittingQs tty).tail ∧
      u.readingQs = s.readingQs ∧ u.transmitting = s.transmitting ∧ u.log = s.log ∧
      u.currPCB = s.currPCB ∧ u.pcbs = s.pcbs := by
  unfold transmitLoop
  rw [if_neg (by omega)]
  refine ⟨_, rfl, ?_⟩
  cases queue : s.transmittingQs tty with
  | nil =>
      simp only [unblockTransmitter, queue, deqQ_nil]
      refine ⟨trivial, ?_, trivial, trivial, trivial, trivial, trivial⟩
      rw [List.tail_nil, ← queue, Function.update_eq_self]
  | cons first rest => simp [unblockTransmitter, queue, deqQ_cons]

section
variable {s t : Kernel} {i : Input} {tty : Fin numTerminals} {call : Call} {r0Buf : List Byte}
  {bytesTransmitted : Nat}

theorem Kernel.terminal_withScheduler (s : Kernel) (u : Scheduler) (tty : Fin numTerminals) :
    (s.withScheduler u).terminal tty = ⟨u.currTransmitters tty, u.transmittingQs tty,
      u.readingQs tty, u.transmitting tty, (s.buffers tty).isLineReady⟩ := rfl

/-- An accepted write call uses one terminal only. -/
theorem Input.written_other {other : Fin numTerminals} {s : Scheduler} (differs : tty ≠ other)
    (accepted : i.written tty s = some r0Buf) : i.written other s = none := by
  cases i with
  | kernelCall call oracle =>
      cases call with
      | ttyWrite ttyId buf len bytes =>
          simp only [Input.written] at accepted ⊢
          split at accepted
          · rename_i both
            refine if_neg fun twice => differs (Fin.ext ?_)
            exact_mod_cast both.1.symm.trans twice.1
          · cases accepted
      | _ => rfl
  | _ => rfl

theorem Kernel.Writes.other {other : Fin numTerminals} (differs : tty ≠ other)
    (writes : s.Writes tty i call r0Buf) :
    s.cpu.usesTty other = false ∧ i.written other s.toScheduler = none := by
  cases writes with
  | enters user accepted _ =>
      rw [user]
      exact ⟨rfl, Input.written_other differs accepted⟩
  | again silent point =>
      rw [point]
      exact ⟨decide_eq_false differs, silent other⟩

theorem Kernel.MayTransmit.other {other : Fin numTerminals} (differs : tty ≠ other)
    (may : s.MayTransmit tty i call r0Buf bytesTransmitted) :
    s.cpu.usesTty other = false ∧ i.written other s.toScheduler = none := by
  rcases may with ⟨writes, _⟩ | ⟨silent, point⟩
  · exact writes.other differs
  · rw [point]
    exact ⟨decide_eq_false differs, silent other⟩

/-- A write returns the number of its bytes. -/
theorem Call.Writes.returned (writes : call.Writes tty r0Buf) (pid : Int) :
    ∀ other, tty ≠ other → (Event.returned pid call r0Buf.length).usesTty other = false := by
  intro other differs
  cases call with
  | ttyWrite ttyId buf len bytes =>
      refine decide_eq_false fun both => differs (Fin.ext ?_)
      exact_mod_cast writes.1.symm.trans both.1
  | _ => cases writes

/-- The second loop of `KernelTtyWrite` is a step of every terminal. -/
theorem transmitLoop_ttyStep (may : s.MayTransmit tty i call r0Buf bytesTransmitted)
    (writes : call.Writes tty r0Buf) (other : Fin numTerminals) :
    TtyStep other i s (s.withScheduler
      ((transmitLoop tty call r0Buf bytesTransmitted s.toScheduler).finish call)) := by
  by_cases more : bytesTransmitted < r0Buf.length
  · obtain ⟨u, sent, parks⟩ := transmitLoop_more s.toScheduler tty call more
    rw [sent]
    have after := s.terminal_withScheduler u
    by_cases same : tty = other
    · subst same
      refine .sends may more ?_ parks.log parks.point
      refine (after tty).trans ?_
      simp only [parks.currTransmitters, parks.transmittingQs, parks.readingQs,
        parks.transmitting, Function.update_self]
      rfl
    · obtain ⟨before, silent⟩ := may.other same
      refine .elsewhere same before silent ?_ ⟨[_], parks.log, ?_⟩ (.inr ?_)
      · refine (after other).trans ?_
        simp only [parks.currTransmitters, parks.transmittingQs, parks.readingQs,
          parks.transmitting, Function.update_of_ne (Ne.symm same)]
        rfl
      · simpa [Event.usesTty] using same
      · exact (congrArg (Pos.usesTty tty) parks.point).trans (decide_eq_true rfl)
  · obtain ⟨u, freed, currTransmitters, transmittingQs, readingQs, transmitting, log, curr, pcbs⟩ :=
      transmitLoop_last s.toScheduler tty call (Nat.le_of_not_lt more)
    rw [freed]
    have after := s.terminal_withScheduler (u.sysReturn call r0Buf.length)
    have point : (u.sysReturn call r0Buf.length).pos s.currPCB = .user := if_pos curr.symm
    have event : (u.sysReturn call r0Buf.length).log =
        .returned s.curr.pid call r0Buf.length :: s.log := by
      simp only [Scheduler.sysReturn, Scheduler.record, Scheduler.curr, log, curr, pcbs]
    by_cases same : tty = other
    · subst same
      refine .ends may (Nat.le_of_not_lt more) ?_ event point
      refine (after tty).trans ?_
      simp only [Scheduler.sysReturn, Scheduler.record, currTransmitters, transmittingQs, readingQs,
        transmitting, Function.update_self]
      rfl
    · obtain ⟨before, silent⟩ := may.other same
      refine .elsewhere same before silent ?_ ⟨[_], event, ?_⟩ (.inl point)
      · refine (after other).trans ?_
        simp only [Scheduler.sysReturn, Scheduler.record, currTransmitters, transmittingQs,
          readingQs, transmitting, Function.update_of_ne (Ne.symm same)]
        rfl
      · simpa using writes.returned s.curr.pid other same

/-- The first loop of `KernelTtyWrite` is a step of every terminal. -/
theorem ttyWriteLoop_ttyStep (writes : s.Writes tty i call r0Buf) (carries : call.Writes tty r0Buf)
    (other : Fin numTerminals) :
    TtyStep other i s (s.withScheduler ((ttyWriteLoop tty call r0Buf s.toScheduler).finish call)) := by
  by_cases free : s.currTransmitters tty = none
  · have starts : ttyWriteLoop tty call r0Buf s.toScheduler =
        transmitLoop tty call r0Buf 0 s.toScheduler :=
      if_pos (Option.isNone_iff_eq_none.mpr free)
    rw [starts]
    exact transmitLoop_ttyStep (.inl ⟨writes, rfl, free⟩) carries other
  · obtain ⟨u, queued, parks⟩ := ttyWriteLoop_busy (s := s.toScheduler) call r0Buf free
    rw [queued]
    have after := s.terminal_withScheduler u
    by_cases same : tty = other
    · subst same
      refine .queues writes free ?_ parks.log parks.point
      refine (after tty).trans ?_
      simp only [parks.currTransmitters, parks.transmittingQs, parks.readingQs,
        parks.transmitting, Function.update_self]
      rfl
    · obtain ⟨before, silent⟩ := writes.other same
      refine .elsewhere same before silent ?_ ⟨[], parks.log, by simp⟩ (.inr ?_)
      · refine (after other).trans ?_
        simp only [parks.currTransmitters, parks.transmittingQs, parks.readingQs,
          parks.transmitting, Function.update_of_ne (Ne.symm same)]
        rfl
      · exact (congrArg (Pos.usesTty tty) parks.point).trans (decide_eq_true rfl)

/-- The first queued reader leaves its queue. -/
theorem unblockReader_reads (tty : Fin numTerminals) (s : Scheduler) :
    (unblockReader tty s).readingQs =
        Function.update s.readingQs tty (s.readingQs tty).tail ∧
      (unblockReader tty s).currTransmitters = s.currTransmitters ∧
      (unblockReader tty s).transmittingQs = s.transmittingQs ∧
      (unblockReader tty s).transmitting = s.transmitting ∧
      (unblockReader tty s).log = s.log ∧ (unblockReader tty s).currPCB = s.currPCB ∧
      (unblockReader tty s).cpu = s.cpu := by
  cases queue : s.readingQs tty with
  | nil =>
      simp only [unblockReader, queue, deqQ_nil, List.tail_nil]
      refine ⟨?_, trivial, trivial, trivial, trivial, trivial, trivial⟩
      rw [← queue, Function.update_eq_self]
  | cons first rest => simp [unblockReader, queue, deqQ_cons]

/-- The bytes of one terminal change while all other terminals stay. -/
theorem TtyStep.read (tty : Fin numTerminals) (ready : Bool)
    (silent : ∀ other, i.written other s.toScheduler = none)
    (reads : s.cpu = .user ∨ ∃ call len, s.cpu = .ttyRead tty call len)
    (currTransmitters : t.currTransmitters = s.currTransmitters)
    (transmittingQs : t.transmittingQs = s.transmittingQs)
    (readingQs : t.readingQs =
      if ready then Function.update s.readingQs tty (s.readingQs tty).tail else s.readingQs)
    (transmitting : t.transmitting = s.transmitting)
    (line : (t.buffers tty).isLineReady = ready)
    (elsewhere : ∀ other, other ≠ tty → t.buffers other = s.buffers other)
    (log : ∃ events, t.log = events ++ s.log ∧
      ∀ event ∈ events, ∀ other, event.usesTty other = false)
    (point : t.pos s.currPCB = .user) (other : Fin numTerminals) : TtyStep other i s t := by
  obtain ⟨events, log, quiet⟩ := log
  by_cases same : tty = other
  · subst same
    refine .takes ready (silent tty) reads ?_ ⟨events, log, fun e member => quiet e member tty⟩ point
    simp only [Kernel.terminal, currTransmitters, transmittingQs, readingQs, transmitting, line]
    cases ready with
    | true => simp
    | false => simp
  · refine .elsewhere same ?_ (silent other) ?_
      ⟨events, log, fun e member => quiet e member other⟩ (.inl point)
    · rcases reads with user | ⟨call, len, waiting⟩
      · rw [user]
        rfl
      · rw [waiting]
        exact decide_eq_false same
    · have queue : t.readingQs other = s.readingQs other := by
        rw [readingQs]
        cases ready with
        | true => exact Function.update_of_ne (Ne.symm same) _ _
        | false => rfl
      simp only [Kernel.terminal, currTransmitters, transmittingQs, transmitting, queue,
        elsewhere other (Ne.symm same)]

/-- A reader waits, or it takes bytes and returns. -/
theorem readBufferLoop_ttyStep {len : Int} {flow : Flow Kernel}
    (ready : s.readyQ ≠ []) (silent : ∀ other, i.written other s.toScheduler = none)
    (reads : s.cpu = .user ∨ s.cpu = .ttyRead tty call len)
    (carries : ∃ buf, call = .ttyRead tty.val buf len)
    (done : readBufferLoop tty call len s = .ok flow) (other : Fin numTerminals) :
    TtyStep other i s (finish call flow) := by
  have before (differs : tty ≠ other) : s.cpu.usesTty other = false := by
    rcases reads with user | point
    · rw [user]
      rfl
    · rw [point]
      exact decide_eq_false differs
  have quiet (pid code : Int) (other : Fin numTerminals) :
      (Event.returned pid call code).usesTty other = false := by
    obtain ⟨buf, rfl⟩ := carries
    rfl
  unfold readBufferLoop at done
  dsimp only at done
  split at done
  · rename_i unready
    obtain ⟨next, rest, queue⟩ := List.exists_cons_of_ne_nil ready
    have blocked : flow = .go (s.withScheduler (switchBetween (.ttyRead tty call len)
        (some s.currPCB) next { s.toScheduler with
          readingQs := Function.update s.readingQs tty (enqQ (s.readingQs tty) s.currPCB)
          readyQ := rest })) := by
      have eq := Except.ok.inj done
      simp only [blockReader, runReady, queue, deqQ_cons] at eq
      exact eq.symm
    subst blocked
    have parks := parks_switch (.ttyRead tty call len) { s.toScheduler with
      readingQs := Function.update s.readingQs tty (enqQ (s.readingQs tty) s.currPCB) } next rest
    have after := s.terminal_withScheduler (switchBetween (.ttyRead tty call len)
        (some s.currPCB) next { s.toScheduler with
          readingQs := Function.update s.readingQs tty (enqQ (s.readingQs tty) s.currPCB)
          readyQ := rest })
    by_cases same : tty = other
    · subst same
      refine .waits (silent tty) carries reads (by simpa using unready) ?_ parks.log parks.point
      refine (after tty).trans ?_
      simp only [parks.currTransmitters, parks.transmittingQs, parks.readingQs,
        parks.transmitting, Function.update_self]
      rfl
    · refine .elsewhere same (before same) (silent other) ?_ ⟨[], parks.log, by simp⟩ (.inr ?_)
      · refine (after other).trans ?_
        simp only [parks.currTransmitters, parks.transmittingQs, parks.readingQs,
          parks.transmitting, Function.update_of_ne (Ne.symm same)]
        rfl
      · exact (congrArg (Pos.usesTty tty) parks.point).trans (decide_eq_true rfl)
  rename_i full
  have wasReady : (s.buffers tty).isLineReady = true := by simpa using full
  split at done
  · obtain ⟨bytes, _, done⟩ := Outcome.bind_eq_ok.mp done
    obtain ⟨rest, _, done⟩ := Outcome.bind_eq_ok.mp done
    obtain ⟨base, _, done⟩ := Outcome.bind_eq_ok.mp done
    have eq := Except.ok.inj done
    subst eq
    obtain ⟨readingQs, currTransmitters, transmittingQs, transmitting, log, curr, _⟩ :=
      unblockReader_reads tty (s.record (.received tty s.curr.pid bytes))
    have taking : s.cpu = .user ∨ ∃ call len, s.cpu = .ttyRead tty call len :=
      reads.imp_right fun point => ⟨call, len, point⟩
    refine .read tty true silent taking currTransmitters transmittingQs readingQs transmitting ?_
      (fun _ differs => Function.update_of_ne differs _ _)
      ⟨[.returned _ call len, .received tty s.curr.pid bytes],
        congrArg (Event.returned _ call len :: ·) log, ?_⟩ ?_ other
    · simpa [finish, Kernel.sysReturn, Kernel.withScheduler, Kernel.setBuffer] using wasReady
    · simpa using ⟨quiet _ _, fun _ => rfl⟩
    · exact if_pos curr.symm
  · obtain ⟨bytes, _, done⟩ := Outcome.bind_eq_ok.mp done
    have eq := Except.ok.inj done
    subst eq
    refine .read tty false silent (reads.imp_right fun point => ⟨call, len, point⟩) ?_ ?_ ?_ ?_ ?_ ?_
      ⟨[.returned s.curr.pid call (s.buffers tty).numBytesWritten,
        .received tty s.curr.pid bytes], ?_, ?_⟩ ?_ other
    · rfl
    · rfl
    · rfl
    · rfl
    · simp [finish, Kernel.sysReturn, Kernel.withScheduler, Kernel.setBuffer]
    · exact fun _ differs => Function.update_of_ne differs _ _
    · rfl
    · simpa using ⟨quiet _ _, fun _ => rfl⟩
    · exact if_pos rfl

/-- A line makes its terminal ready and wakes the first reader, and an EOF clears the terminal. -/
theorem writeBuffer_ttyStep {line : Option (List Byte)} (user : s.cpu = .user)
    (silent : ∀ other, i.written other s.toScheduler = none)
    (done : writeBuffer tty line s = .ok t) (other : Fin numTerminals) : TtyStep other i s t := by
  have point : s.pos s.currPCB = .user := s.pos_curr.trans user
  unfold writeBuffer at done
  cases line with
  | none =>
      have eq := Except.ok.inj done
      subst eq
      refine .read tty false silent (.inl user) ?_ ?_ ?_ ?_ ?_ ?_ ⟨[], ?_, by simp⟩ ?_ other
      · rfl
      · rfl
      · rfl
      · rfl
      · simp [Kernel.setBuffer]
      · exact fun _ differs => Function.update_of_ne differs _ _
      · rfl
      · exact point
  | some bytes =>
      obtain ⟨base, _, done⟩ := Outcome.bind_eq_ok.mp done
      have eq := Except.ok.inj done
      subst eq
      obtain ⟨readingQs, currTransmitters, transmittingQs, transmitting, log, curr, cpu⟩ :=
        unblockReader_reads tty s.toScheduler
      refine .read tty true silent (.inl user) currTransmitters
        transmittingQs readingQs transmitting (by simp [Kernel.withScheduler, Kernel.setBuffer])
        (fun _ differs => Function.update_of_ne differs _ _) ⟨[], log, by simp⟩ ?_ other
      exact (if_pos curr.symm).trans (cpu.trans user)

/-- The interrupt switches to the transmitter of its terminal. -/
theorem handleTtyTransmit_eq {s u : Scheduler} {a : Addr} (slot : s.currTransmitters tty = some a)
    (done : handleTtyTransmit tty s = .ok u) :
    u = switchBetween .trapReturn (some s.currPCB) a { s with
      transmitting := Function.update s.transmitting tty false
      readyQ := enqQ s.readyQ s.currPCB } := by
  simp only [handleTtyTransmit, signalTransmitter, slot] at done
  exact (Except.ok.inj done).symm

theorem handleTtyTransmit_pos {s u : Scheduler} {a : Addr} (slot : s.currTransmitters tty = some a)
    (done : handleTtyTransmit tty s = .ok u) : u.pos s.currPCB = .trapReturn := by
  rw [handleTtyTransmit_eq slot done]
  have pos := switchBetween_pos .trapReturn a s.currPCB { s with
    transmitting := Function.update s.transmitting tty false
    readyQ := enqQ s.readyQ s.currPCB }
  rwa [if_pos rfl] at pos

/-- The interrupt ends the transmission of its terminal and leaves the slot set. -/
theorem handleTtyTransmit_ttyStep (placed : Placed s.toScheduler) (user : s.cpu = .user)
    (busy : s.transmitting tty = true) {u : Scheduler}
    (done : handleTtyTransmit tty s.toScheduler = .ok u) (other : Fin numTerminals) :
    TtyStep other (.ttyTransmit tty) s (s.withScheduler u) := by
  obtain ⟨a, slot, _⟩ := placed.transmission tty busy
  have point := handleTtyTransmit_pos slot done
  obtain rfl := handleTtyTransmit_eq slot done
  by_cases same : tty = other
  · subst same
    refine .interrupt rfl user busy ?_ rfl point
    simp [Kernel.terminal, Kernel.withScheduler, switchBetween, Scheduler.updatePcb]
  · refine .passes (by rw [user]; rfl) rfl ?_ ⟨[], rfl, by simp⟩ fun _ => ?_
    · simp [Kernel.terminal, Kernel.withScheduler, switchBetween, Scheduler.updatePcb,
        Ne.symm same]
    · exact congrArg (Pos.usesTty other) point

theorem ttyIndex_eq_ok {ttyId : Int} (found : ttyIndex ttyId = .ok tty) : ttyId = tty.val := by
  unfold ttyIndex at found
  split at found
  · rename_i inside
    obtain rfl := Except.ok.inj found
    exact (Int.toNat_of_nonneg inside.1).symm
  · cases found

/-- A write call either returns without a batch or enters the loops of its terminal. -/
theorem kernelTtyWrite_cases {oracle : Oracle} {ttyId : Int} {buf : Nat} {len : Int}
    {bytes : List Byte} {s : Scheduler} {flow : Flow Scheduler}
    (done : kernelTtyWrite oracle ttyId buf len bytes s = .ok flow) :
    (acceptsWrite oracle buf len s = false ∧ ∃ code, flow = .ret s code ∧ ¬ (0 < len ∧ code = len)) ∨
      acceptsWrite oracle buf len s = true ∧ 0 < len ∧ ∃ tty : Fin numTerminals, ttyId = tty.val ∧
        flow = ttyWriteLoop tty (.ttyWrite ttyId buf len bytes) bytes s := by
  unfold kernelTtyWrite at done
  split at done
  · rename_i low
    refine .inl ⟨?_, errorCode, (Except.ok.inj done).symm, ?_⟩
    · simp [acceptsWrite, Nat.not_le.mpr low]
    · rw [errorCode]
      omega
  split at done
  · refine .inl ⟨?_, errorCode, (Except.ok.inj done).symm, ?_⟩
    · simp only [acceptsWrite, Bool.and_eq_false_iff, decide_eq_false_iff_not]
      exact .inl (.inr (by omega))
    · rw [errorCode]
      omega
  split at done
  · refine .inl ⟨?_, successCode, (Except.ok.inj done).symm, ?_⟩
    · simp only [acceptsWrite, Bool.and_eq_false_iff, decide_eq_false_iff_not]
      exact .inl (.inr (by omega))
    · rw [successCode]
      omega
  split at done
  · rename_i invalid
    refine .inl ⟨?_, errorCode, (Except.ok.inj done).symm, ?_⟩
    · rw [acceptsWrite, Bool.and_eq_false_iff]
      exact .inr (by simpa using invalid)
    · rw [errorCode]
      omega
  · rename_i high notNegative positive valid
    obtain ⟨tty, found, done⟩ := Outcome.bind_eq_ok.mp done
    have lenPositive : 0 < len := by omega
    refine .inr ⟨?_, lenPositive, tty, ?_, (Except.ok.inj done).symm⟩
    · simp only [acceptsWrite, Bool.and_eq_true, decide_eq_true_eq]
      exact ⟨⟨Nat.le_of_not_lt high, lenPositive⟩, by simpa using valid⟩
    · exact ttyIndex_eq_ok found

/-- A write call enters the loops of its terminal or returns without a batch. -/
theorem kernelTtyWrite_ttyStep {oracle : Oracle} {ttyId : Int} {buf : Nat} {len : Int}
    {bytes : List Byte} {flow : Flow Scheduler} (user : s.cpu = .user)
    (formed : bytes.length = len.toNat)
    (done : kernelTtyWrite oracle ttyId buf len bytes s.toScheduler = .ok flow)
    (other : Fin numTerminals) :
    TtyStep other (.kernelCall (.ttyWrite ttyId buf len bytes) oracle) s
      (s.withScheduler (flow.finish (.ttyWrite ttyId buf len bytes))) := by
  rcases kernelTtyWrite_cases done with
    ⟨rejected, code, rfl, fails⟩ | ⟨accepted, positive, tty, rfl, rfl⟩
  · refine Away.passes ⟨.sysReturn s.toScheduler (decide_eq_false fails), rfl⟩ (by rw [user]; rfl) ?_
    refine if_neg fun both => ?_
    rw [rejected] at both
    exact Bool.noConfusion both.2
  · have carries : Call.Writes tty bytes (.ttyWrite tty.val buf len bytes) :=
      ⟨rfl, positive, rfl, formed⟩
    have written : Input.written tty s.toScheduler
        (.kernelCall (.ttyWrite tty.val buf len bytes) oracle) = some bytes :=
      if_pos ⟨rfl, accepted⟩
    exact ttyWriteLoop_ttyStep (.enters user written carries) carries other

/-- The checks of `KernelTtyRead` reject a call, or the call enters `readBuffer`. -/
theorem kernelTtyRead_cases {oracle : Oracle} {ttyId : Int} {buf : Nat} {len : Int}
    {flow : Flow Kernel} (done : kernelTtyRead oracle ttyId buf len s = .ok flow) :
    (acceptsRead oracle buf len s.toScheduler = false ∧ ∃ code, flow = .ret s code) ∨
      acceptsRead oracle buf len s.toScheduler = true ∧ 0 < len ∧
        ∃ tty : Fin numTerminals, ttyId = tty.val ∧
          readBufferLoop tty (.ttyRead ttyId buf len) len s = .ok flow := by
  unfold kernelTtyRead at done
  split at done
  · rename_i low
    refine .inl ⟨?_, errorCode, (Except.ok.inj done).symm⟩
    simp [acceptsRead, Nat.not_le.mpr low]
  split at done
  · refine .inl ⟨?_, errorCode, (Except.ok.inj done).symm⟩
    simp only [acceptsRead, Bool.and_eq_false_iff, decide_eq_false_iff_not]
    exact .inl (.inr (by omega))
  split at done
  · refine .inl ⟨?_, successCode, (Except.ok.inj done).symm⟩
    simp only [acceptsRead, Bool.and_eq_false_iff, decide_eq_false_iff_not]
    exact .inl (.inr (by omega))
  split at done
  · rename_i invalid
    refine .inl ⟨?_, errorCode, (Except.ok.inj done).symm⟩
    rw [acceptsRead, Bool.and_eq_false_iff]
    exact .inr (by simpa using invalid)
  · rename_i high notNegative positive valid
    obtain ⟨tty, found, done⟩ := Outcome.bind_eq_ok.mp done
    have lenPositive : 0 < len := by omega
    refine .inr ⟨?_, lenPositive, tty, ttyIndex_eq_ok found, ?_⟩
    · simp only [acceptsRead, Bool.and_eq_true, decide_eq_true_eq]
      exact ⟨⟨Nat.le_of_not_lt high, lenPositive⟩, by simpa using valid⟩
    · exact done

theorem kernelTtyRead_ttyStep {oracle : Oracle} {ttyId : Int} {buf : Nat} {len : Int}
    {flow : Flow Kernel} (user : s.cpu = .user) (ready : s.readyQ ≠ [])
    (done : kernelTtyRead oracle ttyId buf len s = .ok flow) (other : Fin numTerminals) :
    TtyStep other (.kernelCall (.ttyRead ttyId buf len) oracle) s
      (finish (.ttyRead ttyId buf len) flow) := by
  rcases kernelTtyRead_cases done with ⟨-, code, rfl⟩ | ⟨-, -, tty, rfl, read⟩
  · exact Away.passes (.sysReturn fun _ _ => rfl) (by rw [user]; rfl) rfl
  · exact readBufferLoop_ttyStep ready (fun _ => rfl) (.inl user) ⟨buf, rfl⟩ read other

/-- The idle process is ready while another process runs. -/
theorem Placed.others_ready {s : Scheduler} (placed : Placed s) (notIdle : s.currPCB ≠ s.idlePCB) :
    s.readyQ ≠ [] := by
  refine List.ne_nil_of_mem (Settled.idle_ready placed ?_)
  rw [Finset.mem_singleton]
  exact Ne.symm notIdle

/-- These kernel calls use a terminal. -/
def Call.isTty : Call → Bool
  | .ttyRead .. | .ttyWrite .. => true
  | _ => false

/-- The step of this input is about a terminal. -/
def Input.usesTerminal (s : Scheduler) : Input → Bool
  | .kernelCall call _ => call.isTty
  | .resume _ => s.cpu.isTty
  | .ttyReceive .. | .ttyTransmit .. => true
  | _ => false

theorem finishScheduler_away {flow : Flow Scheduler} (offline : flow.Offline s.toScheduler)
    (silent : ∀ pid code, (Event.returned pid call code).isTty = false) :
    Away s (finishScheduler call s flow) := by
  rw [finishScheduler_eq]
  exact .withScheduler (offline.finish silent)

/-- Other kernel calls leave the terminals as they are. -/
theorem handleTrapKernel_away {oracle : Oracle} (sound : Sound s) (outside : call.isTty = false)
    (ready : enabled s (.kernelCall call oracle) = true)
    (done : handleTrapKernel oracle call s = .ok t) : Away s t := by
  simp only [enabled, Bool.and_eq_true, decide_eq_true_eq, isUser_iff] at ready
  obtain ⟨⟨-, fresh⟩, -⟩ := ready
  cases call with
  | fork =>
      obtain ⟨flow, forked, done⟩ := Outcome.bind_eq_ok.mp done
      exact Except.ok.inj done ▸ finishScheduler_away
        (kernelFork_offline sound.placed sound.family fresh forked) fun _ _ => rfl
  | exec request =>
      obtain ⟨flow, executed, done⟩ := Outcome.bind_eq_ok.mp done
      exact Except.ok.inj done ▸ finishScheduler_away
        (kernelExec_offline executed) fun _ _ => rfl
  | exit status =>
      exact Except.ok.inj done ▸ .withScheduler (.setCpu s.toScheduler rfl)
  | wait statusPtr =>
      obtain ⟨flow, waited, done⟩ := Outcome.bind_eq_ok.mp done
      exact Except.ok.inj done ▸ finishScheduler_away
        (kernelWait_offline waited) fun _ _ => rfl
  | getPid => exact Except.ok.inj done ▸ .sysReturn fun _ _ => rfl
  | brk addr =>
      obtain ⟨⟨code, u⟩, changed, done⟩ := Outcome.bind_eq_ok.mp done
      exact Except.ok.inj done ▸ (Away.withScheduler
        (.same (kernelBrk_same changed))).trans (.sysReturn fun _ _ => rfl)
  | delay clockTicks =>
      obtain ⟨flow, delayed, done⟩ := Outcome.bind_eq_ok.mp done
      exact Except.ok.inj done ▸ finishScheduler_away
        (kernelDelay_offline delayed) fun _ _ => rfl
  | reclaim id =>
      obtain ⟨⟨code, u⟩, changed, done⟩ := Outcome.bind_eq_ok.mp done
      exact Except.ok.inj done ▸
        (kernelReclaim_away changed).trans (.sysReturn fun _ _ => rfl)
  | ttyRead ttyId buf len => cases outside
  | ttyWrite ttyId buf len bytes => cases outside
  | lockInit =>
      obtain ⟨⟨code, u⟩, changed, done⟩ := Outcome.bind_eq_ok.mp done
      exact Except.ok.inj done ▸
        (kernelLockInit_away changed).trans (.sysReturn fun _ _ => rfl)
  | acquire lockId =>
      obtain ⟨flow, acquired, done⟩ := Outcome.bind_eq_ok.mp done
      exact Except.ok.inj done ▸
        (kernelAcquire_away acquired).finish fun _ _ => rfl
  | release lockId =>
      obtain ⟨⟨code, u⟩, changed, done⟩ := Outcome.bind_eq_ok.mp done
      exact Except.ok.inj done ▸
        (kernelRelease_away changed).trans (.sysReturn fun _ _ => rfl)
  | cvarInit =>
      obtain ⟨⟨code, u⟩, changed, done⟩ := Outcome.bind_eq_ok.mp done
      exact Except.ok.inj done ▸
        (kernelCvarInit_away changed).trans (.sysReturn fun _ _ => rfl)
  | cvarSignal cvarId =>
      obtain ⟨⟨code, u⟩, changed, done⟩ := Outcome.bind_eq_ok.mp done
      exact Except.ok.inj done ▸
        (kernelCvarSignal_away changed).trans (.sysReturn fun _ _ => rfl)
  | cvarBroadcast cvarId =>
      obtain ⟨⟨code, u⟩, changed, done⟩ := Outcome.bind_eq_ok.mp done
      exact Except.ok.inj done ▸
        (kernelCvarBroadcast_away changed).trans (.sysReturn fun _ _ => rfl)
  | cvarWait cvarId lockId =>
      obtain ⟨flow, waited, done⟩ := Outcome.bind_eq_ok.mp done
      exact Except.ok.inj done ▸
        (kernelCvarWait_away waited).finish fun _ _ => rfl
  | pipeInit =>
      obtain ⟨⟨code, u⟩, changed, done⟩ := Outcome.bind_eq_ok.mp done
      exact Except.ok.inj done ▸
        (kernelPipeInit_away changed).trans (.sysReturn fun _ _ => rfl)
  | pipeRead pipeId len =>
      obtain ⟨flow, read, done⟩ := Outcome.bind_eq_ok.mp done
      exact Except.ok.inj done ▸
        (kernelPipeRead_away read).finish fun _ _ => rfl
  | pipeWrite pipeId len bytes =>
      obtain ⟨⟨code, u⟩, changed, done⟩ := Outcome.bind_eq_ok.mp done
      exact Except.ok.inj done ▸
        (kernelPipeWrite_away changed).trans (.sysReturn fun _ _ => rfl)
  | unknown => cases done

/-- Resumed code outside of the terminal calls leaves the terminals as they are. -/
theorem resumeKernel_away {junk : PCB} (sound : Sound s) (outside : s.cpu.isTty = false)
    (done : resumeKernel junk s = .ok t) : Away s t := by
  have carriesCall : s.cpu.carriesCall = true := by
    rw [← s.pos_curr]
    exact sound.carries s.currPCB sound.placed.live
  unfold resumeKernel at done
  cases point : s.cpu with
  | user =>
      rw [point] at done
      cases done
  | starter =>
      rw [point] at done
      exact Except.ok.inj done ▸ .withScheduler (.setCpu s.toScheduler rfl)
  | trapReturn =>
      rw [point] at done
      exact Except.ok.inj done ▸ .withScheduler (.setCpu s.toScheduler rfl)
  | exit status =>
      rw [point] at done
      obtain ⟨u, exited, done⟩ := Outcome.bind_eq_ok.mp done
      exact Except.ok.inj done ▸ .withScheduler (kernelExit_offline exited)
  | delay clockTicks =>
      rw [point] at done
      exact Except.ok.inj done ▸ .sysReturn fun _ _ => rfl
  | fork parentPCB childPCB =>
      rw [point] at done
      exact Except.ok.inj done ▸ .sysReturn fun _ _ => rfl
  | waitWoken statusPtr =>
      rw [point] at done
      have collected := kernelWaitCollect_offline (s := s.toScheduler) rfl
      exact Except.ok.inj done ▸
        (Away.withScheduler collected).trans (.sysReturn fun _ _ => rfl)
  | acquire lockp call =>
      rw [point] at done carriesCall
      obtain ⟨flow, acquired, done⟩ := Outcome.bind_eq_ok.mp done
      refine Except.ok.inj done ▸ (acquireLoop_away acquired).finish ?_
      cases call <;> first | exact fun _ _ => rfl | cases carriesCall
  | cvarWoken cvarId lockId =>
      rw [point] at done
      obtain ⟨flow, acquired, done⟩ := Outcome.bind_eq_ok.mp done
      exact Except.ok.inj done ▸ (kernelAcquire_away acquired).finish fun _ _ => rfl
  | pipeRead pipep pipeId len =>
      rw [point] at done
      obtain ⟨flow, read, done⟩ := Outcome.bind_eq_ok.mp done
      exact Except.ok.inj done ▸ (pipeReadLoop_away read).finish fun _ _ => rfl
  | ttyWrite tty call r0Buf =>
      rw [point] at outside
      cases outside
  | ttyBatch tty call r0Buf bytesTransmitted =>
      rw [point] at outside
      cases outside
  | ttyRead tty call len =>
      rw [point] at outside
      cases outside

/-- An input that is not about a terminal leaves the terminals as they are. -/
theorem Sound.away {i : Input} (sound : Sound s) (outside : i.usesTerminal s.toScheduler = false)
    (next : yallnix.step s i t) : Away s t := by
  obtain ⟨ready, done⟩ := next
  cases i with
  | kernelCall call oracle => exact handleTrapKernel_away sound outside ready done
  | resume junk => exact resumeKernel_away sound outside done
  | clock =>
      obtain ⟨u, ticked, done⟩ := Outcome.bind_eq_ok.mp done
      exact Except.ok.inj done ▸ .withScheduler (handleTrapClock_offline ticked)
  | illegal => exact Except.ok.inj done ▸ .withScheduler (.setCpu s.toScheduler rfl)
  | math => exact Except.ok.inj done ▸ .withScheduler (.setCpu s.toScheduler rfl)
  | memory addr =>
      obtain ⟨u, grown, done⟩ := Outcome.bind_eq_ok.mp done
      exact Except.ok.inj done ▸ .withScheduler (handleTrapMemory_offline grown)
  | ttyReceive tty line => cases outside
  | ttyTransmit tty => cases outside
  | disk => cases done

/-- Traps and interrupts come in user mode. -/
theorem enabled_user {i : Input} (ready : enabled s i = true) (trap : ∀ junk, i ≠ .resume junk) :
    s.cpu = .user := by
  cases i with
  | resume junk => exact absurd rfl (trap junk)
  | _ =>
      simp only [enabled, Bool.and_eq_true] at ready
      simp only [isUser_iff] at ready
      simp only [ready]

/-- Every step of the kernel is a step of every terminal. -/
theorem Sound.ttyStep {i : Input} (sound : Sound s) (carries : s.cpu.CarriesTerminal)
    (next : yallnix.step s i t) (other : Fin numTerminals) : TtyStep other i s t := by
  by_cases terminal : i.usesTerminal s.toScheduler = true
  · obtain ⟨ready, done⟩ := next
    cases i with
    | kernelCall call oracle =>
        have user := enabled_user ready fun _ same => by cases same
        simp only [enabled, Bool.and_eq_true, decide_eq_true_eq] at ready
        obtain ⟨⟨⟨-, notIdle⟩, -⟩, formed⟩ := ready
        cases call with
        | ttyRead ttyId buf len =>
            obtain ⟨flow, read, done⟩ := Outcome.bind_eq_ok.mp done
            exact Except.ok.inj done ▸
              kernelTtyRead_ttyStep user (sound.placed.others_ready notIdle) read other
        | ttyWrite ttyId buf len bytes =>
            obtain ⟨flow, written, done⟩ := Outcome.bind_eq_ok.mp done
            rw [finishScheduler_eq] at done
            exact Except.ok.inj done ▸
              kernelTtyWrite_ttyStep user (decide_eq_true_iff.mp formed) written other
        | _ => cases terminal
    | resume junk =>
        unfold handle resumeKernel at done
        change s.cpu.isTty = true at terminal
        cases point : s.cpu with
        | ttyWrite tty call r0Buf =>
            rw [point] at done carries
            dsimp only at done
            rw [finishScheduler_eq] at done
            exact Except.ok.inj done ▸
              ttyWriteLoop_ttyStep (.again (fun _ => rfl) point) carries other
        | ttyBatch tty call r0Buf bytesTransmitted =>
            rw [point] at done carries
            dsimp only at done
            rw [finishScheduler_eq] at done
            exact Except.ok.inj done ▸
              transmitLoop_ttyStep (.inr ⟨fun _ => rfl, point⟩) carries.1 other
        | ttyRead tty call len =>
            rw [point] at done carries
            obtain ⟨flow, read, done⟩ := Outcome.bind_eq_ok.mp done
            have others := sound.placed.others_ready
              (sound.placed.not_idle (by rw [point]; rfl))
            exact Except.ok.inj done ▸
              readBufferLoop_ttyStep others (fun _ => rfl) (.inr point) carries read other
        | _ =>
            rw [point] at terminal
            cases terminal
    | ttyReceive tty line =>
        exact writeBuffer_ttyStep (enabled_user ready fun _ same => by cases same) (fun _ => rfl)
          done other
    | ttyTransmit tty =>
        obtain ⟨u, interrupted, done⟩ := Outcome.bind_eq_ok.mp done
        exact Except.ok.inj done ▸ handleTtyTransmit_ttyStep sound.placed
          (enabled_user ready fun _ same => by cases same) (Bool.and_eq_true_iff.mp ready).2
          interrupted other
    | _ => cases terminal
  · have outside : i.usesTerminal s.toScheduler = false := (Bool.not_eq_true _).mp terminal
    refine (sound.away outside next).passes ?_ ?_
    · cases i with
      | resume junk => exact outside
      | _ =>
          rw [enabled_user next.1 fun _ same => by cases same]
          rfl
    · cases i with
      | kernelCall call oracle => cases call <;> first | rfl | cases outside
      | _ => rfl

end

end

end Yallnix

import Yallnix.ToMathlib.LineDelivery
import Yallnix.Proof.TerminalWakeup

namespace Yallnix

/-- The line that waits in a buffer. -/
def TtyBuf.pending (buf : TtyBuf) : Option (List Byte) :=
  if buf.isLineReady then some (buf.base.take buf.numBytesWritten.toNat) else none

/-- The count stays inside the buffer and is zero while no line is ready. -/
structure TtyBuf.Counts (buf : TtyBuf) : Prop where
  positive : 0 ≤ buf.numBytesWritten
  inside : buf.numBytesWritten ≤ buf.base.length
  empty : buf.isLineReady = false → buf.numBytesWritten = 0

/-- The counted bytes of a buffer are its pending line. -/
theorem TtyBuf.Counts.bytes {buf : TtyBuf} (counts : buf.Counts) :
    buf.base.take buf.numBytesWritten.toNat = buf.pending.getD [] := by
  unfold TtyBuf.pending
  cases ready : buf.isLineReady with
  | true => rfl
  | false =>
      rw [counts.empty ready]
      rfl

/-- A read takes the front of the pending line, and the rest of the line stays. -/
inductive TtyBuf.Reads (buf after : TtyBuf) (len : Nat) : List Byte → Prop where
  | part {line : List Byte} (pending : buf.pending = some line) (more : len < line.length)
      (left : after.pending = some (line.drop len)) : Reads buf after len (line.take len)
  | rest {line : List Byte} (pending : buf.pending = some line) (fits : line.length ≤ len)
      (left : after.pending = none) : Reads buf after len line

/-- The first bytes leave the buffer, and the others move to its base. -/
theorem TtyBuf.Counts.part {buf : TtyBuf} {len : Int} (counts : buf.Counts) (ready : buf.isLineReady = true)
    (positive : 0 < len) (more : len < buf.numBytesWritten) {base rest : List Byte}
    (kept : rest = (buf.base.drop len.toNat).take (buf.numBytesWritten - len).toNat)
    (moved : base = rest ++ buf.base.drop rest.length) :
    ({ buf with base := base, numBytesWritten := buf.numBytesWritten - len } : TtyBuf).Counts ∧
      buf.Reads { buf with base := base, numBytesWritten := buf.numBytesWritten - len } len.toNat
        (buf.base.take len.toNat) := by
  have inside := counts.inside
  have size : rest.length = (buf.numBytesWritten - len).toNat := by
    rw [kept, List.length_take, List.length_drop]
    omega
  have front : buf.base.take len.toNat =
      (buf.base.take buf.numBytesWritten.toNat).take len.toNat := by
    rw [List.take_take]
    congr 1
    omega
  constructor
  · refine ⟨by dsimp only; omega, ?_, fun unready => ?_⟩
    · rw [moved, List.length_append]
      dsimp only
      omega
    · rw [ready] at unready
      cases unready
  · rw [front]
    refine .part (if_pos ready) ?_ ?_
    · rw [List.length_take]
      omega
    · have left : base.take (buf.numBytesWritten - len).toNat = rest := by
        rw [moved, ← size, List.take_left]
      rw [TtyBuf.pending, if_pos ready]
      dsimp only
      rw [left, kept, List.drop_take]
      congr 2
      omega

section
variable [Hardware]

/-- The length of a saved `readBuffer` of this terminal. -/
def Pos.reading (tty : Fin numTerminals) : Pos → Option Nat
  | .ttyRead other _ len => if other = tty then some len.toNat else none
  | _ => none

/-- The running process is in `readBuffer` of this terminal with this length. -/
def Input.reading (tty : Fin numTerminals) (s : Scheduler) : Input → Option Nat
  | .kernelCall (.ttyRead ttyId buf len) oracle =>
      if ttyId = tty.val ∧ acceptsRead oracle buf len s = true then some len.toNat else none
  | .resume _ => s.cpu.reading tty
  | _ => none

/-- A line or an EOF arrives at this terminal. -/
def Input.arrival (tty : Fin numTerminals) : Input → Option (Option (List Byte))
  | .ttyReceive other line => if other = tty then some line else none
  | _ => none

def Event.isReturn : Event → Bool
  | .returned .. => true
  | _ => false

/-- The bytes that a reader got from this terminal. -/
def Event.receivedBytes (tty : Fin numTerminals) : Event → List Byte
  | .received other _ bytes => if other = tty then bytes else []
  | _ => []

/-- A step notes an arrival, and it notes a `readBuffer` when the call returns. -/
def lineNotes (tty : Fin numTerminals) (s : Kernel) (i : Input) (t : Kernel) :
    List (LineNote Byte) :=
  let events := t.log.take (t.log.length - s.log.length)
  let read := if events.any Event.isReturn then i.reading tty s.toScheduler else none
  (i.arrival tty).toList.map .arrived ++
    read.toList.map fun len => .read len (events.flatMap (Event.receivedBytes tty))

/-- A saved `readBuffer` asks for a positive length. -/
def Pos.AsksBytes : Pos → Prop
  | .ttyRead _ _ len => 0 < len
  | _ => True

/-- The step of the running process as the buffer of one terminal sees it. -/
inductive LineStep (tty : Fin numTerminals) (i : Input) (s t : Kernel) : Prop where
  | passes (silent : i.reading tty s.toScheduler = none) (noLine : i.arrival tty = none)
      (same : t.buffers tty = s.buffers tty)
  | arrives {line : Option (List Byte)} (silent : i.reading tty s.toScheduler = none)
      (arrival : i.arrival tty = some line) (counts : (t.buffers tty).Counts)
      (after : (t.buffers tty).pending = line)
  | waits {len : Nat} (reads : i.reading tty s.toScheduler = some len) (positive : 0 < len)
      (noLine : i.arrival tty = none) (same : t.buffers tty = s.buffers tty)
      (log : t.log = s.log) (asleep : t.pos s.currPCB ≠ .user)
  | takes {len : Nat} {bytes : List Byte} {call : Call}
      (reads : i.reading tty s.toScheduler = some len) (positive : 0 < len)
      (noLine : i.arrival tty = none) (counts : (t.buffers tty).Counts)
      (after : (s.buffers tty).Reads (t.buffers tty) len bytes)
      (log : t.log = .returned s.curr.pid call bytes.length ::
        .received tty s.curr.pid bytes :: s.log)

section
variable {s t : Kernel} {i : Input} {tty : Fin numTerminals} {call : Call} {len : Int}

theorem unblockReader_pcbs (tty : Fin numTerminals) (s : Scheduler) :
    (unblockReader tty s).pcbs = s.pcbs := by
  unfold unblockReader
  split <;> rfl

/-- A ready buffer serves a read. -/
theorem readBufferLoop_serves {flow : Flow Kernel} (counts : (s.buffers tty).Counts)
    (positive : 0 < len) (ready : (s.buffers tty).isLineReady = true)
    (done : readBufferLoop tty call len s = .ok flow) :
    ∃ (after : TtyBuf) (bytes : List Byte) (u : Scheduler),
      flow = .ret ((s.setBuffer tty after).withScheduler u) bytes.length ∧ after.Counts ∧
      (s.buffers tty).Reads after len.toNat bytes ∧ u.currPCB = s.currPCB ∧ u.pcbs = s.pcbs ∧
      u.log = .received tty s.curr.pid bytes :: s.log := by
  have count := counts.positive
  have inside := counts.inside
  unfold readBufferLoop at done
  dsimp only at done
  rw [if_neg (by simp [ready])] at done
  split at done
  · rename_i more
    obtain ⟨bytes, read, done⟩ := Outcome.bind_eq_ok.mp done
    obtain ⟨rest, kept, done⟩ := Outcome.bind_eq_ok.mp done
    obtain ⟨base, moved, done⟩ := Outcome.bind_eq_ok.mp done
    obtain ⟨rfl, -, -⟩ := readBytes_base read
    have size : (((s.buffers tty).base.take len.toNat).length : Int) = len := by
      rw [List.length_take]
      omega
    obtain ⟨valid, reads⟩ := counts.part ready positive more (readBytes_eq_ok kept).1
      (memmove_base moved)
    obtain ⟨-, -, -, -, log, curr, -⟩ := unblockReader_reads tty
      (s.record (.received tty s.curr.pid ((s.buffers tty).base.take len.toNat)))
    refine ⟨_, _, unblockReader tty (s.record (.received tty s.curr.pid
      ((s.buffers tty).base.take len.toNat))), ?_, valid, reads, curr, ?_, log⟩
    · rw [size]
      exact (Except.ok.inj done).symm
    · exact unblockReader_pcbs tty _
  · rename_i fits
    obtain ⟨bytes, read, done⟩ := Outcome.bind_eq_ok.mp done
    obtain ⟨rfl, -, -⟩ := readBytes_base read
    have size : (((s.buffers tty).base.take (s.buffers tty).numBytesWritten.toNat).length : Int) =
        (s.buffers tty).numBytesWritten := by
      rw [List.length_take]
      omega
    refine ⟨{ s.buffers tty with numBytesWritten := 0, isLineReady := false }, _,
      s.record (.received tty s.curr.pid
        ((s.buffers tty).base.take (s.buffers tty).numBytesWritten.toNat)),
      ?_, ?_, ?_, rfl, rfl, rfl⟩
    · rw [size]
      exact (Except.ok.inj done).symm
    · exact ⟨le_refl _, Int.natCast_nonneg _, fun _ => rfl⟩
    · refine .rest (if_pos ready) ?_ rfl
      rw [List.length_take]
      omega

/-- A buffer without a line blocks its reader. -/
theorem readBufferLoop_blocks {flow : Flow Kernel} (others : s.readyQ ≠ [])
    (unready : (s.buffers tty).isLineReady = false)
    (done : readBufferLoop tty call len s = .ok flow) :
    ∃ u : Scheduler, flow = .go (s.withScheduler u) ∧ u.log = s.log ∧
      u.pos s.currPCB = .ttyRead tty call len := by
  unfold readBufferLoop at done
  dsimp only at done
  rw [if_pos (by simp [unready])] at done
  obtain ⟨next, rest, queue⟩ := List.exists_cons_of_ne_nil others
  have parks := parks_switch (.ttyRead tty call len) { s.toScheduler with
    readingQs := Function.update s.readingQs tty (enqQ (s.readingQs tty) s.currPCB) } next rest
  refine ⟨_, ?_, parks.log, parks.point⟩
  have eq := Except.ok.inj done
  simp only [blockReader, runReady, queue, deqQ_cons] at eq
  exact eq.symm

/-- A write leaves the running process outside of `readBuffer`. -/
theorem transmitLoop_asks {s : Scheduler} (r0Buf : List Byte) (bytesTransmitted : Nat) :
    (((transmitLoop tty call r0Buf bytesTransmitted s).finish call).pos s.currPCB).AsksBytes := by
  by_cases more : bytesTransmitted < r0Buf.length
  · obtain ⟨u, sent, parks⟩ := transmitLoop_more s tty call more
    rw [sent]
    change (u.pos s.currPCB).AsksBytes
    have point : u.pos s.currPCB = .ttyBatch tty call r0Buf
        (bytesTransmitted + min terminalMaxLine (r0Buf.length - bytesTransmitted)) := parks.point
    rw [point]
    trivial
  · obtain ⟨u, freed, -, -, -, -, -, curr, -⟩ :=
      transmitLoop_last s tty call (Nat.le_of_not_lt more)
    rw [freed]
    have point : (u.sysReturn call r0Buf.length).pos s.currPCB = .user := if_pos curr.symm
    change ((u.sysReturn call r0Buf.length).pos s.currPCB).AsksBytes
    rw [point]
    trivial

theorem ttyWriteLoop_asks {s : Scheduler} (r0Buf : List Byte) :
    (((ttyWriteLoop tty call r0Buf s).finish call).pos s.currPCB).AsksBytes := by
  by_cases free : s.currTransmitters tty = none
  · have starts : ttyWriteLoop tty call r0Buf s = transmitLoop tty call r0Buf 0 s :=
      if_pos (Option.isNone_iff_eq_none.mpr free)
    rw [starts]
    exact transmitLoop_asks r0Buf 0
  · obtain ⟨u, queued, parks⟩ := ttyWriteLoop_busy (s := s) call r0Buf free
    rw [queued]
    have point : u.pos s.currPCB = .ttyWrite tty call r0Buf := parks.point
    change (u.pos s.currPCB).AsksBytes
    rw [point]
    trivial

/-- The buffers count their bytes, and every saved `readBuffer` asks for bytes. -/
structure Kernel.LinesCount (s : Kernel) : Prop where
  buffers : ∀ tty, (s.buffers tty).Counts
  asks : ∀ a ∈ s.live, (s.pos a).AsksBytes

/-- A `readBuffer` is a step of every buffer. -/
theorem readBufferLoop_lineStep {flow : Flow Kernel} (lines : s.LinesCount)
    (others : s.readyQ ≠ []) (positive : 0 < len)
    (reads : ∀ other, i.reading other s.toScheduler = if tty = other then some len.toNat else none)
    (noLine : ∀ other, i.arrival other = none)
    (done : readBufferLoop tty call len s = .ok flow) (other : Fin numTerminals) :
    LineStep other i s (finish call flow) ∧
      ((finish call flow).pos s.currPCB).AsksBytes := by
  have asks : 0 < len.toNat := by omega
  cases ready : (s.buffers tty).isLineReady with
  | false =>
      obtain ⟨u, rfl, log, point⟩ := readBufferLoop_blocks others ready done
      refine ⟨?_, ?_⟩
      · by_cases same : tty = other
        · subst same
          refine .waits ((reads tty).trans (if_pos rfl)) asks (noLine tty) rfl log ?_
          change u.pos s.currPCB ≠ .user
          rw [point]
          intro user
          cases user
        · exact .passes ((reads other).trans (if_neg same)) (noLine other) rfl
      · change (u.pos s.currPCB).AsksBytes
        rw [point]
        exact positive
  | true =>
      obtain ⟨after, bytes, u, rfl, counts, takes, curr, pcbs, log⟩ :=
        readBufferLoop_serves (lines.buffers tty) positive ready done
      have point : (u.sysReturn call bytes.length).pos s.currPCB = .user := if_pos curr.symm
      have event : (u.sysReturn call bytes.length).log = .returned s.curr.pid call bytes.length ::
          .received tty s.curr.pid bytes :: s.log := by
        simp only [Scheduler.sysReturn, Scheduler.record, Scheduler.curr, log, curr, pcbs]
      have there : (s.setBuffer tty after).buffers tty = after := Function.update_self ..
      refine ⟨?_, ?_⟩
      · by_cases same : tty = other
        · subst same
          refine .takes ((reads tty).trans (if_pos rfl)) asks (noLine tty) ?_ ?_ event
          · change ((s.setBuffer tty after).buffers tty).Counts
            rw [there]
            exact counts
          · change (s.buffers tty).Reads ((s.setBuffer tty after).buffers tty) len.toNat bytes
            rw [there]
            exact takes
        · refine .passes ((reads other).trans (if_neg same)) (noLine other) ?_
          exact Function.update_of_ne (Ne.symm same) _ _
      · change ((u.sysReturn call bytes.length).pos s.currPCB).AsksBytes
        rw [point]
        trivial

/-- A line replaces the bytes of its buffer, and an EOF removes them. -/
theorem writeBuffer_arrives {line : Option (List Byte)} (done : writeBuffer tty line s = .ok t) :
    (t.buffers tty).Counts ∧ (t.buffers tty).pending = line ∧
      (∀ other, other ≠ tty → t.buffers other = s.buffers other) ∧
      t.pos s.currPCB = s.pos s.currPCB := by
  unfold writeBuffer at done
  cases line with
  | none =>
      cases Except.ok.inj done
      have there : (s.setBuffer tty { s.buffers tty with
          numBytesWritten := 0, isLineReady := false }).buffers tty =
        { s.buffers tty with numBytesWritten := 0, isLineReady := false } :=
        Function.update_self ..
      rw [there]
      refine ⟨⟨le_refl _, Int.natCast_nonneg _, fun _ => rfl⟩, rfl, fun other differs => ?_, rfl⟩
      exact Function.update_of_ne differs _ _
  | some bytes =>
      obtain ⟨base, moved, done⟩ := Outcome.bind_eq_ok.mp done
      obtain rfl := memmove_base moved
      cases Except.ok.inj done
      obtain ⟨-, -, -, -, -, curr, cpu⟩ := unblockReader_reads tty s.toScheduler
      let after : TtyBuf :=
        ⟨bytes ++ (s.buffers tty).base.drop bytes.length, bytes.length, true⟩
      have there : (s.setBuffer tty after).buffers tty = after := Function.update_self ..
      change ((s.setBuffer tty after).buffers tty).Counts ∧
        ((s.setBuffer tty after).buffers tty).pending = some bytes ∧ _ ∧ _
      rw [there]
      refine ⟨⟨Int.natCast_nonneg _, ?_, fun unready => ?_⟩, ?_, fun other differs => ?_, ?_⟩
      · change (bytes.length : Int) ≤ (bytes ++ _ : List Byte).length
        rw [List.length_append]
        omega
      · cases unready
      · exact congrArg some List.take_left
      · exact Function.update_of_ne differs _ _
      · exact (if_pos curr.symm).trans (cpu.trans s.pos_curr.symm)

theorem Pos.asksBytes_of_outside {k : Pos} (outside : k.isTty = false) : k.AsksBytes := by
  cases k <;> trivial

/-- Every step of the kernel is a step of every buffer. -/
theorem Sound.lineStep (sound : Sound s) (lines : s.LinesCount) (next : yallnix.step s i t)
    (other : Fin numTerminals) :
    LineStep other i s t ∧ (s.currPCB ∈ t.live → (t.pos s.currPCB).AsksBytes) := by
  by_cases terminal : i.usesTerminal s.toScheduler = true
  · obtain ⟨ready, done⟩ := next
    cases i with
    | kernelCall call oracle =>
        have user := enabled_user ready fun _ same => by cases same
        simp only [enabled, Bool.and_eq_true, decide_eq_true_eq] at ready
        cases call with
        | ttyRead ttyId buf len =>
            obtain ⟨flow, read, done⟩ := Outcome.bind_eq_ok.mp done
            cases Except.ok.inj done
            rcases kernelTtyRead_cases read with ⟨rejected, code, rfl⟩ |
              ⟨accepted, positive, tty, rfl, read⟩
            · refine ⟨.passes (if_neg fun both => ?_) rfl rfl, fun _ => ?_⟩
              · rw [rejected] at both
                exact Bool.false_ne_true both.2
              · have point : (s.sysReturn (.ttyRead ttyId buf len) code).pos s.currPCB = .user :=
                  if_pos rfl
                exact point ▸ trivial
            · have reads (other : Fin numTerminals) : Input.reading other s.toScheduler
                  (.kernelCall (.ttyRead tty.val buf len) oracle) =
                    if tty = other then some len.toNat else none := by
                simp only [Input.reading, accepted, and_true, Nat.cast_inj, Fin.ext_iff]
              obtain ⟨step, asks⟩ := readBufferLoop_lineStep lines
                (sound.placed.others_ready ready.1.1.2) positive reads (fun _ => rfl) read other
              exact ⟨step, fun _ => asks⟩
        | ttyWrite ttyId buf len bytes =>
            obtain ⟨flow, written, done⟩ := Outcome.bind_eq_ok.mp done
            cases Except.ok.inj done
            rw [finishScheduler_eq]
            refine ⟨.passes rfl rfl rfl, fun _ => ?_⟩
            rcases kernelTtyWrite_cases written with ⟨-, code, rfl, -⟩ | ⟨-, -, tty, -, rfl⟩
            · have point : (s.toScheduler.sysReturn (.ttyWrite ttyId buf len bytes) code).pos
                  s.currPCB = .user := if_pos rfl
              exact point ▸ trivial
            · exact ttyWriteLoop_asks bytes
        | _ => cases terminal
    | resume junk =>
        have carries := lines.asks s.currPCB sound.placed.live
        rw [s.pos_curr] at carries
        unfold handle resumeKernel at done
        change s.cpu.isTty = true at terminal
        cases point : s.cpu with
        | ttyWrite tty call r0Buf =>
            rw [point] at done
            dsimp only at done
            rw [finishScheduler_eq] at done
            cases Except.ok.inj done
            refine ⟨.passes ?_ rfl rfl, fun _ => ttyWriteLoop_asks r0Buf⟩
            rw [Input.reading, point]
            rfl
        | ttyBatch tty call r0Buf bytesTransmitted =>
            rw [point] at done
            dsimp only at done
            rw [finishScheduler_eq] at done
            cases Except.ok.inj done
            refine ⟨.passes ?_ rfl rfl, fun _ => transmitLoop_asks r0Buf bytesTransmitted⟩
            rw [Input.reading, point]
            rfl
        | ttyRead tty call len =>
            rw [point] at done carries
            obtain ⟨flow, read, done⟩ := Outcome.bind_eq_ok.mp done
            cases Except.ok.inj done
            have others := sound.placed.others_ready
              (sound.placed.not_idle (by rw [point]; rfl))
            obtain ⟨step, asks⟩ := readBufferLoop_lineStep (i := .resume junk) lines others carries
              (fun other => by rw [Input.reading, point]; rfl) (fun _ => rfl) read other
            exact ⟨step, fun _ => asks⟩
        | _ =>
            rw [point] at terminal
            cases terminal
    | ttyReceive tty line =>
        obtain ⟨counts, pending, elsewhere, point⟩ := writeBuffer_arrives done
        refine ⟨?_, fun _ => ?_⟩
        · by_cases same : tty = other
          · subst same
            exact .arrives rfl (if_pos rfl) counts pending
          · exact .passes rfl (if_neg same) (elsewhere other (Ne.symm same))
        · rw [point]
          exact lines.asks s.currPCB sound.placed.live
    | ttyTransmit tty =>
        obtain ⟨u, interrupted, done⟩ := Outcome.bind_eq_ok.mp done
        cases Except.ok.inj done
        obtain ⟨a, slot, -⟩ := sound.placed.transmission tty (Bool.and_eq_true_iff.mp ready).2
        refine ⟨.passes rfl rfl rfl, fun _ => ?_⟩
        change (u.pos s.currPCB).AsksBytes
        rw [handleTtyTransmit_pos slot interrupted]
        trivial
    | _ => cases terminal
  · have outside : i.usesTerminal s.toScheduler = false := (Bool.not_eq_true _).mp terminal
    have away := sound.away outside next
    refine ⟨.passes ?_ ?_ (congrFun away.buffers other), fun live => ?_⟩
    · cases i with
      | kernelCall call oracle => cases call <;> first | rfl | cases outside
      | resume junk =>
          change s.cpu.isTty = false at outside
          change s.cpu.reading other = none
          cases point : s.cpu <;> first | rfl | (rw [point] at outside; cases outside)
      | _ => rfl
    · cases i with
      | ttyReceive tty line => cases outside
      | _ => rfl
    · by_cases inside : (t.pos s.currPCB).isTty = true
      · rw [(away.offline.points s.currPCB live inside).2]
        exact lines.asks s.currPCB sound.placed.live
      · exact Pos.asksBytes_of_outside ((Bool.not_eq_true _).mp inside)

/-- Every step keeps the counts of the buffers. -/
theorem Kernel.LinesCount.step (lines : s.LinesCount) (sound : Sound s)
    (next : yallnix.step s i t) : t.LinesCount where
  buffers tty := by
    cases (sound.lineStep lines next tty).1 with
    | passes _ _ same => exact same ▸ lines.buffers tty
    | arrives _ _ counts _ => exact counts
    | waits _ _ _ same _ _ => exact same ▸ lines.buffers tty
    | takes _ _ _ counts _ _ => exact counts
  asks a live := by
    by_cases isCurr : a = s.currPCB
    · subst isCurr
      cases point : t.pos s.currPCB with
      | ttyRead tty call len =>
          rw [← point]
          exact (sound.lineStep lines next tty).2 live
      | _ => trivial
    · rcases (sound.step next).2.family.live live with old | ⟨-, -, forked⟩
      · rw [(sound.stays next old isCurr).2.1]
        exact lines.asks a old
      · change t.pos a = .fork s.currPCB a at forked
        rw [forked]
        trivial

theorem lineNotes_eq (events : List Event) (log : t.log = events ++ s.log) :
    lineNotes tty s i t = (i.arrival tty).toList.map .arrived ++
      (if events.any Event.isReturn then i.reading tty s.toScheduler else none).toList.map
        fun len => .read len (events.flatMap (Event.receivedBytes tty)) := by
  have fresh : t.log.take (t.log.length - s.log.length) = events := by
    rw [log, List.length_append, Nat.add_sub_cancel, List.take_left]
  rw [lineNotes, fresh]

/-- The notes of a step follow the buffer. -/
theorem LineStep.notes {notes : List (LineNote Byte)} (step : LineStep tty i s t)
    (buffer : LineBuffer notes (s.buffers tty).pending) :
    LineBuffer (lineNotes tty s i t ++ notes) (t.buffers tty).pending := by
  cases step with
  | passes silent noLine same =>
      have none : lineNotes tty s i t = [] := by
        simp only [lineNotes, silent, noLine, ite_self]
        rfl
      rw [none, same]
      exact buffer
  | arrives silent arrival _ after =>
      have one : lineNotes tty s i t = [.arrived (t.buffers tty).pending] := by
        simp only [lineNotes, silent, arrival, after, ite_self]
        rfl
      rw [one]
      exact .arrive buffer _
  | waits _ _ noLine same log _ =>
      have none : lineNotes tty s i t = [] := by
        rw [lineNotes_eq [] log, noLine]
        rfl
      rw [none, same]
      exact buffer
  | @takes len bytes call reads positive noLine _ after log =>
      have one : lineNotes tty s i t = [.read len bytes] := by
        rw [lineNotes_eq [.returned s.curr.pid call bytes.length,
          .received tty s.curr.pid bytes] log, noLine, reads]
        simp [Event.isReturn, Event.receivedBytes]
      rw [one]
      cases after with
      | part pending more left =>
          rw [left]
          rw [pending] at buffer
          exact .part buffer positive more
      | rest pending fits left =>
          rw [left]
          rw [pending] at buffer
          exact .rest buffer fits

end

end

section
attribute [local instance] smallHardware

end

end Yallnix

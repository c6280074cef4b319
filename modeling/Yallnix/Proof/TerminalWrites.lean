import Yallnix.ToMathlib.ServiceBlocks
import Yallnix.Proof.TerminalWakeup

namespace Yallnix

section
variable [Hardware]

/-- The pids call, and the batches are the pieces. -/
abbrev TtyNote := BlockNote Int (List Byte) (List Byte)

abbrev TtyBlock := Block Int (List Byte) (List Byte)

/-- A batch and the end of a write on this terminal are noted. -/
def Event.ttyNote (tty : Fin numTerminals) : Event → Option TtyNote
  | .transmitted other pid bytes => if other = tty then some (.piece pid bytes) else none
  | .returned pid (.ttyWrite ttyId _ len bytes) code =>
      if ttyId = tty.val ∧ 0 < len ∧ code = len then some (.done pid bytes) else none
  | _ => none

/-- A step notes the accepted write call on this terminal and then its service. -/
def ttyNotes (tty : Fin numTerminals) (s : Kernel) (i : Input) (t : Kernel) : List TtyNote :=
  (t.log.take (t.log.length - s.log.length)).filterMap (Event.ttyNote tty) ++
    (i.written tty s.toScheduler).toList.map (.called s.curr.pid)

/-- Every batch of a block has an allowed size. -/
def TtyBlock.Sized (block : TtyBlock) : Prop :=
  ∀ batch ∈ block.pieces, 1 ≤ batch.length ∧ batch.length ≤ terminalMaxLine

/-- The terminal transmits one batch at a time, and the batches of the calls do not mix. -/
structure Kernel.WritesWhole (s : Kernel) (tty : Fin numTerminals) (notes : List TtyNote) :
    Prop where
  exclusive : ∀ i t events pid bytes, yallnix.step s i t → t.log = events ++ s.log →
    .transmitted tty pid bytes ∈ events → s.transmitting tty = false ∧
      events = [.transmitted tty pid bytes] ∧ t.transmitting tty = true
  blocks : ∃ (blocks : List TtyBlock) (current : Option TtyBlock)
      (waiting : Int → Option (List Byte)), ServesBlocks notes blocks current waiting ∧
    (∀ block ∈ blocks, block.Sized ∧ block.pieces.flatten = block.payload) ∧
    ∀ block ∈ current, block.Sized ∧ block.pieces.flatten <+: block.payload

variable {s t : Kernel} {i : Input} {tty : Fin numTerminals}

theorem Event.ttyNote_eq_none {event : Event} (outside : event.usesTty tty = false) :
    event.ttyNote tty = none := by
  cases event with
  | transmitted other pid bytes => exact if_neg (of_decide_eq_false outside)
  | returned pid call code =>
      cases call with
      | ttyWrite ttyId buf len bytes => exact if_neg (of_decide_eq_false outside)
      | _ => rfl
  | _ => rfl

theorem ttyNotes_eq (events : List Event) (log : t.log = events ++ s.log) :
    ttyNotes tty s i t = events.filterMap (Event.ttyNote tty) ++
      (i.written tty s.toScheduler).toList.map (.called s.curr.pid) := by
  have fresh : t.log.take (t.log.length - s.log.length) = events := by
    rw [log, List.length_append, Nat.add_sub_cancel, List.take_left]
  rw [ttyNotes, fresh]

/-- The caller that is served is the transmitter, and the waiting callers are the queued ones. -/
structure TtyService (tty : Fin numTerminals) (s : Kernel) (current : Option TtyBlock)
    (waiting : Int → Option (List Byte)) : Prop where
  waits : ∀ pid bytes, waiting pid = some bytes ↔
    ∃ a ∈ s.live, (s.pcbs a).pid = pid ∧ ∃ call, s.pos a = .ttyWrite tty call bytes
  free : s.currTransmitters tty = none → current = none
  taken : ∀ a, s.currTransmitters tty = some a → ∃ call r0Buf bytesTransmitted batches,
    s.pos a = .ttyBatch tty call r0Buf bytesTransmitted ∧
      current = some ⟨(s.pcbs a).pid, r0Buf, batches⟩ ∧
      batches.flatten = r0Buf.take bytesTransmitted

section
variable {current : Option TtyBlock} {waiting : Int → Option (List Byte)}

/-- The running process waits if and only if it is at the first loop. -/
theorem TtyService.waits_curr (service : TtyService tty s current waiting) (sound : Sound s)
    (bytes : List Byte) :
    waiting s.curr.pid = some bytes ↔ ∃ call, s.cpu = .ttyWrite tty call bytes := by
  rw [service.waits]
  constructor
  · rintro ⟨a, live, same, point⟩
    obtain rfl := sound.placed.pidDistinct a live s.currPCB sound.placed.live same
    rwa [s.pos_curr] at point
  · intro point
    exact ⟨s.currPCB, sound.placed.live, rfl, by rwa [s.pos_curr]⟩

/-- A step changes the waiting callers at the running process only. -/
theorem TtyService.waits_step (service : TtyService tty s current waiting) (sound : Sound s)
    (next : yallnix.step s i t) (own : Option (List Byte))
    (point : ∀ bytes, own = some bytes ↔
      s.currPCB ∈ t.live ∧ ∃ call, t.pos s.currPCB = .ttyWrite tty call bytes) :
    ∀ pid bytes, Function.update waiting s.curr.pid own pid = some bytes ↔
      ∃ a ∈ t.live, (t.pcbs a).pid = pid ∧ ∃ call, t.pos a = .ttyWrite tty call bytes := by
  have tty' (call : Call) (bytes : List Byte) :
      (Pos.ttyWrite tty call bytes).usesTty tty = true := decide_eq_true rfl
  have self : s.currPCB ∈ t.live → (t.pcbs s.currPCB).pid = s.curr.pid := fun live =>
    ((sound.step next).2.family.self sound.placed.live).elim And.right fun gone =>
      absurd live gone.1
  intro pid bytes
  by_cases same : pid = s.curr.pid
  · subst same
    rw [Function.update_self, point]
    constructor
    · rintro ⟨live, call, here⟩
      exact ⟨s.currPCB, live, self live, call, here⟩
    · rintro ⟨a, live, same, call, here⟩
      by_cases isCurr : a = s.currPCB
      · exact isCurr ▸ ⟨live, call, here⟩
      · obtain ⟨old, stayed⟩ := sound.stayed tty next live isCurr
          (by rw [here]; exact tty' call bytes)
        rw [(sound.stays next old isCurr).2.2] at same
        exact absurd (sound.placed.pidDistinct a old _ sound.placed.live same) isCurr
  · rw [Function.update_of_ne same, service.waits]
    constructor
    · rintro ⟨a, live, rfl, call, here⟩
      have other : a ≠ s.currPCB := by
        rintro rfl
        exact same rfl
      obtain ⟨stays, point, samePid⟩ := sound.stays next live other
      exact ⟨a, stays, samePid, call, point.trans here⟩
    · rintro ⟨a, live, rfl, call, here⟩
      have other : a ≠ s.currPCB := by
        rintro rfl
        exact same (self live)
      obtain ⟨old, point⟩ := sound.stayed tty next live other
        (by rw [here]; exact tty' call bytes)
      exact ⟨a, old, (sound.stays next old other).2.2.symm, call, point.symm.trans here⟩

/-- The block of another transmitter stays as it is. -/
theorem TtyService.keeps (service : TtyService tty s current waiting) (sound : Sound s)
    (next : yallnix.step s i t) (same : t.currTransmitters tty = s.currTransmitters tty)
    (other : s.currTransmitters tty ≠ some s.currPCB) {after : Int → Option (List Byte)}
    (waits : ∀ pid bytes, after pid = some bytes ↔
      ∃ a ∈ t.live, (t.pcbs a).pid = pid ∧ ∃ call, t.pos a = .ttyWrite tty call bytes) :
    TtyService tty t current after where
  waits := waits
  free idle := service.free (same ▸ idle)
  taken a slot := by
    rw [same] at slot
    obtain ⟨call, r0Buf, sent, batches, point, block, bytes⟩ := service.taken a slot
    have live := ((sound.placed.transmitter tty a).mp slot).1
    obtain ⟨_, stays, pid⟩ := sound.stays next live fun isCurr => other (isCurr ▸ slot)
    exact ⟨call, r0Buf, sent, batches, stays.trans point, pid.symm ▸ block, bytes⟩

end

/-- The process is in a loop of `KernelTtyWrite` on this terminal. -/
def Pos.writesTty (tty : Fin numTerminals) : Pos → Bool
  | .ttyWrite other .. | .ttyBatch other .. => decide (other = tty)
  | _ => false

theorem Pos.writesTty_usesTty {k : Pos} (outside : k.usesTty tty = false) :
    k.writesTty tty = false := by
  cases k <;> first | rfl | exact outside

/-- The notes of one terminal describe blocks, and the kernel is about to serve the begun one. -/
structure TtyServed (tty : Fin numTerminals) (s : Kernel) (notes : List TtyNote)
    (blocks : List TtyBlock) (current : Option TtyBlock) (waiting : Int → Option (List Byte)) :
    Prop where
  serves : ServesBlocks notes blocks current waiting
  service : TtyService tty s current waiting
  whole : ∀ block ∈ blocks, block.Sized ∧ block.pieces.flatten = block.payload
  sized : ∀ block ∈ current, block.Sized

section
variable {notes : List TtyNote} {blocks : List TtyBlock} {current : Option TtyBlock}
  {waiting : Int → Option (List Byte)} {call : Call} {r0Buf : List Byte}

/-- A process outside of its last loop is not the transmitter. -/
theorem Placed.not_transmitter (placed : Placed s.toScheduler)
    (outside : s.cpu.writesTty tty = false) : s.currTransmitters tty ≠ some s.currPCB := by
  intro slot
  obtain ⟨_, call, r0Buf, sent, point⟩ := (placed.transmitter tty s.currPCB).mp slot
  rw [← s.pos_curr, point] at outside
  simp [Pos.writesTty] at outside

/-- A process outside of the loops of a write does not wait for the terminal. -/
theorem TtyServed.idle (served : TtyServed tty s notes blocks current waiting) (sound : Sound s)
    (outside : ∀ call bytes, s.cpu ≠ .ttyWrite tty call bytes) : waiting s.curr.pid = none := by
  refine Option.eq_none_iff_forall_ne_some.mpr fun bytes waits => ?_
  obtain ⟨call, point⟩ := (served.service.waits_curr sound bytes).mp waits
  exact outside call bytes point

/-- A step that notes nothing leaves the service as it is. -/
theorem TtyServed.quiet (served : TtyServed tty s notes blocks current waiting) (sound : Sound s)
    (next : yallnix.step s i t) (silent : i.written tty s.toScheduler = none)
    (log : ∃ events, t.log = events ++ s.log ∧ ∀ event ∈ events, event.usesTty tty = false)
    (same : t.currTransmitters tty = s.currTransmitters tty)
    (before : s.cpu.writesTty tty = false)
    (after : s.currPCB ∈ t.live → (t.pos s.currPCB).writesTty tty = false) :
    TtyServed tty t (ttyNotes tty s i t ++ notes) blocks current waiting := by
  obtain ⟨events, log, quiet⟩ := log
  have nothing : ttyNotes tty s i t = [] := by
    rw [ttyNotes_eq events log, silent]
    simpa using fun event member => Event.ttyNote_eq_none (quiet event member)
  have idle := served.idle sound fun call bytes point => by
    rw [point] at before
    simp [Pos.writesTty] at before
  have waits := served.service.waits_step sound next none fun bytes =>
    ⟨nofun, fun ⟨live, call, point⟩ => by
      have outside := after live
      rw [point] at outside
      simp [Pos.writesTty] at outside⟩
  rw [← idle, Function.update_eq_self] at waits
  rw [nothing]
  exact ⟨served.serves, served.service.keeps sound next same
    (sound.placed.not_transmitter before) waits, served.whole, served.sized⟩

/-- A batch starts or continues a block. -/
theorem TtyServed.begins (served : TtyServed tty s notes blocks current waiting) (sound : Sound s)
    {bytesTransmitted : Nat} (may : s.MayTransmit tty i call r0Buf bytesTransmitted) :
    ∃ batches, batches.flatten = r0Buf.take bytesTransmitted ∧
      TtyBlock.Sized ⟨s.curr.pid, r0Buf, batches⟩ ∧
      ServesBlocks ((i.written tty s.toScheduler).toList.map (.called s.curr.pid) ++ notes) blocks
        (some ⟨s.curr.pid, r0Buf, batches⟩) (Function.update waiting s.curr.pid none) := by
  rcases may with ⟨writes, rfl, free⟩ | ⟨silent, point⟩
  · refine ⟨[], rfl, fun _ => nofun, ?_⟩
    obtain rfl := served.service.free free
    cases writes with
    | enters user accepted _ =>
        have idle := served.idle sound fun call bytes => by
          rw [user]
          exact nofun
        have called := (served.serves.call idle nofun r0Buf).begin (Function.update_self _ _ _)
        rw [Function.update_idem] at called
        rw [accepted]
        exact called
    | again silent point =>
        rw [silent tty]
        exact served.serves.begin ((served.service.waits_curr sound r0Buf).mpr ⟨call, point⟩)
  · have slot : s.currTransmitters tty = some s.currPCB :=
      (sound.placed.transmitter tty s.currPCB).mpr ⟨sound.placed.live, by
        rw [s.pos_curr]
        exact ⟨call, r0Buf, bytesTransmitted, point⟩⟩
    obtain ⟨call', r0Buf', sent, batches, same, rfl, bytes⟩ := served.service.taken _ slot
    rw [s.pos_curr, point] at same
    cases same
    have idle := served.idle sound fun call bytes => by
      rw [point]
      exact nofun
    refine ⟨batches, bytes, served.sized _ rfl, ?_⟩
    have kept : Function.update waiting s.curr.pid none = waiting := by
      rw [← idle, Function.update_eq_self]
    rw [silent tty, kept]
    exact served.serves

/-- A batch has at least one byte and fits into a line. -/
theorem batch_sized {bytesTransmitted : Nat} (more : bytesTransmitted < r0Buf.length) :
    1 ≤ ((r0Buf.drop bytesTransmitted).take
        (min terminalMaxLine (r0Buf.length - bytesTransmitted))).length ∧
      ((r0Buf.drop bytesTransmitted).take
        (min terminalMaxLine (r0Buf.length - bytesTransmitted))).length ≤ terminalMaxLine := by
  have positive := Hardware.terminalMaxLinePositive
  rw [List.length_take, List.length_drop]
  omega

/-- The end of a write is noted with the bytes of the call. -/
theorem Call.Writes.note (writes : call.Writes tty r0Buf) (pid : Int) :
    (Event.returned pid call r0Buf.length).ttyNote tty = some (.done pid r0Buf) := by
  cases call with
  | ttyWrite ttyId buf len bytes =>
      obtain ⟨index, positive, rfl, size⟩ := writes
      exact if_pos ⟨index, positive, by omega⟩
  | _ => cases writes

/-- One step of the kernel serves at most one piece of a block. -/
theorem TtyServed.step (served : TtyServed tty s notes blocks current waiting) (sound : Sound s)
    (carries : s.CarriesTerminal) (next : yallnix.step s i t) :
    ∃ blocks current waiting, TtyServed tty t (ttyNotes tty s i t ++ notes) blocks current
      waiting := by
  have curr := carries s.currPCB sound.placed.live
  rw [s.pos_curr] at curr
  have alive (exits : ∀ status, s.cpu ≠ .exit status) :
      s.currPCB ∈ t.live ∧ (t.pcbs s.currPCB).pid = s.curr.pid := by
    rcases (sound.step next).2.family.self sound.placed.live with stays | ⟨_, status, point⟩
    · exact stays
    · exact absurd (s.pos_curr.symm.trans point) (exits status)
  have slot : t.currTransmitters tty = (t.terminal tty).currTransmitter := rfl
  cases sound.ttyStep curr next tty with
  | passes before silent same log after =>
      refine ⟨blocks, current, waiting, served.quiet sound next silent log ?_
        (Pos.writesTty_usesTty before) fun live => Pos.writesTty_usesTty (after live)⟩
      rw [slot, same]
      rfl
  | interrupt asked user busy after log point =>
      refine ⟨blocks, current, waiting, served.quiet sound next (by rw [asked]; rfl)
        ⟨[], log, by simp⟩ ?_ (by rw [user]; rfl) fun _ => by rw [point]; rfl⟩
      rw [slot, after]
      rfl
  | waits silent carries reads unready after log point =>
      refine ⟨blocks, current, waiting, served.quiet sound next silent ⟨[], log, by simp⟩ ?_ ?_
        fun _ => by rw [point]; rfl⟩
      · rw [slot, after]
        rfl
      · rcases reads with here | here <;> rw [here] <;> rfl
  | takes ready silent reads after log point =>
      refine ⟨blocks, current, waiting, served.quiet sound next silent log ?_ ?_
        fun _ => by rw [point]; rfl⟩
      · rw [slot, after]
        rfl
      · rcases reads with here | ⟨_, _, here⟩ <;> rw [here] <;> rfl
  | @queues call r0Buf writes busy after log point =>
      obtain ⟨live, _⟩ := alive fun status => by
        rcases writes.point with here | here <;> rw [here] <;> exact nofun
      have waits := served.service.waits_step sound next (some r0Buf) fun bytes => by
        rw [point]
        constructor
        · intro same
          cases same
          exact ⟨live, call, rfl⟩
        · rintro ⟨_, _, same⟩
          cases same
          rfl
      have outside : s.currTransmitters tty ≠ some s.currPCB := by
        intro taken
        obtain ⟨_, _, _, _, here⟩ := (sound.placed.transmitter tty s.currPCB).mp taken
        rw [s.pos_curr] at here
        rcases writes.point with same | same <;> exact nomatch same.symm.trans here
      have service := served.service.keeps sound next (by rw [slot, after]; rfl) outside waits
      refine ⟨blocks, current, _, ?_, service, served.whole, served.sized⟩
      rw [ttyNotes_eq [] log]
      cases writes with
      | enters user accepted _ =>
          have idle := served.idle sound fun call bytes => by
            rw [user]
            exact nofun
          rw [accepted]
          refine served.serves.call idle (fun block member => ?_) r0Buf
          cases taken : s.currTransmitters tty with
          | none => exact absurd taken busy
          | some a =>
              obtain ⟨_, _, _, _, _, same, _⟩ := served.service.taken a taken
              rw [same] at member
              cases member
              intro samePid
              have inside := ((sound.placed.transmitter tty a).mp taken).1
              obtain rfl := sound.placed.pidDistinct a inside _ sound.placed.live samePid
              exact outside taken
      | again silent here =>
          rw [silent tty, Function.update_eq_self_iff.mpr
            ((served.service.waits_curr sound r0Buf).mpr ⟨call, here⟩).symm]
          exact served.serves
  | @sends call r0Buf sent may more after log point =>
      obtain ⟨live, pid⟩ := alive fun status => by
        rcases may.point with here | here | here <;> rw [here] <;> exact nofun
      obtain ⟨batches, bytes, sized, serves⟩ := served.begins sound may
      have waits := served.service.waits_step sound next none fun bytes =>
        ⟨nofun, fun ⟨_, _, here⟩ => nomatch point.symm.trans here⟩
      refine ⟨blocks, some ⟨s.curr.pid, r0Buf, batches ++ [(r0Buf.drop sent).take
        (min terminalMaxLine (r0Buf.length - sent))]⟩, _, ?_, ⟨waits, ?_, ?_⟩, served.whole, ?_⟩
      · rw [ttyNotes_eq [_] log]
        have served := serves.serve ((r0Buf.drop sent).take
          (min terminalMaxLine (r0Buf.length - sent)))
        simpa [Event.ttyNote] using served
      · rw [slot, after]
        exact nofun
      · intro a taken
        rw [slot, after] at taken
        cases taken
        refine ⟨call, r0Buf, _, _, point, by rw [pid], ?_⟩
        rw [List.flatten_append, bytes, List.take_add]
        simp
      · intro block member
        cases member
        intro batch part
        rcases List.mem_append.mp part with early | late
        · exact sized batch early
        · rw [List.mem_singleton.mp late]
          exact batch_sized more
  | @ends call r0Buf sent may whole after log point =>
      obtain ⟨live, pid⟩ := alive fun status => by
        rcases may.point with here | here | here <;> rw [here] <;> exact nofun
      obtain ⟨batches, bytes, sized, serves⟩ := served.begins sound may
      rw [List.take_of_length_le whole] at bytes
      have waits := served.service.waits_step sound next none fun bytes =>
        ⟨nofun, fun ⟨_, _, here⟩ => nomatch point.symm.trans here⟩
      refine ⟨blocks ++ [⟨s.curr.pid, r0Buf, batches⟩], none, _, ?_, ⟨waits, fun _ => rfl, ?_⟩, ?_,
        nofun⟩
      · rw [ttyNotes_eq [_] log]
        have served := serves.finish
        have note : (Event.returned s.curr.pid call r0Buf.length).ttyNote tty =
            some (.done s.curr.pid r0Buf) := (may.carries curr).note s.curr.pid
        simpa [note] using served
      · intro a taken
        rw [slot, after] at taken
        cases taken
      · intro block member
        rcases List.mem_append.mp member with early | late
        · exact served.whole block early
        · rw [List.mem_singleton.mp late]
          exact ⟨sized, bytes⟩

/-- A transmission starts while the terminal is idle, and it is all that its step does. -/
theorem Sound.exclusive (sound : Sound s) (carries : s.CarriesTerminal)
    (next : yallnix.step s i t) {events : List Event} {pid : Int} {bytes : List Byte}
    (log : t.log = events ++ s.log) (member : .transmitted tty pid bytes ∈ events) :
    s.transmitting tty = false ∧ events = [.transmitted tty pid bytes] ∧
      t.transmitting tty = true := by
  have curr := carries s.currPCB sound.placed.live
  rw [s.pos_curr] at curr
  have quiet (others : List Event) (same : t.log = others ++ s.log)
      (silent : ∀ event ∈ others, event.usesTty tty = false) : False := by
    rw [log] at same
    rw [List.append_cancel_right same] at member
    exact absurd (silent _ member) (by simp [Event.usesTty])
  cases sound.ttyStep curr next tty with
  | passes _ _ _ log _ =>
      obtain ⟨others, same, silent⟩ := log
      exact (quiet others same silent).elim
  | queues _ _ _ same _ => exact (quiet [] same (by simp)).elim
  | @sends call r0Buf sent may more after same point =>
      have only : events = [.transmitted tty s.curr.pid ((r0Buf.drop sent).take
          (min terminalMaxLine (r0Buf.length - sent)))] :=
        List.append_cancel_right (log.symm.trans same)
      subst only
      obtain ⟨rfl, rfl⟩ : pid = s.curr.pid ∧ bytes = _ := by simpa using member
      refine ⟨Bool.eq_false_iff.mpr fun busy => ?_, rfl, ?_⟩
      · obtain ⟨a, slot, notCurr⟩ := sound.placed.transmission tty busy
        rcases may with ⟨_, _, free⟩ | ⟨_, here⟩
        · rw [free] at slot
          cases slot
        · have mine := (sound.placed.transmitter tty s.currPCB).mpr ⟨sound.placed.live, by
            rw [s.pos_curr]
            exact ⟨call, r0Buf, sent, here⟩⟩
          rw [mine] at slot
          cases slot
          exact notCurr (Finset.mem_singleton_self _)
      · change (t.terminal tty).transmitting = true
        rw [after]
  | @ends call r0Buf sent may _ _ same _ =>
      have only : events = [.returned s.curr.pid call r0Buf.length] :=
        List.append_cancel_right (log.symm.trans same)
      subst only
      simp at member
  | interrupt _ _ _ _ same _ => exact (quiet [] same (by simp)).elim
  | waits _ _ _ _ _ same _ => exact (quiet [] same (by simp)).elim
  | takes _ _ _ _ log _ =>
      obtain ⟨others, same, silent⟩ := log
      exact (quiet others same silent).elim

end

/-- In every run the batches of one terminal are whole blocks, one for each write call. -/
theorem history_writesWhole {tty : Fin numTerminals} {notes : List TtyNote}
    (history : yallnix.History (fun _ _ => True) (ttyNotes tty) notes s) :
    s.WritesWhole tty notes := by
  obtain ⟨sound, carries⟩ := reachable_carriesTerminal history.run
  refine ⟨fun i t events pid bytes next log member => sound.exclusive carries next log member, ?_⟩
  obtain ⟨blocks, current, waiting, served⟩ : ∃ blocks current waiting,
      TtyServed tty s notes blocks current waiting := by
    refine history.invariant_of_run (fun notes s => ∃ blocks current waiting,
      TtyServed tty s notes blocks current waiting) (fun _ => reachable_carriesTerminal) ?_ ?_
    · rintro s ⟨boot, done⟩
      have booted := (kernelStart_fresh done).2.2
      refine ⟨[], none, fun _ => none, .nil, ⟨fun pid bytes => ⟨nofun, ?_⟩, fun _ => rfl, ?_⟩,
        nofun, nofun⟩
      · rintro ⟨a, live, _, call, point⟩
        rw [booted.pos live] at point
        split at point <;> cases point
      · intro a slot
        rw [booted.currTransmitters] at slot
        cases slot
    · rintro s i t notes ⟨sound, carries⟩ ⟨blocks, current, waiting, served⟩ _ next
      exact served.step sound carries next
  refine ⟨blocks, current, waiting, served.serves, served.whole, fun block member => ?_⟩
  refine ⟨served.sized block member, ?_⟩
  cases taken : s.currTransmitters tty with
  | none =>
      rw [served.service.free taken] at member
      cases member
  | some a =>
      obtain ⟨_, r0Buf, sent, batches, _, same, bytes⟩ := served.service.taken a taken
      rw [same] at member
      cases member
      change batches.flatten <+: r0Buf
      rw [bytes]
      exact List.take_prefix sent r0Buf

end

section
attribute [local instance] smallHardware

/-- A process has sent the first batch of ten bytes, and another one waits for the terminal. -/
theorem smallRun_writesWhole :
    ∃ (s : Kernel) (notes : List TtyNote), s.transmitting 0 = true ∧ s.transmittingQs 0 = [1] ∧
      s.WritesWhole 0 notes := by
  obtain ⟨s, run, tested⟩ := exists_reachable (fun s =>
    s.transmitting 0 && s.transmittingQs 0 = [1])
    [forks 2, goesOn, asks (.ttyWrite 0 144 10 [0, 1, 2, 3, 4, 5, 6, 7, 8, 9]), goesOn, .clock,
      goesOn, asks (.ttyWrite 0 144 1 [7])] (by decide +kernel)
  rw [Bool.and_eq_true, decide_eq_true_eq] at tested
  obtain ⟨notes, history⟩ := run.history (ttyNotes 0)
  exact ⟨s, notes, tested.1, tested.2, history_writesWhole history⟩

end

end Yallnix

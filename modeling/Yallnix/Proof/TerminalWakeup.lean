import Yallnix.ToMathlib.WaitQueue
import Yallnix.Construction.SmallMachine
import Yallnix.Proof.TerminalStep

namespace Yallnix

section
variable [Hardware]

variable {s t : Kernel} {i : Input} {tty : Fin numTerminals}

/-- A step keeps the program point and the pid of every process that does not run. -/
theorem Sound.stays (sound : Sound s) (next : yallnix.step s i t) {a : Addr} (live : a ∈ s.live)
    (other : a ≠ s.currPCB) : a ∈ t.live ∧ t.pos a = s.pos a ∧ (t.pcbs a).pid = (s.pcbs a).pid :=
  (sound.step next).2.family.other live other

/-- A process at a terminal call was there before the step, or it has just run. -/
theorem Sound.stayed (tty : Fin numTerminals) (sound : Sound s) (next : yallnix.step s i t) {a : Addr} (live : a ∈ t.live)
    (other : a ≠ s.currPCB) (inside : (t.pos a).usesTty tty = true) :
    a ∈ s.live ∧ t.pos a = s.pos a := by
  rcases (sound.step next).2.family.live live with old | ⟨_, _, forked⟩
  · exact ⟨old, (sound.stays next old other).2.1⟩
  · rw [show t.pos a = .fork s.currPCB a from forked] at inside
    cases inside

theorem Pos.CarriesTerminal.of_outside {k : Pos} (outside : ∀ tty, k.usesTty tty = false) :
    k.CarriesTerminal := by
  cases k with
  | ttyWrite tty => exact absurd (outside tty) (by simp [Pos.usesTty])
  | ttyBatch tty => exact absurd (outside tty) (by simp [Pos.usesTty])
  | ttyRead tty => exact absurd (outside tty) (by simp [Pos.usesTty])
  | _ => trivial

theorem Kernel.Writes.carries {call : Call} {r0Buf : List Byte}
    (writes : s.Writes tty i call r0Buf) (curr : s.cpu.CarriesTerminal) :
    call.Writes tty r0Buf := by
  cases writes with
  | enters _ _ writes => exact writes
  | again _ point =>
      rw [point] at curr
      exact curr

theorem Kernel.MayTransmit.carries {call : Call} {r0Buf : List Byte} {bytesTransmitted : Nat}
    (may : s.MayTransmit tty i call r0Buf bytesTransmitted) (curr : s.cpu.CarriesTerminal) :
    call.Writes tty r0Buf := by
  rcases may with ⟨writes, _⟩ | ⟨_, point⟩
  · exact writes.carries curr
  · rw [point] at curr
    exact curr.1

/-- Every process in a terminal call carries this call. -/
def Kernel.CarriesTerminal (s : Kernel) : Prop := ∀ a ∈ s.live, (s.pos a).CarriesTerminal

theorem reachable_carriesTerminal (reachable : yallnix.Reachable s) :
    Sound s ∧ s.CarriesTerminal := by
  refine ⟨reachable_sound reachable, ?_⟩
  refine reachable.invariant_of_reachable (fun _ => reachable_sound) ?_ ?_
  · rintro s ⟨boot, done⟩ a live
    rw [(kernelStart_fresh done).2.2.pos live]
    split <;> trivial
  · intro s i t sound carries _ next a live
    refine Classical.byContradiction fun missing => missing (.of_outside fun tty => ?_)
    refine Bool.eq_false_iff.mpr fun inside => missing ?_
    by_cases other : a ≠ s.currPCB
    · obtain ⟨old, same⟩ := sound.stayed tty next live other inside
      exact same ▸ carries a old
    have isCurr := not_not.mp other
    subst isCurr
    have curr := carries s.currPCB sound.placed.live
    rw [s.pos_curr] at curr
    cases sound.ttyStep curr next tty with
    | passes _ _ _ _ after =>
        rw [after live] at inside
        cases inside
    | queues writes _ _ _ point =>
        rw [point]
        exact writes.carries curr
    | sends may more _ _ point =>
        rw [point]
        exact ⟨may.carries curr, by omega⟩
    | ends _ _ _ _ point =>
        rw [point]
        trivial
    | interrupt _ _ _ _ _ point =>
        rw [point]
        trivial
    | waits _ carries _ _ _ _ point =>
        rw [point]
        exact carries
    | takes _ _ _ _ _ point =>
        rw [point]
        trivial

/-- The process is in the loop of `readBuffer` on this terminal. -/
def Kernel.AwaitsLine (s : Kernel) (tty : Fin numTerminals) (a : Addr) : Prop :=
  a ∈ s.live ∧ ∃ call len, s.pos a = .ttyRead tty call len

/-- The process is in the first loop of `KernelTtyWrite` on this terminal. -/
def Kernel.AwaitsTransmit (s : Kernel) (tty : Fin numTerminals) (a : Addr) : Prop :=
  a ∈ s.live ∧ ∃ call r0Buf, s.pos a = .ttyWrite tty call r0Buf

theorem Placed.reading (placed : Placed s.toScheduler) {a : Addr} (member : a ∈ s.readingQs tty) :
    s.AwaitsLine tty a ∧ a ≠ s.currPCB := by
  have occurs : 0 < s.occurs (.reading tty) a := List.count_pos_iff.mpr member
  obtain ⟨live, notOut, _⟩ := Settled.of_occurs placed occurs
  exact ⟨⟨live, placed.fits _ _ occurs⟩, fun same => notOut (Finset.mem_singleton.mpr same)⟩

theorem Placed.transmittingQ (placed : Placed s.toScheduler) {a : Addr}
    (member : a ∈ s.transmittingQs tty) : s.AwaitsTransmit tty a ∧ a ≠ s.currPCB := by
  have occurs : 0 < s.occurs (.transmitting tty) a := List.count_pos_iff.mpr member
  obtain ⟨live, notOut, _⟩ := Settled.of_occurs placed occurs
  exact ⟨⟨live, placed.fits _ _ occurs⟩, fun same => notOut (Finset.mem_singleton.mpr same)⟩

theorem Placed.readingQ_nodup (placed : Placed s.toScheduler) (tty : Fin numTerminals) :
    (s.readingQs tty).Nodup :=
  List.nodup_iff_count_le_one.mpr (Settled.occurs_le_one placed (.reading tty))

theorem Placed.transmittingQ_nodup (placed : Placed s.toScheduler) (tty : Fin numTerminals) :
    (s.transmittingQs tty).Nodup :=
  List.nodup_iff_count_le_one.mpr (Settled.occurs_le_one placed (.transmitting tty))

theorem Sound.reads_stay (sound : Sound s) (next : yallnix.step s i t) {a : Addr}
    (other : a ≠ s.currPCB) (reads : s.AwaitsLine tty a) : t.AwaitsLine tty a := by
  obtain ⟨live, point⟩ := reads
  obtain ⟨stays, same, _⟩ := sound.stays next live other
  exact ⟨stays, same ▸ point⟩

theorem Sound.awaits_stay (sound : Sound s) (next : yallnix.step s i t) {a : Addr}
    (other : a ≠ s.currPCB) (awaits : s.AwaitsTransmit tty a) : t.AwaitsTransmit tty a := by
  obtain ⟨live, point⟩ := awaits
  obtain ⟨stays, same, _⟩ := sound.stays next live other
  exact ⟨stays, same ▸ point⟩

theorem Kernel.AwaitsLine.ne_curr {a : Addr} (reads : s.AwaitsLine tty a)
    (outside : ∀ call len, s.cpu ≠ .ttyRead tty call len) : a ≠ s.currPCB := by
  rintro rfl
  obtain ⟨_, call, len, point⟩ := reads
  exact outside call len (s.pos_curr.symm.trans point)

theorem Kernel.AwaitsTransmit.ne_curr {a : Addr} (awaits : s.AwaitsTransmit tty a)
    (outside : ∀ call r0Buf, s.cpu ≠ .ttyWrite tty call r0Buf) : a ≠ s.currPCB := by
  rintro rfl
  obtain ⟨_, call, r0Buf, point⟩ := awaits
  exact outside call r0Buf (s.pos_curr.symm.trans point)

theorem Kernel.Writes.point {call : Call} {r0Buf : List Byte}
    (writes : s.Writes tty i call r0Buf) : s.cpu = .user ∨ s.cpu = .ttyWrite tty call r0Buf := by
  cases writes with
  | enters user => exact .inl user
  | again _ point => exact .inr point

theorem Kernel.MayTransmit.point {call : Call} {r0Buf : List Byte} {bytesTransmitted : Nat}
    (may : s.MayTransmit tty i call r0Buf bytesTransmitted) :
    s.cpu = .user ∨ s.cpu = .ttyWrite tty call r0Buf ∨
      s.cpu = .ttyBatch tty call r0Buf bytesTransmitted := by
  rcases may with ⟨writes, _⟩ | ⟨_, point⟩
  · exact writes.point.imp_right .inl
  · exact .inr (.inr point)

/-- A reader that has left its queue will test a ready line. -/
def Kernel.ReaderWoken (s : Kernel) (tty : Fin numTerminals) : Prop :=
  Woken ((s.buffers tty).isLineReady = true) (s.readingQs tty) (s.AwaitsLine tty)

/-- A writer that has left its queue will test a free terminal. -/
def Kernel.WriterWoken (s : Kernel) (tty : Fin numTerminals) : Prop :=
  Woken (s.currTransmitters tty = none) (s.transmittingQs tty) (s.AwaitsTransmit tty)

/-- A line and a partial read wake a reader, and a reader queues only behind an unready line. -/
theorem Kernel.ReaderWoken.step (woken : s.ReaderWoken tty) (sound : Sound s)
    (next : yallnix.step s i t) (step : TtyStep tty i s t) : t.ReaderWoken tty := by
  have queue : t.readingQs tty = (t.terminal tty).readingQ := rfl
  have line : (t.buffers tty).isLineReady = (t.terminal tty).isLineReady := rfl
  unfold Kernel.ReaderWoken
  rw [queue, line]
  have kept (outside : ∀ call len, s.cpu ≠ .ttyRead tty call len) :
      Woken ((s.buffers tty).isLineReady = true) (s.readingQs tty) (t.AwaitsLine tty) :=
    woken.same id fun a reads => sound.reads_stay next (reads.ne_curr outside) reads
  cases step with
  | passes before _ same _ _ =>
      rw [same]
      refine kept fun call len point => ?_
      rw [point] at before
      simp [Pos.usesTty] at before
  | queues writes _ after _ _ =>
      rw [after]
      refine kept fun call len => ?_
      rcases writes.point with point | point <;> rw [point] <;> intro same <;> cases same
  | sends may _ after _ _ =>
      rw [after]
      refine kept fun call len => ?_
      rcases may.point with point | point | point <;> rw [point] <;> intro same <;> cases same
  | ends may _ after _ _ =>
      rw [after]
      refine kept fun call len => ?_
      rcases may.point with point | point | point <;> rw [point] <;> intro same <;> cases same
  | interrupt _ user _ after _ _ =>
      rw [after]
      refine kept fun call len => ?_
      rw [user]
      intro same
      cases same
  | waits _ _ _ unready after _ _ =>
      rw [after]
      intro ready
      exact Bool.noConfusion (unready.symm.trans ready)
  | takes ready _ _ after _ _ =>
      rw [after]
      cases ready with
      | false => exact fun ready => Bool.noConfusion ready
      | true =>
          refine .dequeue (sound.placed.readingQ_nodup tty) fun a member => ?_
          obtain ⟨reads, other⟩ := sound.placed.reading member
          exact sound.reads_stay next other reads

/-- The end of a write wakes a writer, and a writer queues only behind a taken terminal. -/
theorem Kernel.WriterWoken.step (woken : s.WriterWoken tty) (sound : Sound s)
    (next : yallnix.step s i t) (step : TtyStep tty i s t) : t.WriterWoken tty := by
  have queue : t.transmittingQs tty = (t.terminal tty).transmittingQ := rfl
  have slot : t.currTransmitters tty = (t.terminal tty).currTransmitter := rfl
  unfold Kernel.WriterWoken
  rw [queue, slot]
  have kept (outside : ∀ call r0Buf, s.cpu ≠ .ttyWrite tty call r0Buf) :
      Woken (s.currTransmitters tty = none) (s.transmittingQs tty) (t.AwaitsTransmit tty) :=
    woken.same id fun a awaits => sound.awaits_stay next (awaits.ne_curr outside) awaits
  cases step with
  | passes before _ same _ _ =>
      rw [same]
      refine kept fun call len point => ?_
      rw [point] at before
      simp [Pos.usesTty] at before
  | queues _ busy after _ _ =>
      rw [after]
      exact fun free => absurd free busy
  | sends _ _ after _ _ =>
      rw [after]
      intro free
      cases free
  | ends _ _ after _ _ =>
      rw [after]
      refine .dequeue (sound.placed.transmittingQ_nodup tty) fun a member => ?_
      obtain ⟨awaits, other⟩ := sound.placed.transmittingQ member
      exact sound.awaits_stay next other awaits
  | interrupt _ user _ after _ _ =>
      rw [after]
      refine kept fun call r0Buf => ?_
      rw [user]
      intro same
      cases same
  | waits _ _ reads _ after _ _ =>
      rw [after]
      refine kept fun call r0Buf => ?_
      rcases reads with user | point
      · rw [user]
        intro same
        cases same
      · rw [point]
        intro same
        cases same
  | takes ready _ reads after _ _ =>
      rw [after]
      refine kept fun call r0Buf => ?_
      rcases reads with user | ⟨_, _, point⟩
      · rw [user]
        intro same
        cases same
      · rw [point]
        intro same
        cases same

end

section
attribute [local instance] smallHardware

end

end Yallnix

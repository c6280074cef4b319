import Yallnix.Construction.SmallMachine
import Yallnix.Proof.Reachability

namespace Yallnix

section
variable [Hardware]

/-- A live process runs, waits for its own transmission or lies in a container. -/
inductive Residence where
  | running
  | inside (place : Place)
  | transmitter (tty : Fin numTerminals)
  deriving DecidableEq

/-- The number of times that a process is in a place. -/
def Scheduler.timesIn (s : Scheduler) : Residence → Addr → Nat
  | .running, a => if a = s.currPCB then 1 else 0
  | .inside place, a => s.occurs place a
  | .transmitter tty, a => if s.currTransmitters tty = some a then 1 else 0

/-- Each live process is in one place once, each map entry has the pid of its process as key,
and a process that is not live is nowhere. -/
structure Scheduler.Resides (s : Scheduler) : Prop where
  once : ∀ a ∈ s.live, ∃ home, ∀ place, s.timesIn place a = if place = home then 1 else 0
  nowhere : ∀ a, a ∉ s.live → ∀ place, s.timesIn place a = 0
  blockedKey : ∀ node ∈ s.blockedMap.entries, node.1 = (s.pcbs node.2).pid
  sleepingKey : ∀ node ∈ s.sleepingMap.entries, node.1 = (s.pcbs node.2).pid

theorem Pos.isBatch_iff {k : Pos} : k.isBatch = true ↔ ∃ tty, k.Transmits tty := by
  constructor
  · intro batch
    cases k with
    | ttyBatch tty call r0Buf bytesTransmitted => exact ⟨tty, call, r0Buf, _, rfl⟩
    | _ => cases batch
  · rintro ⟨_, _, _, _, rfl⟩
    rfl

theorem Pos.Transmits.unique {k : Pos} {tty other : Fin numTerminals} (one : k.Transmits tty)
    (two : k.Transmits other) : tty = other := by
  obtain ⟨_, _, _, rfl⟩ := one
  obtain ⟨_, _, _, same⟩ := two
  cases same
  rfl

/-- The running process is in no container and in no transmitter slot. -/
theorem Placed.running {s : Scheduler} (placed : Placed s) (busy : s.cpu.isBatch = false)
    (place : Residence) :
    s.timesIn place s.currPCB = if place = .running then 1 else 0 := by
  cases place with
  | running => simp [Scheduler.timesIn]
  | inside place =>
      have out := placed.absent s.currPCB
        (fun _ notOut => absurd (Finset.mem_singleton_self _) notOut) place
      simpa [Scheduler.timesIn] using out
  | transmitter tty =>
      have free : s.currTransmitters tty ≠ some s.currPCB := by
        intro slot
        obtain ⟨_, transmits⟩ := (placed.transmitter tty _).mp slot
        rw [s.pos_curr] at transmits
        rw [Pos.isBatch_iff.mpr ⟨tty, transmits⟩] at busy
        cases busy
      simp [Scheduler.timesIn, free]

/-- A process that transmits is in its transmitter slot only. -/
theorem Placed.transmits {s : Scheduler} (placed : Placed s) {a : Addr} (live : a ∈ s.live)
    (other : a ≠ s.currPCB) {tty : Fin numTerminals} (transmits : (s.pos a).Transmits tty)
    (place : Residence) :
    s.timesIn place a = if place = .transmitter tty then 1 else 0 := by
  cases place with
  | running => simp [Scheduler.timesIn, other]
  | inside place =>
      have out := placed.absent a (fun _ _ => Pos.isBatch_iff.mpr ⟨tty, transmits⟩) place
      simpa [Scheduler.timesIn] using out
  | transmitter slot =>
      by_cases same : slot = tty
      · subst same
        have here := (placed.transmitter slot a).mpr ⟨live, transmits⟩
        simp [Scheduler.timesIn, here]
      · have free : s.currTransmitters slot ≠ some a := fun here =>
          same (((placed.transmitter slot a).mp here).2.unique transmits)
        simp [Scheduler.timesIn, free, same]

/-- A process that does not transmit lies in one container. -/
theorem Placed.contained {s : Scheduler} (placed : Placed s) {a : Addr} (live : a ∈ s.live)
    (other : a ≠ s.currPCB) (quiet : (s.pos a).isBatch = false) :
    ∃ home, ∀ place, s.timesIn place a = if place = .inside home then 1 else 0 := by
  obtain ⟨home, only⟩ := placed.resident a live (by simpa using other) quiet
  refine ⟨home, fun place => ?_⟩
  cases place with
  | running => simp [Scheduler.timesIn, other]
  | inside place => simp [Scheduler.timesIn, only]
  | transmitter tty =>
      have free : s.currTransmitters tty ≠ some a := by
        intro slot
        rw [Pos.isBatch_iff.mpr ⟨tty, ((placed.transmitter tty a).mp slot).2⟩] at quiet
        cases quiet
      simp [Scheduler.timesIn, free]

/-- In user mode every live process of a reachable kernel is in one place once. -/
theorem reachable_resides {s : Kernel} (reachable : yallnix.Reachable s) (user : s.cpu = .user) :
    s.toScheduler.Resides := by
  have placed := (reachable_sound reachable).placed
  refine ⟨fun a live => ?_, fun a gone place => ?_, placed.blockedKey, placed.sleepingKey⟩
  · by_cases same : a = s.currPCB
    · subst same
      exact ⟨.running, placed.running (by rw [user]; rfl)⟩
    · cases batch : (s.pos a).isBatch with
      | true =>
          obtain ⟨tty, transmits⟩ := Pos.isBatch_iff.mp batch
          exact ⟨.transmitter tty, placed.transmits live same transmits⟩
      | false =>
          obtain ⟨home, only⟩ := placed.contained live same batch
          exact ⟨.inside home, only⟩
  · cases place with
    | running =>
        refine if_neg ?_
        rintro rfl
        exact gone placed.live
    | inside place => exact placed.absent a (fun live => absurd live gone) place
    | transmitter tty => exact if_neg fun slot => gone ((placed.transmitter tty a).mp slot).1

end

section
attribute [local instance] smallHardware

/-- A child runs in user mode while its parent is ready. -/
theorem smallRun_resides :
    ∃ s : Kernel, yallnix.Reachable s ∧ s.readyQ = [0, 1] ∧ s.toScheduler.Resides := by
  obtain ⟨s, reachable, tested⟩ := exists_reachable
    (fun s => s.cpu.isUser && s.readyQ = [0, 1]) [forks 2, goesOn] (by decide +kernel)
  rw [Bool.and_eq_true, decide_eq_true_eq] at tested
  exact ⟨s, reachable, tested.2, reachable_resides reachable (isUser_iff.mp tested.1)⟩

end

end Yallnix

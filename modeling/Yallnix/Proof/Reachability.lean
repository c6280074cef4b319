import Yallnix.Construction.KernelStart
import Yallnix.Proof.FamilyInvariant
import Yallnix.Proof.Refinement

namespace Yallnix

section
variable [Hardware]

/-- The scheduler that `KernelStart` leaves has two processes, and `init` runs. -/
structure Booted (idle init : Addr) (s : Scheduler) : Prop where
  distinct : idle ≠ init
  currPCB : s.currPCB = init
  cpu : s.cpu = .user
  idlePCB : s.idlePCB = idle
  nextPid : s.nextPid = 2
  readyQ : s.readyQ = [idle]
  blockedMap : s.blockedMap.entries = []
  sleepingMap : s.sleepingMap.entries = []
  currTransmitters : ∀ tty, s.currTransmitters tty = none
  transmittingQs : ∀ tty, s.transmittingQs tty = []
  readingQs : ∀ tty, s.readingQs tty = []
  transmitting : ∀ tty, s.transmitting tty = false
  live : s.live = {init, idle}
  allocated : s.live ⊆ s.allocated
  log : s.log = []
  idlePid : (s.pcbs idle).pid = 0
  idleKctxt : (s.pcbs idle).kctxt = none
  initPid : (s.pcbs init).pid = 1
  halting : s.initPid = 1
  parent : ∀ a ∈ s.live, (s.pcbs a).parent = none
  zombieQ : ∀ a ∈ s.live, (s.pcbs a).zombieQ = none
  childrenMap : ∀ a ∈ s.live, (s.pcbs a).childrenMap.entries = []

theorem loadIdle_same {idlePCB result : PCB} {frames after : FrameList} {code : Int}
    (done : loadIdle idlePCB frames = .ok (code, result, after)) :
    SameProcess idlePCB result := by
  unfold loadIdle at done
  split at done
  · cases done
    exact .refl idlePCB
  · obtain ⟨table, _, done⟩ := Outcome.bind_eq_ok.mp done
    cases done
    exact ⟨rfl, rfl, rfl, rfl, rfl, rfl⟩

theorem startProcesses_booted {boot : Boot} {frames : FrameList} {r0PageTable : PageTable}
    {s : Scheduler}
    (done : startProcesses boot (initScheduler boot frames r0PageTable) = .ok s) :
    Booted boot.idlePCB boot.initPCB s := by
  unfold startProcesses at done
  cases made : initPCB boot.idlePCB boot.junk (initScheduler boot frames r0PageTable) with
  | mk code u =>
  obtain ⟨apart, nextPid, _, succeeds⟩ := initPCB_apart (Finset.notMem_empty _) made
  simp only [initProcess, made] at done
  by_cases failed : code = errorCode
  · simp only [if_pos failed] at done
    cases done
  obtain ⟨rfl, allocated, pid, zombieQ, children, parent, kctxt⟩ := succeeds.resolve_left failed
  simp only [if_neg failed] at done
  generalize started : ({ u with
    readyQ := enqQ u.readyQ boot.idlePCB
    live := insert boot.idlePCB u.live } : Scheduler) = v at done
  obtain ⟨⟨code, idle, left⟩, loaded, done⟩ := Outcome.bind_eq_ok.mp done
  have sameIdle := loadIdle_same loaded
  dsimp only at done
  split at done
  · cases done
  generalize kept : ({ v.updatePcb boot.idlePCB fun _ => idle with frameList := left } :
    Scheduler) = w at done
  have idlePcb : w.pcbs boot.idlePCB = idle := by
    rw [← kept]
    exact Function.update_self _ _ _
  obtain ⟨⟨status, init, rest⟩, loaded, done⟩ := Outcome.bind_eq_ok.mp done
  have sameInit := loadProgram_same loaded
  simp only [initInitProcess, Scheduler.updatePcb, Function.update_self] at sameInit
  dsimp only at done
  split at done
  · cases done
  cases done
  have distinct := boot.distinct
  have atIdle : (Function.update (initInitProcess boot.initPCB w).pcbs boot.initPCB init)
      boot.idlePCB = idle := by
    rw [Function.update_of_ne distinct]
    simp only [initInitProcess, Scheduler.updatePcb]
    rw [Function.update_of_ne distinct, idlePcb]
  have atInit : (Function.update (initInitProcess boot.initPCB w).pcbs boot.initPCB init)
      boot.initPCB = init := Function.update_self _ _ _
  have next : w.nextPid = 1 := by
    rw [← kept, ← started]
    exact nextPid
  have live : insert boot.initPCB w.live = {boot.initPCB, boot.idlePCB} := by
    rw [← kept, ← started]
    change insert boot.initPCB (insert boot.idlePCB u.live) = _
    rw [apart.live]
    rfl
  have both (field : PCB → Prop) (ofIdle : field idle) (ofInit : field init) :
      ∀ a ∈ insert boot.initPCB w.live, field ((Function.update
        (initInitProcess boot.initPCB w).pcbs boot.initPCB init) a) := by
    intro a member
    rw [live, Finset.mem_insert, Finset.mem_singleton] at member
    rcases member with rfl | rfl
    · rw [atInit]
      exact ofInit
    · rw [atIdle]
      exact ofIdle
  refine {
    distinct := distinct
    currPCB := rfl
    cpu := rfl
    idlePCB := ?_
    nextPid := ?_
    readyQ := ?_
    blockedMap := ?_
    sleepingMap := ?_
    currTransmitters := ?_
    transmittingQs := ?_
    readingQs := ?_
    transmitting := ?_
    live := live
    allocated := ?_
    log := ?_
    idlePid := ?_
    idleKctxt := ?_
    initPid := ?_
    halting := next
    parent := both (fun pcb => pcb.parent = none) (sameIdle.parent.trans parent)
      sameInit.parent
    zombieQ := both (fun pcb => pcb.zombieQ = none) (sameIdle.zombieQ.trans zombieQ)
      sameInit.zombieQ
    childrenMap := both (fun pcb => pcb.childrenMap.entries = []) ?_ ?_ }
  · change w.idlePCB = _
    rw [← kept, ← started]
    exact apart.idlePCB
  · change w.nextPid + 1 = 2
    rw [next]
    rfl
  · change w.readyQ = _
    rw [← kept, ← started]
    change enqQ u.readyQ boot.idlePCB = _
    rw [apart.readyQ]
    rfl
  · change w.blockedMap.entries = []
    rw [← kept, ← started]
    change u.blockedMap.entries = []
    rw [apart.blockedMap]
    exact HashMap.entries_new blockedMapHashBuckets blockedMapHashBuckets_pos
  · change w.sleepingMap.entries = []
    rw [← kept, ← started]
    change u.sleepingMap.entries = []
    rw [apart.sleepingMap]
    exact HashMap.entries_new blockedMapHashBuckets blockedMapHashBuckets_pos
  · intro tty
    change w.currTransmitters tty = none
    rw [← kept, ← started]
    exact congrFun apart.currTransmitters tty
  · intro tty
    change w.transmittingQs tty = []
    rw [← kept, ← started]
    exact congrFun apart.transmittingQs tty
  · intro tty
    change w.readingQs tty = []
    rw [← kept, ← started]
    exact congrFun apart.readingQs tty
  · intro tty
    change w.transmitting tty = false
    rw [← kept, ← started]
    exact congrFun apart.transmitting tty
  · change insert boot.initPCB w.live ⊆ insert boot.initPCB w.allocated
    refine Finset.insert_subset_insert _ ?_
    rw [← kept, ← started]
    change insert boot.idlePCB u.live ⊆ u.allocated
    rw [apart.live]
    exact Finset.singleton_subset_iff.mpr allocated
  · change w.log = []
    rw [← kept, ← started]
    exact apart.log
  · exact (congrArg PCB.pid atIdle).trans (sameIdle.pid.trans pid)
  · exact (congrArg PCB.kctxt atIdle).trans (sameIdle.kctxt.trans kctxt)
  · exact (congrArg PCB.pid atInit).trans (sameInit.pid.trans next)
  · rw [sameIdle.childrenMap, children]
  · rw [sameInit.childrenMap]
    exact HashMap.entries_new childrenMapHashBuckets childrenMapHashBuckets_pos

theorem Booted.occurs {idle init : Addr} {s : Scheduler} (booted : Booted idle init s)
    (place : Place) (a : Addr) :
    s.occurs place a = if place = .ready ∧ a = idle then 1 else 0 := by
  cases place <;>
    simp [Scheduler.occurs, HashMap.items, booted.readyQ, booted.blockedMap, booted.sleepingMap,
      booted.transmittingQs, booted.readingQs, count_single]

theorem Booted.pos {idle init a : Addr} {s : Scheduler} (booted : Booted idle init s)
    (live : a ∈ s.live) : s.pos a = if a = init then .user else .starter := by
  rw [booted.live, Finset.mem_insert, Finset.mem_singleton] at live
  rw [Scheduler.pos, booted.currPCB, booted.cpu]
  rcases live with rfl | rfl
  · rw [if_pos rfl, if_pos rfl]
  · rw [if_neg booted.distinct, if_neg booted.distinct, booted.idleKctxt]
    rfl

/-- A booted kernel has every live process in one place. -/
theorem Booted.placed {idle init : Addr} {s : Scheduler} (booted : Booted idle init s) :
    Placed s := by
  have members (a : Addr) : a ∈ s.live ↔ a = init ∨ a = idle := by
    rw [booted.live, Finset.mem_insert, Finset.mem_singleton]
  have plain (a : Addr) (live : a ∈ s.live) : (s.pos a).isIdle = true := by
    rw [booted.pos live]
    split <;> rfl
  have noBatch (a : Addr) (live : a ∈ s.live) : (s.pos a).isBatch = false := by
    rw [booted.pos live]
    split <;> rfl
  refine {
    outLive := ?_
    allocated := booted.allocated
    pidUsed := ?_
    pidDistinct := ?_
    resident := ?_
    absent := ?_
    fits := ?_
    blockedKey := by simp [booted.blockedMap]
    sleepingKey := by simp [booted.sleepingMap]
    transmitter := ?_
    transmission := ?_
    idleLive := ?_
    idlePos := ?_ }
  · rw [Finset.singleton_subset_iff, members, booted.currPCB]
    exact .inl rfl
  · intro a live
    rw [booted.nextPid]
    rcases (members a).mp live with rfl | rfl
    · rw [booted.initPid]
      decide
    · rw [booted.idlePid]
      decide
  · intro a liveA b liveB same
    rcases (members a).mp liveA with rfl | rfl <;> rcases (members b).mp liveB with rfl | rfl
    · rfl
    · rw [booted.initPid, booted.idlePid] at same
      cases same
    · rw [booted.initPid, booted.idlePid] at same
      cases same
    · rfl
  · intro a live notOut _
    have isIdle : a = idle := ((members a).mp live).resolve_left fun same =>
      notOut (Finset.mem_singleton.mpr (same.trans booted.currPCB.symm))
    refine ⟨.ready, fun other => ?_⟩
    rw [booted.occurs]
    simp [isIdle]
  · intro a out place
    rw [booted.occurs, if_neg]
    rintro ⟨_, rfl⟩
    have live := (members a).mpr (.inr rfl)
    have batch := out live (by
      rw [Finset.mem_singleton, booted.currPCB]
      exact booted.distinct)
    rw [noBatch a live] at batch
    cases batch
  · intro place a inside
    rw [booted.occurs] at inside
    split at inside
    · rename_i ready
      rw [ready.1]
      trivial
    · exact absurd inside (by decide)
  · intro tty a
    rw [booted.currTransmitters]
    constructor
    · intro absurd
      cases absurd
    · rintro ⟨live, _, _, _, transmits⟩
      have batch := noBatch a live
      rw [transmits] at batch
      cases batch
  · intro tty busy
    rw [booted.transmitting] at busy
    cases busy
  · rw [members, booted.idlePCB]
    exact .inr rfl
  · exact plain _ ((members _).mpr (.inr booted.idlePCB))

/-- A fresh abstract kernel has no sync objects and no history. -/
structure View.Fresh (v : View) : Prop where
  log : v.log = []
  blocked : v.blocked = ∅
  plain : ∀ a ∈ v.live, (v.proc a).pos.isPlain = true
  parent : ∀ a ∈ v.live, (v.proc a).parent = none
  children : ∀ a ∈ v.live, (v.proc a).children = ∅
  zombies : ∀ a ∈ v.live, (v.proc a).zombies = []
  nextSyncId : v.nextSyncId = 0
  lockIds : v.lockIds = ∅
  cvarIds : v.cvarIds = ∅
  pipeIds : v.pipeIds = ∅
  locks : ∀ l, v.locks l = none
  cvars : ∀ c, v.cvars c = none
  pipes : ∀ p, v.pipes p = none

/-- These facts hold between any two inputs. -/
structure Sound (s : Kernel) : Prop where
  placed : Placed s.toScheduler
  named : Named s.toSyncObjects
  family : Family s.crowd
  carries : ∀ a ∈ s.live, (s.pos a).carriesCall = true

theorem kernelStart_fresh {boot : Boot} {s : Kernel} (done : kernelStart boot = .ok s) :
    Sound s ∧ s.view.Fresh ∧ Booted boot.idlePCB boot.initPCB s.toScheduler := by
  unfold kernelStart at done
  obtain ⟨⟨frames, r0PageTable⟩, _, done⟩ := Outcome.bind_eq_ok.mp done
  obtain ⟨scheduler, started, done⟩ := Outcome.bind_eq_ok.mp done
  have booted := startProcesses_booted started
  cases done
  have placed := booted.placed
  have plain (a : Addr) (live : a ∈ scheduler.live) : (scheduler.pos a).isPlain = true := by
    rw [booted.pos live]
    split <;> rfl
  have noEntries (key : Int) : key ∉ (hashMapNew (A := ObjPtr) syncMapHashBuckets
      syncMapHashBuckets_pos).keys := by
    rw [HashMap.keys, HashMap.entries_new]
    exact List.not_mem_nil
  have children (a : Addr) (live : a ∈ scheduler.live) :
      (scheduler.crowd.proc a).children = ∅ := by
    change {node | node ∈ (scheduler.pcbs a).childrenMap.entries} = ∅
    rw [booted.childrenMap a live]
    exact Set.eq_empty_of_forall_notMem fun _ => List.not_mem_nil
  refine ⟨⟨placed, ?_, ?_, fun a live => Pos.isPlain_carriesCall (plain a live)⟩, ?_, booted⟩
  · exact ⟨names_new, names_new, names_new⟩
  · refine ⟨fun a live => (placed.pidUsed a live).2, placed.pidDistinct, ?_, ?_⟩
    · intro a live q parent
      rw [show (scheduler.crowd.proc a).parent = none from booted.parent a live] at parent
      cases parent
    · intro a live node member
      rw [children a live] at member
      exact absurd member (Set.notMem_empty node)
  · refine {
      log := booted.log
      blocked := ?_
      plain := plain
      parent := booted.parent
      children := children
      zombies := ?_
      nextSyncId := rfl
      lockIds := Set.eq_empty_of_forall_notMem noEntries
      cvarIds := Set.eq_empty_of_forall_notMem noEntries
      pipeIds := Set.eq_empty_of_forall_notMem noEntries
      locks := fun _ => rfl
      cvars := fun _ => rfl
      pipes := fun _ => rfl }
    · refine Set.eq_empty_of_forall_notMem fun a member => ?_
      change a ∈ scheduler.blockedMap.items at member
      rw [HashMap.items, booted.blockedMap] at member
      exact List.not_mem_nil member
    · intro a live
      change (scheduler.pcbs a).zombieQ.getD makeQ = []
      rw [booted.zombieQ a live]
      rfl

/-- A step of the abstract kernel keeps the invariants. -/
theorem Sound.refines {s t : Kernel} (sound : Sound s) (act : Option Call)
    (refines : Refines act s t) : Sound t := by
  have live := sound.placed.live
  have carries := sound.carries s.currPCB live
  have step := refines.step
  refine ⟨refines.placed, refines.named, sound.family.step live step.family, ?_⟩
  intro a inside
  by_cases same : a = s.currPCB
  · subst same
    exact (step.carries live carries).resolve_left (fun gone => gone inside)
  · rcases step.family.live inside with old | ⟨_, _, point⟩
    · have kept := (step.family.other old same).2.1
      change (t.view.proc a).pos.carriesCall = true
      rw [kept]
      exact sound.carries a old
    · change (t.view.proc a).pos.carriesCall = true
      rw [point]
      rfl

/-- One answered input keeps the invariants and is a step of the abstract kernel. -/
theorem Sound.step {s t : Kernel} (sound : Sound s) {i : Input} (next : yallnix.step s i t) :
    Sound t ∧ s.view.Step s.currPCB t.currPCB i.act t.view := by
  obtain ⟨ready, done⟩ := next
  have carries := sound.carries s.currPCB sound.placed.live
  have refines := handle_refines sound.placed sound.named sound.family
    (by rwa [s.pos_curr] at carries) ready done
  exact ⟨sound.refines _ refines, refines.step⟩

theorem reachable_sound {s : Kernel} (reachable : yallnix.Reachable s) : Sound s :=
  reachable.invariant (fun _ ⟨_, done⟩ => (kernelStart_fresh done).1)
    (fun _ _ _ sound _ next => (sound.step next).1)

/-- A property of the abstract kernel holds in a run if every guarded abstract step keeps it. -/
theorem run_invariant {guard : Kernel → Input → Prop} (inv : Kernel → Prop)
    (first : ∀ s, Sound s → s.view.Fresh → s.cpu = .user → inv s)
    (keeps : ∀ s i t, Sound s → Sound t → inv s → guard s i → enabled s i = true →
      s.view.Step s.currPCB t.currPCB i.act t.view → inv t)
    {s : Kernel} (run : yallnix.Run guard s) : inv s := by
  refine run.invariant_of_reachable (fun _ => reachable_sound) ?_ ?_
  · rintro s ⟨boot, done⟩
    obtain ⟨sound, fresh, booted⟩ := kernelStart_fresh done
    exact first s sound fresh booted.cpu
  · intro s i t sound holds meets next
    obtain ⟨after, step⟩ := sound.step next
    exact keeps s i t sound after holds meets next.1 step

end

end Yallnix

import Yallnix.Proof.LockExclusion
import Yallnix.Proof.PcbFrame
import Yallnix.Proof.WakeMatch

namespace Yallnix

section
variable [Hardware]

/-- A log of forks and exits names the forker of every process but the two founders, and a forker
that did not exit still has the child in its map. -/
structure Crowd.Lineage (founders : Addr × Int) (c : Crowd) : Prop where
  forked : ∀ a ∈ c.live, a = founders.1 ∨ (c.proc a).pid = founders.2 ∨
    ∃ parent, .forked parent (c.proc a).pid ∈ c.log
  exited : ∀ child status, .exited child status ∈ c.log → ∃ parent, .forked parent child ∈ c.log
  recorded : ∀ parent child, .forked parent child ∈ c.log → 0 ≤ parent ∧ parent < child ∧
    ((∃ a ∈ c.live, (c.proc a).pid = parent ∧ ∃ b, (child, b) ∈ (c.proc a).children) ∨
      ∃ status, .exited parent status ∈ c.log)
  gone : ∀ child status, .exited child status ∈ c.log →
    child < c.nextPid ∧ ∀ a ∈ c.live, (c.proc a).pid ≠ child

namespace Crowd.Lineage

variable {p next : Addr} {c d : Crowd} {founders : Addr × Int}

/-- A step without a fork or an exit keeps the lineage. -/
theorem same (lineage : c.Lineage founders) (live : d.live = c.live)
    (nextPid : c.nextPid ≤ d.nextPid) (pid : ∀ a ∈ c.live, (d.proc a).pid = (c.proc a).pid)
    (children : ∀ a ∈ c.live, (d.proc a).children = (c.proc a).children)
    (forks : ∀ parent child, .forked parent child ∈ d.log ↔ .forked parent child ∈ c.log)
    (exits : ∀ child status, .exited child status ∈ d.log ↔ .exited child status ∈ c.log) :
    d.Lineage founders where
  forked a inside := by
    rw [live] at inside
    simp only [pid a inside, forks]
    exact lineage.forked a inside
  exited child status member := by
    simp only [forks]
    exact lineage.exited child status ((exits child status).mp member)
  recorded parent child member := by
    obtain ⟨low, older, known⟩ := lineage.recorded parent child ((forks parent child).mp member)
    refine ⟨low, older, known.imp ?_ ?_⟩
    · rintro ⟨a, inside, same, b, entry⟩
      exact ⟨a, live ▸ inside, (pid a inside).trans same, b, (children a inside).symm ▸ entry⟩
    · rintro ⟨status, gone⟩
      exact ⟨status, (exits parent status).mpr gone⟩
  gone child status member := by
    obtain ⟨below, absent⟩ := lineage.gone child status ((exits child status).mp member)
    refine ⟨below.trans_le nextPid, fun a inside => ?_⟩
    rw [live] at inside
    rw [pid a inside]
    exact absent a inside

theorem keeps (lineage : c.Lineage founders) (keeps : c.Keeps p d) : d.Lineage founders := by
  obtain ⟨events, log, silent⟩ := keeps.log
  have kept {event : Event} (family : event.isFamily = true) : event ∈ d.log ↔ event ∈ c.log := by
    rw [log, List.mem_append, or_iff_right]
    intro member
    cases family.symm.trans (silent event member)
  exact lineage.same keeps.live keeps.nextPid.ge (fun a _ => keeps.pid a)
    (fun a _ => keeps.children a) (fun _ _ => kept rfl) (fun _ _ => kept rfl)

theorem forkFailed (lineage : c.Lineage founders) {child : Addr} {junk : Proc}
    (fresh : child ∉ c.live) :
    ({ c.update child fun _ => junk with nextPid := c.nextPid + 1 } : Crowd).Lineage founders := by
  refine lineage.same rfl (Int.le_add_one (le_refl _)) (fun a inside => ?_) (fun a inside => ?_)
    (fun _ _ => Iff.rfl) (fun _ _ => Iff.rfl)
  · exact congrArg Proc.pid (Crowd.update_fresh fresh junk inside)
  · exact congrArg Proc.children (Crowd.update_fresh fresh junk inside)

theorem collect (lineage : c.Lineage founders) (zombie : Zombie) (rest : Queue Zombie) :
    ((c.update p fun proc => { proc with zombies := rest }).record
      (.waited (c.proc p).pid zombie.pid zombie.exitStatus)).Lineage founders := by
  refine lineage.same rfl (le_refl _) (fun a _ => ?_) (fun a _ => ?_) (fun parent child => ?_)
    (fun child status => ?_)
  · rw [Crowd.record_proc, Crowd.update_proc, Crowd.update_zombies]
  · rw [Crowd.record_proc, Crowd.update_proc, Crowd.update_zombies]
  · simp
  · simp

theorem fork (lineage : c.Lineage founders) (family : Family c) (runs : p ∈ c.live)
    (low : 0 ≤ (c.proc p).pid) {child : Addr} (fresh : child ∉ c.live) :
    (c.fork p child).Lineage founders := by
  have old : ∀ a ∈ c.live, a ≠ child := fun a inside same => fresh (same ▸ inside)
  have forks (parent other : Int) : .forked parent other ∈ (c.fork p child).log ↔
      (parent = (c.proc p).pid ∧ other = c.nextPid) ∨ .forked parent other ∈ c.log := by
    simp [Crowd.fork]
  have exits (other status : Int) : .exited other status ∈ (c.fork p child).log ↔
      .exited other status ∈ c.log := by
    simp [Crowd.fork]
  constructor
  · intro a inside
    simp only [forks]
    rcases Finset.mem_insert.mp inside with rfl | inside
    · rw [Family.fork_child]
      exact .inr (.inr ⟨_, .inl ⟨rfl, rfl⟩⟩)
    · rw [Family.fork_proc p (old a inside)]
      refine (lineage.forked a inside).imp_right (Or.imp_right ?_)
      rintro ⟨parent, forked⟩
      exact ⟨parent, .inr forked⟩
  · intro other status member
    obtain ⟨parent, forked⟩ := lineage.exited other status ((exits other status).mp member)
    exact ⟨parent, (forks parent other).mpr (.inr forked)⟩
  · intro parent other member
    rcases (forks parent other).mp member with ⟨rfl, rfl⟩ | member
    · refine ⟨low, family.pidUsed p runs, .inl ⟨p, Finset.mem_insert_of_mem runs, ?_, child, ?_⟩⟩
      · rw [Family.fork_proc p (old p runs)]
      · rw [Family.fork_proc p (old p runs)]
        dsimp only
        rw [if_pos rfl]
        exact Set.mem_insert _ _
    · obtain ⟨nonneg, older, known⟩ := lineage.recorded parent other member
      refine ⟨nonneg, older, known.imp ?_ ?_⟩
      · rintro ⟨a, inside, same, b, entry⟩
        refine ⟨a, Finset.mem_insert_of_mem inside, ?_, b, ?_⟩
        · rw [Family.fork_proc p (old a inside)]
          exact same
        · rw [Family.fork_proc p (old a inside)]
          dsimp only
          split
          · exact Set.mem_insert_of_mem _ entry
          · exact entry
      · rintro ⟨status, gone⟩
        exact ⟨status, (exits parent status).mpr gone⟩
  · intro other status member
    obtain ⟨below, absent⟩ := lineage.gone other status ((exits other status).mp member)
    refine ⟨below.trans (Int.lt_succ _), fun a inside => ?_⟩
    rcases Finset.mem_insert.mp inside with rfl | inside
    · rw [Family.fork_child]
      exact below.ne'
    · rw [Family.fork_proc p (old a inside)]
      exact absent a inside

/-- A process that exits is no founder, so its forker is known. -/
theorem exit (lineage : c.Lineage founders) (family : Family c) (runs : p ∈ c.live)
    (founder : p ≠ founders.1 ∧ (c.proc p).pid ≠ founders.2) {status : Int} {junk : Proc}
    (reports : c.Reports p status d) :
    (((d.disown (c.proc p).children).remove p junk).record
      (.exited (c.proc p).pid status)).Lineage founders := by
  obtain ⟨live, nextPid⟩ := reports.keeps
  have reported : Crowd.Writes (fun event => event.isFamily = false) c d :=
    reports.writes fun _ => rfl
  obtain ⟨events, log, silent⟩ := reported
  have members (a : Addr) : a ∈ d.live.erase p ↔ a ≠ p ∧ a ∈ c.live := by
    rw [live]
    exact Finset.mem_erase
  have kept {event : Event} (isFamily : event.isFamily = true) :
      event ∈ (((d.disown (c.proc p).children).remove p junk).record
        (.exited (c.proc p).pid status)).log ↔
      event = .exited (c.proc p).pid status ∨ event ∈ c.log := by
    change event ∈ Event.exited (c.proc p).pid status :: d.log ↔ _
    rw [List.mem_cons, log, List.mem_append, or_iff_right (a := event ∈ events)]
    intro member
    cases isFamily.symm.trans (silent event member)
  constructor
  · intro a inside
    obtain ⟨other, liveA⟩ := (members a).mp inside
    rw [Crowd.exit_proc reports other]
    refine (lineage.forked a liveA).imp_right (Or.imp_right ?_)
    rintro ⟨parent, forked⟩
    exact ⟨parent, (kept rfl).mpr (.inr forked)⟩
  · intro child other member
    have forked : ∃ parent, .forked parent child ∈ c.log := by
      rcases (kept rfl).mp member with same | member
      · obtain ⟨rfl, rfl⟩ := Event.exited.inj same
        exact ((lineage.forked p runs).resolve_left founder.1).resolve_left founder.2
      · exact lineage.exited child other member
    obtain ⟨parent, forked⟩ := forked
    exact ⟨parent, (kept rfl).mpr (.inr forked)⟩
  · intro parent child member
    have member := ((kept rfl).mp member).resolve_left (by simp)
    obtain ⟨low, older, known⟩ := lineage.recorded parent child member
    refine ⟨low, older, ?_⟩
    rcases known with ⟨a, inside, same, b, entry⟩ | ⟨other, gone⟩
    · by_cases isP : a = p
      · subst isP
        exact .inr ⟨status, (kept rfl).mpr (.inl (by rw [same]))⟩
      · refine .inl ⟨a, (members a).mpr ⟨isP, inside⟩, ?_, b, ?_⟩
        · rw [Crowd.exit_proc reports isP]
          exact same
        · rw [Crowd.exit_proc reports isP]
          exact entry
    · exact .inr ⟨other, (kept rfl).mpr (.inr gone)⟩
  · intro child other member
    have gone : child < c.nextPid ∧ ∀ a ∈ c.live, a ≠ p → (c.proc a).pid ≠ child := by
      rcases (kept rfl).mp member with same | member
      · obtain ⟨rfl, rfl⟩ := Event.exited.inj same
        refine ⟨family.pidUsed p runs, fun a inside differs same => differs ?_⟩
        exact family.pidDistinct a inside p runs same
      · obtain ⟨below, absent⟩ := lineage.gone child other member
        exact ⟨below, fun a inside _ => absent a inside⟩
    refine ⟨?_, fun a inside => ?_⟩
    · change child < d.nextPid
      rw [nextPid]
      exact gone.1
    · obtain ⟨differs, liveA⟩ := (members a).mp inside
      rw [Crowd.exit_proc reports differs]
      exact gone.2 a liveA differs

theorem step (lineage : c.Lineage founders) (family : Family c) (runs : p ∈ c.live)
    (low : 0 ≤ (c.proc p).pid)
    (founder : ∀ status, (c.proc p).pos = .exit status →
      p ≠ founders.1 ∧ (c.proc p).pid ≠ founders.2)
    (step : c.FamilyStep p next d) : d.Lineage founders := by
  cases step with
  | keeps keeps => exact lineage.keeps keeps
  | forkFailed fresh => exact (lineage.forkFailed fresh).keeps (.finish p _ _ _)
  | fork _ fresh _ => exact lineage.fork family runs low fresh
  | exit point reports => exact lineage.exit family runs (founder _ point) reports
  | collect _ => exact (lineage.collect _ _).keeps (.finish p _ _ _)

/-- The oldest exited process in a line of parents is still in the map of its live parent. -/
theorem dangles (lineage : c.Lineage founders) {child status : Int}
    (exited : .exited child status ∈ c.log) :
    ∃ a ∈ c.live, ∃ node ∈ (c.proc a).children, ∀ b ∈ c.live, (c.proc b).pid ≠ node.1 := by
  obtain ⟨parent, forked⟩ := lineage.exited child status exited
  obtain ⟨low, older, known⟩ := lineage.recorded parent child forked
  rcases known with ⟨a, live, -, b, entry⟩ | ⟨other, gone⟩
  · exact ⟨a, live, (child, b), entry, (lineage.gone child status exited).2⟩
  · exact lineage.dangles gone
termination_by child.toNat
decreasing_by omega

end Crowd.Lineage

/-- Every child in a map of children is the live process with the stored pid. -/
def Crowd.ChildrenLive (c : Crowd) : Prop :=
  ∀ a ∈ c.live, ∀ node ∈ (c.proc a).children, node.2 ∈ c.live ∧ (c.proc node.2).pid = node.1

/-- The maps of children stay right while nobody exits. -/
theorem Crowd.ChildrenLive.step {p next : Addr} {c d : Crowd} (children : c.ChildrenLive)
    (stays : ∀ status, (c.proc p).pos ≠ .exit status)
    (step : c.FamilyStep p next d) : d.ChildrenLive := by
  cases step with
  | keeps keeps =>
      intro a inside node member
      rw [keeps.live] at inside
      rw [keeps.children] at member
      rw [keeps.live, keeps.pid]
      exact children a inside node member
  | @forkFailed child junk fresh =>
      intro a inside node member
      have failed (b : Addr) (live : b ∈ c.live) := Crowd.update_fresh fresh junk live
      rw [Crowd.finish_children] at member
      rw [Crowd.finish_pid]
      change node ∈ (Function.update c.proc child junk a).children at member
      change node.2 ∈ c.live ∧ (Function.update c.proc child junk node.2).pid = node.1
      rw [failed a inside] at member
      obtain ⟨live, pid⟩ := children a inside node member
      rw [failed node.2 live]
      exact ⟨live, pid⟩
  | @fork child _ fresh _ =>
      intro a inside node member
      have old : ∀ b ∈ c.live, b ≠ child := fun b live same => fresh (same ▸ live)
      have kept (known : a ∈ c.live) (member : node ∈ (c.proc a).children) :
          node.2 ∈ (c.fork p child).live ∧ ((c.fork p child).proc node.2).pid = node.1 := by
        obtain ⟨live, pid⟩ := children a known node member
        rw [Family.fork_proc p (old node.2 live)]
        exact ⟨Finset.mem_insert_of_mem live, pid⟩
      rcases Finset.mem_insert.mp inside with rfl | inside
      · rw [Family.fork_child] at member
        exact absurd member (Set.notMem_empty node)
      · rw [Family.fork_proc p (old a inside)] at member
        dsimp only at member
        split at member
        · rcases Set.mem_insert_iff.mp member with rfl | member
          · exact ⟨Finset.mem_insert_self _ _, by rw [Family.fork_child]⟩
          · exact kept inside member
        · exact kept inside member
  | exit point _ => exact absurd point (stays _)
  | collect _ =>
      intro a inside node member
      rw [Crowd.finish_children, Crowd.record_proc, Crowd.update_proc,
        Crowd.update_zombies] at member
      rw [Crowd.finish_pid, Crowd.record_proc, Crowd.update_proc, Crowd.update_zombies]
      exact children a inside node member

/-- Every owner of a lock is live. -/
def View.OwnersLive (v : View) : Prop :=
  ∀ l lock a, v.locks l = some lock → lock.ownerPcbp = some a → a ∈ v.live

/-- A process that exits owns no lock. -/
def View.ExitsFree (v : View) (p : Addr) : Prop :=
  ∀ status, (v.proc p).pos = .exit status → ∀ l lock, v.locks l = some lock →
    lock.ownerPcbp ≠ some p

namespace View.OwnersLive

variable {p next : Addr} {act : Option Call} {v w : View}

/-- A change of one lock keeps the owners live if the new owner is. -/
theorem update (owners : v.OwnersLive) (live : v.live ⊆ w.live) {l : ObjPtr} {lock : Option Lock}
    (locks : w.locks = Function.update v.locks l lock)
    (owner : ∀ changed a, lock = some changed → changed.ownerPcbp = some a → a ∈ v.live) :
    w.OwnersLive := by
  intro other old a object mine
  rw [locks] at object
  by_cases same : other = l
  · subst same
    rw [Function.update_self] at object
    exact live (owner old a object mine)
  · rw [Function.update_of_ne same] at object
    exact live (owners other old a object mine)

theorem released (owners : v.OwnersLive) {l : ObjPtr} (releases : v.Releases p l w) :
    w.OwnersLive := by
  have live : v.live ⊆ w.live := (keeps_releases releases).live.ge
  obtain ⟨lock, _, _, _, after⟩ := releases.objects
  refine owners.update live (congrArg Objects.locks after) ?_
  rintro changed a ⟨⟩ mine
  cases mine

theorem step (owners : v.OwnersLive) (runs : p ∈ v.live) (free : v.ExitsFree p)
    (step : v.LockStep p next act w) : w.OwnersLive := by
  cases step with
  | @crowd c step =>
      intro l lock a object mine
      have live := owners l lock a object mine
      by_cases same : a = p
      · subst same
        rcases step.family.self live with ⟨stays, _⟩ | ⟨_, status, point⟩
        · exact stays
        · exact absurd mine (free status point l lock object)
      · exact (step.family.other live same).1
  | other keeps locks _ _ _ _ _ =>
      intro l lock a object mine
      rw [locks] at object
      exact keeps.live ▸ owners l lock a object mine
  | lockInit _ =>
      refine owners.update (Finset.Subset.refl _) rfl ?_
      rintro changed a ⟨⟩ mine
      cases mine
  | acquireTake _ _ _ =>
      refine owners.update (Finset.Subset.refl _) rfl ?_
      rintro changed a ⟨⟩ mine
      cases mine
      exact runs
  | acquireBlock _ object _ =>
      refine owners.update (Finset.Subset.refl _) rfl ?_
      rintro changed a ⟨⟩ mine
      exact owners _ _ a object mine
  | release _ releases =>
      have freed := owners.released releases
      exact freed
  | @cvarWait c l cvarQ w _ releases =>
      have waiting : (v.setCvar c (some cvarQ)).OwnersLive := owners
      rcases releases with rfl | releases
      · exact waiting
      · have freed := waiting.released releases
        exact freed
  | reclaimLock _ _ _ _ =>
      refine owners.update (Finset.Subset.refl _) rfl ?_
      rintro changed a ⟨⟩
  | reclaimOwned _ _ object _ =>
      refine owners.update (Finset.Subset.refl _) rfl ?_
      rintro changed a ⟨⟩ mine
      exact owners _ _ a object mine

end View.OwnersLive

/-- Every PCB pointer in a lock, a condition variable or a pipe is a live process. -/
structure Kernel.SyncLive (s : Kernel) : Prop where
  owner : ∀ l lock a, s.locks l = some lock → lock.ownerPcbp = some a → a ∈ s.live
  lock : ∀ l lock, s.locks l = some lock → ∀ a ∈ lock.waitingQ, a ∈ s.live
  cvar : ∀ c cvarQ, s.cvars c = some cvarQ → ∀ a ∈ cvarQ, a ∈ s.live
  pipe : ∀ q pipe, s.pipes q = some pipe → ∀ a ∈ pipe.waitingQ, a ∈ s.live

/-- No stored PCB pointer is the pointer to an exited process. -/
structure Kernel.NoDangling (s : Kernel) : Prop where
  children : ∀ a ∈ s.live, ∀ node ∈ (s.pcbs a).childrenMap.entries,
    node.2 ∈ s.live ∧ (s.pcbs node.2).pid = node.1
  sync : s.SyncLive

/-- A process exits without a lock, and its parent is not blocked or waits for a child. -/
structure Kernel.ExitsClean (s : Kernel) : Prop where
  reports : s.reportsToWaiter = true
  free : s.view.ExitsFree s.currPCB

/-- A step outside the code of an exit is clean. -/
theorem Kernel.exitsClean_of_stays {s : Kernel} (stays : s.cpu.isExit = false) : s.ExitsClean := by
  refine ⟨?_, fun status point => ?_⟩
  · rw [Kernel.reportsToWaiter]
    split
    · rename_i status parent exits link
      rw [exits] at stays
      cases stays
    · rfl
  · rw [s.pos_curr.symm.trans point] at stays
    cases stays

/-- While every exit is clean, the sync objects refer to live processes. -/
theorem run_syncLive {s : Kernel} (run : yallnix.Run (fun s _ => s.ExitsClean) s) :
    s.SyncLive := by
  have queues := run_queues (fun _ _ clean => clean.reports) run
  have owners : s.view.OwnersLive := by
    refine run_invariant (fun s => s.view.OwnersLive) ?_ ?_ run
    · intro s _ fresh _ l lock a object
      cases (fresh.locks l).symm.trans object
    · intro s i t sound _ owners clean _ step
      exact owners.step sound.placed.live clean.free step.lockStep
  refine ⟨owners, fun l lock object a member => ?_, fun c cvarQ object a member => ?_,
    fun q pipe object a member => ?_⟩
  · have queue : s.view.lockQueue l = some lock.waitingQ := by
      rw [View.lockQueue, Function.comp_apply, show s.view.locks l = _ from object]
      rfl
    exact (queues.lock.waits l _ queue a member).1
  · exact (queues.cvar.waits c cvarQ object a member).1
  · exact (queues.pipe.waits.waits q _ (View.pipeQueue_of object) a member).1

section
variable {s t : Kernel} {i : Input}

/-- The exit of `init` halts the machine, and the idle process never exits. -/
theorem exit_notFounder (placed : Placed s.toScheduler) (next : yallnix.step s i t) {status : Int}
    (point : s.cpu = .exit status) :
    s.currPCB ≠ s.founders.1 ∧ s.curr.pid ≠ s.founders.2 := by
  refine ⟨placed.not_idle (by rw [point]; rfl), fun founder => ?_⟩
  obtain ⟨ready, done⟩ := next
  cases i with
  | resume junk =>
      rw [handle, resumeKernel, point] at done
      obtain ⟨u, exited, -⟩ := Outcome.bind_eq_ok.mp done
      have halts : s.curr.pid = s.initPid := founder
      rw [kernelExit, if_pos halts] at exited
      cases exited
  | _ => simp [enabled, point, Pos.isUser] at ready

/-- An exit is written down. -/
theorem exit_written (next : yallnix.step s i t) {status : Int} (point : s.cpu = .exit status) :
    .exited s.curr.pid status ∈ t.log := by
  obtain ⟨ready, done⟩ := next
  cases i with
  | resume junk =>
      rw [handle, resumeKernel, point] at done
      obtain ⟨u, exited, done⟩ := Outcome.bind_eq_ok.mp done
      obtain ⟨v, first, rest, -, -, rfl⟩ := kernelExit_cases exited
      cases Except.ok.inj done
      exact List.mem_cons_self
  | _ => simp [enabled, point, Pos.isUser] at ready

/-- A run without an exit in its log never reaches the code of an exit. -/
theorem run_resident (reachable : yallnix.Reachable s)
    (resident : ∀ pid status, .exited pid status ∉ s.log) :
    yallnix.Run (fun s _ => s.cpu.isExit = false) s := by
  induction reachable with
  | start first => exact .start first
  | @step u v i earlier _ next ih =>
      obtain ⟨events, log, -⟩ := ((reachable_sound earlier).step next).2.family.written
      refine .step (ih fun pid status member => ?_) ?_ next
      · refine resident pid status ?_
        rw [show v.log = _ from log]
        exact List.mem_append_right _ member
      · cases point : u.cpu with
        | exit status => exact absurd (exit_written next point) (resident _ _)
        | _ => rfl

/-- The log of a kernel tells the lineage of its processes from its own founders. -/
def Kernel.KnowsLineage (s : Kernel) : Prop := s.crowd.Lineage s.founders

theorem reachable_lineage (reachable : yallnix.Reachable s) : s.KnowsLineage := by
  refine reachable.invariant_of_reachable (fun _ => reachable_sound) ?_ ?_
  · rintro u ⟨boot, done⟩
    obtain ⟨-, fresh, booted⟩ := kernelStart_fresh done
    have log : u.crowd.log = [] := fresh.log
    have none (event : Event) : event ∉ u.crowd.log := by
      rw [log]
      exact List.not_mem_nil
    refine ⟨fun a inside => ?_, fun _ _ member => absurd member (none _),
      fun _ _ member => absurd member (none _), fun _ _ member => absurd member (none _)⟩
    have founder : a ∈ u.live := inside
    rw [booted.live, Finset.mem_insert, Finset.mem_singleton] at founder
    rcases founder with rfl | rfl
    · exact .inr (.inl (booted.initPid.trans booted.halting.symm))
    · exact .inl booted.idlePCB.symm
  · intro u i v sound lineage _ next
    have live := sound.placed.live
    have framed := handle_framed (f := PCB.r1PageTable) sound.placed sound.family next.1
      (fun _ _ _ => rfl) next.2
    rw [Kernel.KnowsLineage, framed.founders]
    refine lineage.step sound.family live (sound.placed.pidUsed _ live).1 ?_
      (sound.step next).2.family
    intro status point
    exact exit_notFounder sound.placed next (u.pos_curr.symm.trans point)

end

/-- Stored PCB pointers dangle as soon as a process has exited, and not before. The pointers in
sync objects stay live longer, while every exit is clean. -/
theorem noDangling_iff {s : Kernel} (reachable : yallnix.Reachable s) :
    (s.NoDangling ↔ ∀ pid status, .exited pid status ∉ s.log) ∧
      (yallnix.Run (fun s _ => s.ExitsClean) s → s.SyncLive) := by
  refine ⟨⟨fun sound pid status exited => ?_, fun resident => ?_⟩, run_syncLive⟩
  · obtain ⟨a, live, node, member, gone⟩ := (reachable_lineage reachable).dangles exited
    obtain ⟨alive, pid⟩ := sound.children a live node member
    exact gone node.2 alive pid
  · have run := run_resident reachable resident
    refine ⟨?_, run_syncLive (run.mono fun u i => Kernel.exitsClean_of_stays)⟩
    have children : s.crowd.ChildrenLive := by
      refine run_invariant (fun s => s.crowd.ChildrenLive) ?_ ?_ run
      · intro u _ fresh _ a live node member
        rw [show (u.crowd.proc a).children = ∅ from fresh.children a live] at member
        exact absurd member (Set.notMem_empty node)
      · intro u i v _ _ children stays _ step
        refine children.step (fun status point => ?_) step.family
        rw [u.pos_curr.symm.trans point] at stays
        cases stays
    exact children

end

section
attribute [local instance] smallHardware

def Event.isExit : Event → Bool
  | .exited _ _ => true
  | _ => false

/-- A child waits for the lock of `init`, and nobody has exited. -/
theorem noDangling_iff_small : ∃ s : Kernel, s.locks 0 = some ⟨some 1, [2]⟩ ∧ s.NoDangling := by
  obtain ⟨s, reachable, tested⟩ := exists_reachable
    (fun s => decide (s.locks 0 = some ⟨some 1, [2]⟩) && (s.log.all fun event => !event.isExit))
    [asks .lockInit, asks (.acquire 0), forks 2, goesOn, asks (.acquire 0)] (by decide +kernel)
  rw [Bool.and_eq_true, decide_eq_true_eq, List.all_eq_true] at tested
  obtain ⟨object, quiet⟩ := tested
  refine ⟨s, object, (noDangling_iff reachable).1.mpr fun pid status exited => ?_⟩
  cases quiet _ exited

/-- The first child of `init` exits and stays in the map of its parent. -/
theorem noDangling_false : ¬∀ s : Kernel, yallnix.Reachable s → s.NoDangling := by
  intro all
  obtain ⟨s, reachable, tested⟩ := exists_reachable
    (fun s => decide (1 ∈ s.live ∧ 2 ∉ s.live ∧ (2, 2) ∈ (s.pcbs 1).childrenMap.entries))
    [forks 2, goesOn, asks (.exit 7), goesOn] (by decide +kernel)
  obtain ⟨live, gone, member⟩ := of_decide_eq_true tested
  exact gone ((all s reachable).children 1 live (2, 2) member).1

end

end Yallnix

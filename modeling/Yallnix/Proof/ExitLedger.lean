import Yallnix.Construction.SmallMachine
import Yallnix.Proof.Reachability

namespace Yallnix

section
variable [Hardware]

/-- The first process forked the second one. -/
def isChild (pid child : Int) : List Event → Bool
  | [] => false
  | .forked parent forked :: older => parent = pid && forked = child || isChild pid child older
  | _ :: older => isChild pid child older

/-- The exited children of a process with their exit statuses, in the order of their exits. -/
def childExits (pid : Int) : List Event → List Zombie
  | [] => []
  | .exited child status :: older =>
      childExits pid older ++ if isChild pid child older then [⟨child, status⟩] else []
  | _ :: older => childExits pid older

/-- The pids and statuses that the calls of `KernelWait` returned to a process, in order. -/
def collected (pid : Int) : List Event → List Zombie
  | [] => []
  | .waited owner child status :: older =>
      collected pid older ++ if owner = pid then [⟨child, status⟩] else []
  | _ :: older => collected pid older

/-- Each live process collects and holds exactly the exits of its children. -/
def Crowd.Delivers (c : Crowd) : Prop :=
  ∀ a ∈ c.live, collected (c.proc a).pid c.log ++ (c.proc a).zombies =
    childExits (c.proc a).pid c.log

theorem isChild_writes {c d : Crowd}
    (writes : Crowd.Writes (fun event => event.isFamily = false) c d) (pid child : Int) :
    isChild pid child d.log = isChild pid child c.log ∧
      childExits pid d.log = childExits pid c.log ∧ collected pid d.log = collected pid c.log := by
  obtain ⟨events, log, other⟩ := writes
  rw [log]
  clear log
  induction events with
  | nil => exact ⟨rfl, rfl, rfl⟩
  | cons event rest ih =>
      have older := ih fun event member => other event (List.mem_cons_of_mem _ member)
      have first := other event List.mem_cons_self
      cases event <;> first | exact older | cases first

/-- The log of a live family agrees with the links between parents and children. -/
structure Crowd.Ledger (c : Crowd) : Prop where
  delivers : c.Delivers
  recorded : ∀ a ∈ c.live, ∀ q, (c.proc a).parent = some q →
    isChild (c.proc q).pid (c.proc a).pid c.log = true
  linked : ∀ a ∈ c.live, ∀ q ∈ c.live,
    isChild (c.proc q).pid (c.proc a).pid c.log = true → (c.proc a).parent = some q
  unused : ∀ pid, c.nextPid ≤ pid → collected pid c.log = [] ∧ childExits pid c.log = [] ∧
    ∀ other, isChild pid other c.log = false ∧ isChild other pid c.log = false

/-- An exiting process holds no other process that lives at the address of an old child. -/
def Crowd.NoStranger (p : Addr) (c : Crowd) : Prop :=
  ∀ status, (c.proc p).pos = .exit status → ∀ key, ∀ a ∈ c.live,
    (key, a) ∈ (c.proc p).children → (c.proc a).parent = none ∨ (c.proc a).parent = some p

namespace Crowd.Ledger

variable {p next : Addr} {c d : Crowd}

theorem keeps (ledger : c.Ledger) (keeps : c.Keeps p d) : d.Ledger where
  delivers a inside := by
    have same := isChild_writes keeps.log (c.proc a).pid 0
    rw [keeps.pid, keeps.zombies, same.2.1, same.2.2]
    exact ledger.delivers a (keeps.live ▸ inside)
  recorded a inside q parent := by
    rw [keeps.parent] at parent
    rw [keeps.pid, keeps.pid, (isChild_writes keeps.log _ _).1]
    exact ledger.recorded a (keeps.live ▸ inside) q parent
  linked a inside q liveQ child := by
    rw [keeps.pid, keeps.pid, (isChild_writes keeps.log _ _).1] at child
    rw [keeps.parent]
    exact ledger.linked a (keeps.live ▸ inside) q (keeps.live ▸ liveQ) child
  unused pid above := by
    have same := isChild_writes keeps.log pid
    rw [keeps.nextPid] at above
    obtain ⟨waits, exits, children⟩ := ledger.unused pid above
    refine ⟨(same 0).2.2.trans waits, (same 0).2.1.trans exits, fun other => ?_⟩
    rw [(same other).1, (isChild_writes keeps.log other pid).1]
    exact children other

/-- A change of dead addresses and a higher next pid keep the ledger. -/
theorem forkFailed (ledger : c.Ledger) (family : Family c) {child : Addr} {junk : Proc}
    (fresh : child ∉ c.live) :
    ({ c.update child fun _ => junk with nextPid := c.nextPid + 1 } : Crowd).Ledger := by
  have proc (a : Addr) (live : a ∈ c.live) := Crowd.update_fresh fresh junk live
  constructor
  · intro a inside
    change collected (Function.update c.proc child junk a).pid c.log ++
      (Function.update c.proc child junk a).zombies =
        childExits (Function.update c.proc child junk a).pid c.log
    rw [proc a inside]
    exact ledger.delivers a inside
  · intro a inside q parent
    change (Function.update c.proc child junk a).parent = some q at parent
    change isChild (Function.update c.proc child junk q).pid
      (Function.update c.proc child junk a).pid c.log = true
    rw [proc a inside] at parent ⊢
    rw [proc q (family.parentLive a inside q parent).1]
    exact ledger.recorded a inside q parent
  · intro a inside q liveQ isChild
    change Yallnix.isChild (Function.update c.proc child junk q).pid
      (Function.update c.proc child junk a).pid c.log = true at isChild
    change (Function.update c.proc child junk a).parent = some q
    rw [proc a inside, proc q liveQ] at isChild
    rw [proc a inside]
    exact ledger.linked a inside q liveQ isChild
  · intro pid above
    change c.nextPid + 1 ≤ pid at above
    exact ledger.unused pid (by omega)

/-- The fork is the one new fact about parents and children. -/
theorem isChild_fork (p child : Addr) (pid other : Int) (c : Crowd) :
    isChild pid other (c.fork p child).log = true ↔
      (c.proc p).pid = pid ∧ c.nextPid = other ∨ isChild pid other c.log = true := by
  change ((c.proc p).pid = pid && c.nextPid = other || isChild pid other c.log) = true ↔ _
  rw [Bool.or_eq_true, Bool.and_eq_true, decide_eq_true_eq, decide_eq_true_eq]

theorem fork (ledger : c.Ledger) (family : Family c) (runs : p ∈ c.live) {child : Addr}
    (fresh : child ∉ c.live) : (c.fork p child).Ledger := by
  have old : ∀ a ∈ c.live, a ≠ child := fun a inside same => fresh (same ▸ inside)
  have parentPid := family.pidUsed p runs
  obtain ⟨waits, exits, children⟩ := ledger.unused c.nextPid (le_refl _)
  constructor
  · intro a inside
    change collected ((c.fork p child).proc a).pid c.log ++ ((c.fork p child).proc a).zombies =
      childExits ((c.fork p child).proc a).pid c.log
    rcases Finset.mem_insert.mp inside with rfl | inside
    · rw [Family.fork_child]
      dsimp only
      rw [waits, exits]
      rfl
    · rw [Family.fork_proc p (old a inside)]
      exact ledger.delivers a inside
  · intro a inside q parent
    rw [isChild_fork]
    rcases Finset.mem_insert.mp inside with rfl | inside
    · rw [Family.fork_child] at parent ⊢
      cases parent
      rw [Family.fork_proc p (old p runs)]
      exact .inl ⟨rfl, rfl⟩
    · rw [Family.fork_proc p (old a inside)] at parent ⊢
      rw [Family.fork_proc p (old q (family.parentLive a inside q parent).1)]
      exact .inr (ledger.recorded a inside q parent)
  · intro a inside q liveQ link
    rw [isChild_fork] at link
    rcases Finset.mem_insert.mp inside with rfl | oldA <;>
      rcases Finset.mem_insert.mp liveQ with rfl | oldQ
    · rw [Family.fork_child] at link
      rcases link with ⟨same, _⟩ | older
      · change _ = c.nextPid at same
        omega
      · exact absurd older (by simp [(children _).1])
    · rw [Family.fork_child, Family.fork_proc p (old q oldQ)] at link
      rw [Family.fork_child]
      rcases link with ⟨same, _⟩ | older
      · exact congrArg some (family.pidDistinct p runs q oldQ same)
      · exact absurd older (by simp [(children _).2])
    · rw [Family.fork_child, Family.fork_proc p (old a oldA)] at link
      rcases link with ⟨same, _⟩ | older
      · change _ = c.nextPid at same
        omega
      · exact absurd older (by simp [(children _).1])
    · rw [Family.fork_proc p (old a oldA), Family.fork_proc p (old q oldQ)] at link
      rw [Family.fork_proc p (old a oldA)]
      rcases link with ⟨_, same⟩ | older
      · have used := family.pidUsed a oldA
        change c.nextPid = (c.proc a).pid at same
        omega
      · exact ledger.linked a oldA q oldQ older
  · intro pid above
    change c.nextPid + 1 ≤ pid at above
    obtain ⟨waits, exits, children⟩ := ledger.unused pid (by omega)
    refine ⟨waits, exits, fun other => ?_⟩
    rw [← Bool.not_eq_true, ← Bool.not_eq_true, isChild_fork, isChild_fork, (children other).1,
      (children other).2]
    constructor
    · rintro (⟨same, _⟩ | older)
      · omega
      · cases older
    · rintro (⟨_, same⟩ | older)
      · omega
      · cases older

/-- An exit reaches the live process that forked the exiting one. -/
theorem exit (ledger : c.Ledger) (family : Family c) (runs : p ∈ c.live) (stranger : c.NoStranger p)
    {status : Int} {junk : Proc} (point : (c.proc p).pos = .exit status)
    (reports : c.Reports p status d) :
    (((d.disown (c.proc p).children).remove p junk).record
      (.exited (c.proc p).pid status)).Ledger := by
  obtain ⟨live, nextPid⟩ := reports.keeps
  have logs := isChild_writes (reports.writes fun _ => rfl)
  have members (a : Addr) : a ∈ d.live.erase p ↔ a ≠ p ∧ a ∈ c.live := by
    rw [live]
    exact Finset.mem_erase
  constructor
  · intro a inside
    obtain ⟨other, liveA⟩ := (members a).mp inside
    have before := ledger.delivers a liveA
    rw [Crowd.exit_proc reports other]
    change collected (c.proc a).pid d.log ++
      (if (c.proc p).parent = some a then enqQ (c.proc a).zombies ⟨(c.proc p).pid, status⟩
        else (c.proc a).zombies) =
      childExits (c.proc a).pid d.log ++
        if isChild (c.proc a).pid (c.proc p).pid d.log then [⟨(c.proc p).pid, status⟩] else []
    obtain ⟨sameChild, sameExits, sameWaits⟩ := logs (c.proc a).pid (c.proc p).pid
    rw [sameChild, sameExits, sameWaits, ← before]
    by_cases mine : (c.proc p).parent = some a
    · rw [if_pos mine, if_pos (ledger.recorded p runs a mine), enqQ, List.append_assoc]
    · rw [if_neg mine, if_neg fun link => mine (ledger.linked p runs a liveA link),
        List.append_nil]
  · intro a inside q parent
    obtain ⟨other, liveA⟩ := (members a).mp inside
    rw [Crowd.exit_proc reports other] at parent ⊢
    dsimp only at parent
    split at parent
    · cases parent
    · rename_i stays
      have otherQ : q ≠ p := by
        rintro rfl
        exact stays ⟨_, (family.parentLive a liveA q parent).2⟩
      rw [Crowd.exit_proc reports otherQ]
      change isChild (c.proc q).pid (c.proc a).pid d.log = true
      rw [(logs _ _).1]
      exact ledger.recorded a liveA q parent
  · intro a inside q liveQ link
    obtain ⟨other, liveA⟩ := (members a).mp inside
    obtain ⟨otherQ, oldQ⟩ := (members q).mp liveQ
    rw [Crowd.exit_proc reports other, Crowd.exit_proc reports otherQ] at link
    rw [Crowd.exit_proc reports other]
    change isChild (c.proc q).pid (c.proc a).pid d.log = true at link
    rw [(logs _ _).1] at link
    have parent := ledger.linked a liveA q oldQ link
    dsimp only
    rw [if_neg ?_, parent]
    rintro ⟨key, member⟩
    rcases stranger status point key a liveA member with none | mine
    · rw [none] at parent
      cases parent
    · rw [mine] at parent
      exact otherQ (Option.some.inj parent).symm
  · intro pid above
    change d.nextPid ≤ pid at above
    obtain ⟨waits, exits, children⟩ := ledger.unused pid (nextPid ▸ above)
    change collected pid d.log = [] ∧ (childExits pid d.log ++
      if isChild pid (c.proc p).pid d.log then [⟨(c.proc p).pid, status⟩] else []) = [] ∧
      ∀ other, isChild pid other d.log = false ∧ isChild other pid d.log = false
    rw [(logs pid 0).2.2, (logs pid 0).2.1, (logs pid _).1, (children _).1]
    refine ⟨waits, by rw [exits]; rfl, fun other => ?_⟩
    rw [(logs pid other).1, (logs other pid).1]
    exact children other

/-- A wait moves the oldest zombie to the collected ones. -/
theorem collect (ledger : c.Ledger) (family : Family c) (runs : p ∈ c.live) {zombie : Zombie}
    {rest : Queue Zombie} (zombies : (c.proc p).zombies = zombie :: rest) :
    ((c.update p fun proc => { proc with zombies := rest }).record
      (.waited (c.proc p).pid zombie.pid zombie.exitStatus)).Ledger := by
  have proc (a : Addr) := c.update_zombies p a rest
  constructor
  · intro a inside
    have before := ledger.delivers a inside
    rw [Crowd.record_proc, Crowd.update_proc, proc]
    change (collected (c.proc a).pid c.log ++
      if (c.proc p).pid = (c.proc a).pid then [zombie] else []) ++
        (if a = p then rest else (c.proc a).zombies) = childExits (c.proc a).pid c.log
    by_cases same : a = p
    · subst same
      rw [if_pos rfl, if_pos rfl, List.append_assoc, List.singleton_append, ← zombies]
      exact before
    · rw [if_neg fun pids => same (family.pidDistinct p runs a inside pids).symm, if_neg same,
        List.append_nil]
      exact before
  · intro a inside q parent
    rw [Crowd.record_proc, Crowd.update_proc, proc] at parent
    rw [Crowd.record_proc, Crowd.update_proc, proc, proc]
    exact ledger.recorded a inside q parent
  · intro a inside q liveQ link
    rw [Crowd.record_proc, Crowd.update_proc, proc, proc] at link
    rw [Crowd.record_proc, Crowd.update_proc, proc]
    exact ledger.linked a inside q liveQ link
  · intro pid above
    change c.nextPid ≤ pid at above
    obtain ⟨waits, exits, children⟩ := ledger.unused pid above
    have used := family.pidUsed p runs
    refine ⟨?_, exits, children⟩
    change (collected pid c.log ++ if (c.proc p).pid = pid then [zombie] else []) = []
    rw [waits, if_neg (by omega)]
    rfl

theorem step (ledger : c.Ledger) (family : Family c) (runs : p ∈ c.live)
    (stranger : c.NoStranger p) (step : c.FamilyStep p next d) : d.Ledger := by
  cases step with
  | keeps keeps => exact ledger.keeps keeps
  | forkFailed fresh => exact (ledger.forkFailed family fresh).keeps (.finish p _ _ _)
  | fork _ fresh _ => exact ledger.fork family runs fresh
  | exit point reports => exact ledger.exit family runs stranger point reports
  | collect zombies => exact (ledger.collect family runs zombies).keeps (.finish p _ _ _)

end Crowd.Ledger

/-- The process was forked by the running one or has no parent. -/
def Kernel.forkedHere (s : Kernel) (a : Addr) : Bool :=
  (s.pcbs a).parent = none || (s.pcbs a).parent = some s.currPCB

/-- No exiting process holds the address of a process that another one forked. -/
def Kernel.NoStranger (s : Kernel) : Prop :=
  s.cpu.isExit = true →
    ∀ entry ∈ (s.pcbs s.currPCB).childrenMap.entries, entry.2 ∈ s.live → s.forkedHere entry.2 = true

instance (s : Kernel) : Decidable s.NoStranger := inferInstanceAs (Decidable (_ → _))

theorem Kernel.NoStranger.crowd {s : Kernel} (stranger : s.NoStranger) :
    s.crowd.NoStranger s.currPCB := by
  intro status exits key a liveA member
  have known := stranger (by rw [← s.pos_curr, show s.pos s.currPCB = _ from exits]; rfl) _
    member liveA
  rw [Kernel.forkedHere, Bool.or_eq_true, decide_eq_true_eq, decide_eq_true_eq] at known
  exact known

/-- A booted kernel has an empty ledger. -/
theorem View.Fresh.ledger {v : View} (fresh : v.Fresh) : v.toCrowd.Ledger := by
  constructor
  · intro a inside
    rw [fresh.log, fresh.zombies a inside]
    rfl
  · intro a inside q parent
    rw [fresh.parent a inside] at parent
    cases parent
  · intro a _ q _ link
    rw [fresh.log] at link
    cases link
  · intro pid _
    rw [fresh.log]
    exact ⟨rfl, rfl, fun _ => ⟨rfl, rfl⟩⟩

/-- Exit statuses are delivered once and in order while no PCB of an old child is used again. -/
theorem run_delivers {s : Kernel} (run : yallnix.Run (fun s _ => s.NoStranger) s) :
    s.crowd.Delivers := by
  refine (run_invariant (fun s => s.crowd.Ledger) ?_ ?_ run).delivers
  · intro s _ fresh _
    exact fresh.ledger
  · intro s i t sound _ ledger stranger _ step
    exact ledger.step sound.family sound.placed.live stranger.crowd step.family

end

section
attribute [local instance] smallHardware

/-- `init` forks a child and collects its exit status. -/
theorem run_delivers_small : ∃ s : Kernel, collected 1 s.log = [⟨2, 7⟩] ∧
    s.crowd.Delivers := by
  obtain ⟨s, run, tested⟩ := exists_run (fun s _ => s.NoStranger)
    (fun s => decide (collected 1 s.log = [⟨2, 7⟩]))
    [forks 2, goesOn, asks (.exit 7), goesOn, goesOn, .clock, goesOn, asks (.wait 144)]
    (by decide +kernel)
  exact ⟨s, of_decide_eq_true tested, run_delivers run⟩

/-- A process exits, and a younger child of `init` has the PCB of its dead child. -/
theorem delivers_false : ¬∀ s : Kernel, yallnix.Reachable s → s.crowd.Delivers := by
  intro all
  obtain ⟨s, reachable, tested⟩ := exists_reachable
    (fun s => decide (1 ∈ s.live ∧ collected (s.pcbs 1).pid s.log ++ (s.pcbs 1).zombieQ.getD makeQ ≠
      childExits (s.pcbs 1).pid s.log))
    [forks 2, goesOn, forks 3, goesOn, asks (.exit 0), goesOn, goesOn, .clock, goesOn, forks 3,
      goesOn, .clock, goesOn, asks (.exit 0), goesOn, goesOn, .clock, goesOn, .clock, goesOn,
      asks (.exit 5), goesOn] (by decide +kernel)
  obtain ⟨live, lost⟩ := of_decide_eq_true tested
  exact lost (all s reachable 1 live)

end

end Yallnix

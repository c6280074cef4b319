import Yallnix.Construction.SmallMachine
import Yallnix.Proof.SyncStep

namespace Yallnix

section
variable [Hardware]

/-- After a fork this process still has to get this value as the result of `KernelFork`. -/
def owes (pid : Int) : List Event → Option Int
  | [] => none
  | .forked parent child :: older =>
      if parent = pid then some child
      else if child = pid then some successCode
      else owes pid older
  | .returned owner .fork _ :: older => if owner = pid then none else owes pid older
  | _ :: older => owes pid older

/-- Each return of `KernelFork` stands beside the value that the process had to get. -/
def forkResults : List Event → List (Option Int × Int)
  | [] => []
  | .returned pid .fork code :: older => (owes pid older, code) :: forkResults older
  | _ :: older => forkResults older

/-- A successful fork returns the pid of the child in the parent and 0 in the child. -/
def ForksReturn (log : List Event) : Prop :=
  ∀ result ∈ forkResults log, result.1 = none ∨ result.1 = some result.2

instance (log : List Event) : Decidable (ForksReturn log) :=
  inferInstanceAs (Decidable (∀ _ ∈ _, _))

/-- The process is in `KernelFork` with this child. -/
def Pos.forks (child : Addr) : Pos → Bool
  | .fork _ childPCB => childPCB = child
  | _ => false

/-- These events begin or end a fork. -/
def Event.isFork : Event → Bool
  | .forked .. | .returned _ .fork _ => true
  | _ => false

def Pos.isFork : Pos → Bool
  | .fork .. => true
  | _ => false

theorem owes_other {event : Event} (other : event.isFork = false) (pid : Int)
    (older : List Event) : owes pid (event :: older) = owes pid older := by
  cases event with
  | returned owner call code =>
      cases call <;> first | rfl | cases other
  | forked parent child => cases other
  | _ => rfl

theorem forkResults_other {event : Event} (other : event.isFork = false) (older : List Event) :
    forkResults (event :: older) = forkResults older := by
  cases event with
  | returned owner call code =>
      cases call <;> first | rfl | cases other
  | _ => rfl

/-- These events keep the forks. -/
theorem forks_writes {c d : Crowd}
    (writes : Crowd.Writes (fun event => event.isFork = false) c d) :
    (∀ pid, owes pid d.log = owes pid c.log) ∧ forkResults d.log = forkResults c.log := by
  obtain ⟨events, log, other⟩ := writes
  rw [log]
  clear log
  induction events with
  | nil => exact ⟨fun _ => rfl, rfl⟩
  | cons event rest ih =>
      obtain ⟨owed, results⟩ := ih fun event member => other event (List.mem_cons_of_mem _ member)
      have first := other event List.mem_cons_self
      exact ⟨fun pid => (owes_other first pid _).trans (owed pid),
        (forkResults_other first _).trans results⟩

/-- The steps of the kernel as the forks see them. -/
inductive Crowd.ForkStep (p next : Addr) (c : Crowd) : Crowd → Prop where
  | forkFailed {child : Addr} {junk : Proc} (user : (c.proc p).pos = .user)
      (fresh : child ∉ c.live) :
      ForkStep p next c ({ c.update child fun _ => junk with nextPid := c.nextPid + 1 }.finish p
        .fork errorCode)
  | fork {child : Addr} (user : (c.proc p).pos = .user) (fresh : child ∉ c.live)
      (first : next = child) : ForkStep p next c (c.fork p child)
  | forkReturn {parentPCB childPCB : Addr} (point : (c.proc p).pos = .fork parentPCB childPCB) :
      ForkStep p next c (c.finish p .fork (c.forkCode p parentPCB childPCB))
  | other {d : Crowd} (live : d.live ⊆ c.live) (before : (c.proc p).pos.isFork = false)
      (after : p ∈ d.live → (d.proc p).pos.isFork = false)
      (events : Crowd.Writes (fun event => event.isFork = false) c d) : ForkStep p next c d

theorem Event.isQuiet_isFork {event : Event} (quiet : event.isQuiet = true) :
    event.isFork = false := by
  cases event with
  | returned owner call code => cases call <;> first | rfl | cases quiet
  | _ => first | rfl | cases quiet

theorem Event.isSync_isFork {event : Event} (isSync : event.isSync = true) :
    event.isFork = false := by
  cases event with
  | returned owner call code => cases call <;> first | rfl | cases isSync
  | _ => first | rfl | cases isSync

theorem Pos.isPlain_isFork {k : Pos} (plain : k.isPlain = true) : k.isFork = false := by
  cases k <;> first | rfl | cases plain

theorem Pos.isSync_isFork {k : Pos} (isSync : k.isSync = true) : k.isFork = false := by
  cases k <;> first | rfl | cases isSync

theorem View.Step.forkStep {p next : Addr} {act : Option Call} {v w : View}
    (step : v.Step p next act w) (carries : (v.proc p).pos.carriesCall = true) :
    v.toCrowd.ForkStep p next w.toCrowd := by
  rcases step.sync_or_crowd carries with sync | step
  · obtain ⟨events, log, isSync⟩ := sync.events
    refine .other (fun a inside => sync.live ▸ inside) (Pos.isSync_isFork sync.before)
      (fun _ => Pos.isSync_isFork sync.after) ⟨events, log, fun event member => ?_⟩
    exact Event.isSync_isFork (isSync event member)
  generalize w.toCrowd = d at step ⊢
  cases step with
  | @quiet k events before after silent =>
      refine .other (fun _ inside => inside) (Pos.isPlain_isFork before) (fun _ => ?_)
        ⟨events, rfl, fun event member => Event.isQuiet_isFork (silent event member)⟩
      rw [Crowd.move_pos, if_pos rfl]
      exact Pos.isPlain_isFork after
  | forkFailed user fresh => exact .forkFailed user fresh
  | fork user fresh first => exact .fork user fresh first
  | forkReturn point => exact .forkReturn point
  | @exit status d junk point reports =>
      refine .other ?_ (by rw [point]; rfl) (fun inside => ?_) ?_
      · intro a inside
        exact reports.keeps.1 ▸ Finset.mem_of_mem_erase inside
      · exact absurd inside (Finset.notMem_erase p _)
      · exact (reports.writes fun _ => rfl).trans (.record rfl rfl)
  | waitBlock user _ =>
      refine .other (fun _ inside => inside) (by rw [user]; rfl) (fun _ => ?_) (.same rfl)
      rw [Crowd.block_proc, Crowd.move_pos, if_pos rfl]
      rfl
  | @waitCollect statusPtr zombie rest point _ =>
      refine .other (fun _ inside => inside) ?_ (fun _ => ?_) ?_
      · rcases point with user | woken
        · rw [user]
          rfl
        · rw [woken]
          rfl
      · rw [Crowd.finish_pos, if_pos rfl]
        rfl
      · refine ⟨[.returned (v.proc p).pid (.wait statusPtr) zombie.pid,
          .waited (v.proc p).pid zombie.pid zombie.exitStatus], ?_, by simp [Event.isFork]⟩
        simp
  | waitEmpty point _ =>
      refine .other (fun _ inside => inside) (by rw [point]; rfl) (fun _ => ?_) (.record rfl rfl)
      rw [Crowd.finish_pos, if_pos rfl]
      rfl

/-- A process in `KernelFork` is the parent of a live child or the child that runs. -/
structure Crowd.ForksOwed (p : Addr) (c : Crowd) : Prop where
  returns : ForksReturn c.log
  inside : ∀ a ∈ c.live, ∀ parent child, (c.proc a).pos = .fork parent child →
    a = parent ∧ child ∈ c.live ∧ owes (c.proc a).pid c.log = some (c.proc child).pid ∨
    a = child ∧ a = p ∧ (parent ∈ c.live ∧ parent ≠ a) ∧
      owes (c.proc a).pid c.log = some successCode
  outside : ∀ a ∈ c.live, (c.proc a).pos.isFork = false → owes (c.proc a).pid c.log = none

/-- The exiting process is not the child of a process that is still in `KernelFork`. -/
def Crowd.ForksOver (p : Addr) (c : Crowd) : Prop :=
  ∀ status, (c.proc p).pos = .exit status →
    ∀ a ∈ c.live, ∀ parent, (c.proc a).pos ≠ .fork parent p

namespace Crowd.ForksOwed

variable {p next : Addr} {c d : Crowd}

/-- The end of a fork pays what it owes. -/
theorem forkReturn (owed : c.ForksOwed p) (live : p ∈ c.live)
    (distinct : ∀ a ∈ c.live, ∀ b ∈ c.live, (c.proc a).pid = (c.proc b).pid → a = b)
    {parentPCB childPCB : Addr} (point : (c.proc p).pos = .fork parentPCB childPCB) :
    owes (c.proc p).pid c.log = some (c.forkCode p parentPCB childPCB) := by
  rcases owed.inside p live parentPCB childPCB point with
    ⟨rfl, _, value⟩ | ⟨rfl, _, ⟨parent, other⟩, value⟩
  · rw [value, forkCode, if_pos rfl]
  · rw [value, forkCode, if_neg fun same => other (distinct _ parent _ live same.symm), if_pos rfl]

/-- A return of `KernelFork` pays the running process. -/
theorem finish (owed : c.ForksOwed p) (runs : p ∈ c.live) (family : Family c)
    (step : c.FamilyStep p next d) (code : Int)
    (pays : owes (c.proc p).pid c.log = none ∨ owes (c.proc p).pid c.log = some code)
    (live : d.live = c.live) (log : d.log = .returned (c.proc p).pid .fork code :: c.log)
    (user : (d.proc p).pos = .user) : d.ForksOwed next := by
  have others : ∀ a ∈ c.live, a ≠ p → owes (c.proc a).pid d.log = owes (c.proc a).pid c.log := by
    intro a inside other
    rw [log, owes, if_neg fun same => other (family.pidDistinct a inside p runs same.symm)]
  have pids : ∀ a ∈ c.live, (d.proc a).pid = (c.proc a).pid := by
    intro a inside
    by_cases same : a = p
    · subst same
      rcases step.self runs with ⟨_, kept⟩ | ⟨gone, _⟩
      · exact kept
      · exact absurd (live ▸ runs) gone
    · exact (step.other inside same).2.2
  constructor
  · rw [log]
    intro result listed
    rcases List.mem_cons.mp listed with rfl | older
    · exact pays
    · exact owed.returns result older
  · intro a inside parent child point
    rw [live] at inside
    have other : a ≠ p := by
      rintro rfl
      rw [user] at point
      cases point
    rw [(step.other inside other).2.1] at point
    rw [pids a inside, others a inside other, live]
    rcases owed.inside a inside parent child point with ⟨same, liveChild, value⟩ | ⟨_, same, _⟩
    · rw [pids child liveChild]
      exact .inl ⟨same, liveChild, value⟩
    · exact absurd same other
  · intro a inside outside
    rw [live] at inside
    rw [pids a inside]
    by_cases same : a = p
    · rw [same, log, owes, if_pos rfl]
    · rw [others a inside same]
      refine owed.outside a inside ?_
      rwa [(step.other inside same).2.1] at outside

/-- A step that concerns no fork keeps what the processes have to get. -/
theorem other (owed : c.ForksOwed p) (runs : p ∈ c.live) (past : c.ForksOver p)
    (step : c.FamilyStep p next d) (live : d.live ⊆ c.live)
    (before : (c.proc p).pos.isFork = false)
    (after : p ∈ d.live → (d.proc p).pos.isFork = false)
    (events : Crowd.Writes (fun event => event.isFork = false) c d) : d.ForksOwed next := by
  obtain ⟨values, results⟩ := forks_writes events
  have pids : ∀ a ∈ d.live, (d.proc a).pid = (c.proc a).pid := by
    intro a inside
    by_cases same : a = p
    · subst same
      rcases step.self runs with ⟨_, kept⟩ | ⟨gone, _⟩
      · exact kept
      · exact absurd inside gone
    · exact (step.other (live inside) same).2.2
  constructor
  · rw [ForksReturn, results]
    exact owed.returns
  · intro a inside parent child point
    have other : a ≠ p := by
      rintro rfl
      rw [point] at after
      cases after inside
    rw [(step.other (live inside) other).2.1] at point
    rw [pids a inside, values]
    rcases owed.inside a (live inside) parent child point with
      ⟨same, liveChild, value⟩ | ⟨_, same, _⟩
    · have stays : child ∈ d.live := by
        by_cases runner : child = p
        · subst runner
          rcases step.self runs with ⟨stays, _⟩ | ⟨_, status, exits⟩
          · exact stays
          · exact absurd point (past status exits a (live inside) parent)
        · exact (step.other liveChild runner).1
      rw [pids child stays]
      exact .inl ⟨same, stays, value⟩
    · exact absurd same other
  · intro a inside outside
    rw [pids a inside, values]
    by_cases same : a = p
    · exact same ▸ owed.outside p runs before
    · refine owed.outside a (live inside) ?_
      rwa [(step.other (live inside) same).2.1] at outside

/-- A fork owes the pid of the child to the parent and 0 to the child, which runs next. -/
theorem fork (owed : c.ForksOwed p) (runs : p ∈ c.live) (family : Family c) {child : Addr}
    (user : (c.proc p).pos = .user) (fresh : child ∉ c.live) :
    (c.fork p child).ForksOwed child := by
  have log : (c.fork p child).log = .forked (c.proc p).pid c.nextPid :: c.log := rfl
  have differs : p ≠ child := fun same => fresh (same ▸ runs)
  have parentPid := family.pidUsed p runs
  have old : ∀ a ∈ c.live, a ≠ child := fun a inside same => fresh (same ▸ inside)
  have values : ∀ a ∈ c.live, a ≠ p →
      owes (c.proc a).pid (c.fork p child).log = owes (c.proc a).pid c.log := by
    intro a inside other
    have used := family.pidUsed a inside
    rw [log, owes, if_neg fun same => other (family.pidDistinct a inside p runs same.symm),
      if_neg (by omega)]
  constructor
  · rw [log]
    exact owed.returns
  · intro a inside parent childPCB point
    rcases Finset.mem_insert.mp inside with rfl | inside
    · rw [Family.fork_child] at point ⊢
      cases point
      refine .inr ⟨rfl, rfl, ⟨Finset.mem_insert_of_mem runs, differs⟩, ?_⟩
      rw [log, owes, if_neg (by dsimp only; omega), if_pos rfl]
    · rw [Family.fork_proc p (old a inside)] at point ⊢
      dsimp only at point ⊢
      by_cases same : a = p
      · subst same
        rw [if_pos rfl] at point
        cases point
        refine .inl ⟨rfl, Finset.mem_insert_self _ _, ?_⟩
        rw [Family.fork_child, log, owes, if_pos rfl]
      · rw [if_neg same] at point
        rw [values a inside same]
        rcases owed.inside a inside parent childPCB point with
          ⟨mine, liveChild, value⟩ | ⟨_, runner, _⟩
        · rw [Family.fork_proc p (old childPCB liveChild)]
          exact .inl ⟨mine, Finset.mem_insert_of_mem liveChild, value⟩
        · exact absurd runner same
  · intro a inside outside
    rcases Finset.mem_insert.mp inside with rfl | inside
    · rw [Family.fork_child] at outside
      cases outside
    · rw [Family.fork_proc p (old a inside)] at outside ⊢
      dsimp only at outside ⊢
      by_cases same : a = p
      · rw [if_pos same] at outside
        cases outside
      · rw [if_neg same] at outside
        rw [values a inside same]
        exact owed.outside a inside outside

theorem step (owed : c.ForksOwed p) (runs : p ∈ c.live) (family : Family c)
    (past : c.ForksOver p) (forks : c.ForkStep p next d) (step : c.FamilyStep p next d) :
    d.ForksOwed next := by
  cases forks with
  | @forkFailed child junk user fresh =>
      have differs : p ≠ child := fun same => fresh (same ▸ runs)
      have value := owed.outside p runs (by rw [user]; rfl)
      refine owed.finish runs family step errorCode (.inl value) rfl ?_ ?_
      · simp [Function.update_of_ne differs]
      · rw [Crowd.finish_pos, if_pos rfl]
  | fork user fresh first =>
      subst first
      exact owed.fork runs family user fresh
  | forkReturn point =>
      have pays := owed.forkReturn runs family.pidDistinct point
      refine owed.finish runs family step _ (.inr pays) rfl rfl ?_
      rw [Crowd.finish_pos, if_pos rfl]
  | other live before after events => exact owed.other runs past step live before after events

end Crowd.ForksOwed

/-- No process exits while the process that forked it is still in `KernelFork`. -/
def Kernel.ForksOver (s : Kernel) : Prop :=
  s.cpu.isExit = true → ∀ a ∈ s.live, (s.pos a).forks s.currPCB = false

instance (s : Kernel) : Decidable s.ForksOver := inferInstanceAs (Decidable (_ → _))

/-- Forks return the right pids while no new child exits before its parent has the pid. -/
theorem run_forksReturn {s : Kernel} (run : yallnix.Run (fun s _ => s.ForksOver) s) :
    ForksReturn s.log := by
  refine (run_invariant (fun s => s.crowd.ForksOwed s.currPCB) ?_ ?_ run).returns
  · intro s _ fresh _
    have log : s.crowd.log = [] := fresh.log
    constructor
    · rw [log]
      intro result listed
      cases listed
    · intro a inside parent child point
      have plain := fresh.plain a inside
      rw [show (s.view.proc a).pos = .fork parent child from point] at plain
      cases plain
    · intro a _ _
      rw [log]
      rfl
  · intro s i t sound _ owed past _ step
    have live := sound.placed.live
    refine owed.step live sound.family ?_ (step.forkStep (sound.carries _ live)) step.family
    intro status exits a inside parent point
    have free := past (by rw [← s.pos_curr, show s.pos s.currPCB = _ from exits]; rfl) a inside
    rw [show s.pos a = _ from point, Pos.forks, decide_eq_false_iff_not] at free
    exact free rfl

end

section
attribute [local instance] smallHardware

/-- `init` forks a child, and both processes return. -/
theorem run_forksReturn_small : ∃ s : Kernel, forkResults s.log = [(some 2, 2), (some 0, 0)] ∧
    ForksReturn s.log := by
  obtain ⟨s, run, tested⟩ := exists_run (fun s _ => s.ForksOver)
    (fun s => decide (forkResults s.log = [(some 2, 2), (some 0, 0)]))
    [forks 2, goesOn, .clock, goesOn, .clock, goesOn] (by decide +kernel)
  exact ⟨s, of_decide_eq_true tested, run_forksReturn run⟩

/-- A child exits at once, and its parent gets the pid out of the freed PCB. -/
theorem forksReturn_false : ¬∀ s : Kernel, yallnix.Reachable s → ForksReturn s.log := by
  intro all
  obtain ⟨s, reachable, tested⟩ := exists_reachable (fun s => decide ¬ForksReturn s.log)
    [forks 2, goesOn, asks (.exit 0), goesOn, goesOn, .clock, goesOn] (by decide +kernel)
  exact of_decide_eq_true tested (all s reachable)

end

end Yallnix

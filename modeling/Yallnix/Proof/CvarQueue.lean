import Yallnix.ToMathlib.WaitQueue
import Yallnix.Proof.WakeStep
import Yallnix.Proof.PipeQueue

namespace Yallnix

section
variable [Hardware]

def Pos.isCvar : Pos → Bool
  | .cvarWoken .. => true
  | _ => false

theorem Pos.isPlain_isCvar {k : Pos} (plain : k.isPlain = true) : k.isCvar = false := by
  cases k <;> first | rfl | cases plain

/-- A wake-up by the pid of a blocked process takes it out of the blocked set. -/
theorem Crowd.Wake.gone {p a : Addr} {cause : Cause} {c d : Crowd} (resting : c.Resting p)
    (woken : Crowd.Wake cause (c.proc a).pid c d) : a ∉ d.blocked := by
  cases woken with
  | nobody absent => exact fun inside => absent a inside rfl
  | @somebody b blocked same =>
      rintro ⟨inside, other⟩
      exact other (resting.only (resting.sleeper b blocked).1 inside same.symm)

/-- A step of a process call does not wait for a condition variable. -/
theorem Crowd.Step.notCvar {p next : Addr} {c d : Crowd} (live : p ∈ c.live) (step : c.Step p next d)
    (inside : p ∈ d.live) : (d.proc p).pos.isCvar = false := by
  cases step with
  | quiet _ after _ =>
      rw [Crowd.move_pos, if_pos rfl]
      exact Pos.isPlain_isCvar after
  | fork _ fresh _ =>
      rw [Family.fork_proc p (by rintro rfl; exact fresh live)]
      dsimp only
      rw [if_pos rfl]
      rfl
  | exit _ _ => exact absurd inside (Finset.notMem_erase _ _)
  | waitBlock _ _ =>
      rw [Crowd.block_proc, Crowd.move_pos, if_pos rfl]
      rfl
  | _ =>
      rw [Crowd.finish_pos, if_pos rfl]
      rfl

namespace View

variable {p next : Addr} {act : Option Call} {v w : View}

/-- The process is blocked inside `KernelCvarWait` and has not been signalled. -/
def WaitsForCvar (v : View) (c : ObjPtr) (a : Addr) : Prop :=
  a ∈ v.live ∧ a ∈ v.blocked ∧ ∃ l, (v.proc a).pos = .cvarWoken c l

/-- What a step does to the queues of the condition variables. -/
inductive CvarEffect (p : Addr) (v w : View) : Prop where
  | outside (queues : w.cvars = v.cvars)
      (after : p ∈ w.live → (w.proc p).pos.isCvar = false)
  | creates {c : ObjPtr} (fresh : v.cvars c = none)
      (queues : w.cvars = Function.update v.cvars c (some []))
      (after : (w.proc p).pos.isCvar = false)
  | frees {c : ObjPtr} (empty : v.cvars c = some [])
      (queues : w.cvars = Function.update v.cvars c none)
      (after : (w.proc p).pos.isCvar = false)
  | joins {c l : Int} {members : Queue Addr} (present : v.cvars c = some members)
      (queues : w.cvars = Function.update v.cvars c (some (members ++ [p])))
      (before : (v.proc p).pos = .user) (after : (w.proc p).pos = .cvarWoken c l)
      (blocked : p ∈ w.blocked) (live : w.live = v.live)
  | wakes {c : ObjPtr} {members rest : Queue Addr} (present : v.cvars c = some members)
      (queues : w.cvars = Function.update v.cvars c (some rest))
      (sublist : rest.Sublist members)
      (woken : ∀ a ∈ members, a ∈ w.blocked → a ∈ rest)
      (after : (w.proc p).pos.isCvar = false)

/-- A broadcast finds the queue that it empties. -/
theorem dequeuesAll_known {cause : Cause} {c : ObjPtr}
    (dequeues : Relation.ReflTransGen (Dequeues cause c) v w) (empty : w.cvars c = some []) :
    ∃ cvarQ, v.cvars c = some cvarQ := by
  rcases dequeues.cases_head with rfl | ⟨_, first, _⟩
  · exact ⟨[], empty⟩
  · obtain ⟨_, _, object, _⟩ := first.objects
    exact ⟨_, object⟩

/-- A process that is dequeued is not blocked any more. -/
theorem Dequeues.woken (resting : v.Resting p) {cause : Cause} {c : ObjPtr}
    (dequeues : v.Dequeues cause c w) :
    w.Resting p ∧ ∃ first rest, v.cvars c = some (first :: rest) ∧ w.cvars c = some rest ∧
      w.blocked ⊆ v.blocked ∧ first ∉ w.blocked := by
  cases dequeues with
  | @mk first rest _ object woken =>
      have taken : w.cvars c = some rest := by
        rw [woken.objects]
        exact Function.update_self _ _ _
      cases woken with
      | @mk crowd woken =>
          obtain ⟨proc, live, blocked⟩ := woken.same
          have still : Crowd.Resting p crowd := by
            refine ⟨live ▸ resting.runner, fun a inside => ?_, ?_⟩
            · rw [proc, live]
              exact resting.sleeper a (blocked inside)
            · rw [proc, live]
              exact resting.distinct
          have gone := Crowd.Wake.gone (p := p) (a := first)
            (c := (v.setCvar c (some rest)).toCrowd) resting woken
          exact ⟨still, first, rest, object, taken, blocked, gone⟩

/-- A broadcast wakes the whole queue. -/
theorem dequeuesAll_woken (resting : v.Resting p) {cause : Cause} {c : ObjPtr}
    {cvarQ : Queue Addr} (object : v.cvars c = some cvarQ)
    (dequeues : Relation.ReflTransGen (Dequeues cause c) v w) :
    w.Resting p ∧ w.blocked ⊆ v.blocked ∧ ∃ behind, w.cvars c = some behind ∧
      ∀ a ∈ cvarQ, a ∈ w.blocked → a ∈ behind := by
  induction dequeues with
  | refl => exact ⟨resting, Set.Subset.refl _, cvarQ, object, fun a member _ => member⟩
  | tail _ last ih =>
      obtain ⟨still, blocked, behind, here, stays⟩ := ih
      obtain ⟨after, first, rest, before, taken, fewer, gone⟩ := last.woken still
      rw [here] at before
      cases before
      refine ⟨after, fewer.trans blocked, rest, taken, fun a member inside => ?_⟩
      refine (List.mem_cons.mp (stays a member (fewer inside))).resolve_left ?_
      rintro rfl
      exact gone inside

/-- Every step changes at most one queue, and a dequeued process is awake. -/
theorem Step.cvarEffect (resting : v.Resting p) (bounded : v.toObjects.Bounded)
    (step : v.Step p next act w) : CvarEffect p v w := by
  have finished (u : View) (call : Call) (code : Int) :
      ((u.finish p call code).proc p).pos.isCvar = false := by
    rw [View.finish, onCrowd_toCrowd, Crowd.finish_pos, if_pos rfl]
    rfl
  have suspended (u : View) {k : Pos} (notCvar : k.isCvar = false) :
      ((u.suspend p k).proc p).pos.isCvar = false := by
    rw [suspend_pos]
    exact notCvar
  cases step with
  | crowd step => exact .outside rfl fun live => step.notCvar resting.runner live
  | cvarInit _ =>
      have fresh : v.cvars v.nextSyncId = none := by
        by_contra present
        exact lt_irrefl _ (bounded.cvar.below _ present)
      exact .creates fresh rfl (finished _ _ _)
  | acquireBlock _ _ _ => exact .outside rfl fun _ => suspended _ rfl
  | @release l w _ _ releases =>
      obtain ⟨_, _, _, _, after⟩ := releases.objects
      have same : w.cvars = v.cvars := by
        rw [after]
        rfl
      exact .outside same fun _ => finished _ _ _
  | @cvarWait c l cvarQ w _ user _ object releases =>
      have joined : w.live = v.live ∧ w.cvars = Function.update v.cvars c (some (cvarQ ++ [p])) := by
        rcases releases with rfl | releases
        · exact ⟨rfl, rfl⟩
        · obtain ⟨_, _, _, _, after⟩ := releases.objects
          have keeps := keeps_releases (v := v.setCvar c (some (enqQ cvarQ p))) releases
          exact ⟨keeps.live, by rw [after]; rfl⟩
      exact .joins object joined.2 user (suspend_pos _ _ _) (Set.mem_insert _ _) joined.1
  | @signal c w _ _ _ dequeues =>
      rcases dequeues with ⟨_, rfl⟩ | dequeues
      · exact .outside rfl fun _ => finished _ _ _
      · obtain ⟨_, first, rest, object, taken, _, gone⟩ := dequeues.woken resting
        obtain ⟨_, _, same, after⟩ := dequeues.objects
        rw [object] at same
        cases same
        refine .wakes object (by rw [View.finish, onCrowd_cvars, after]; rfl)
          (List.sublist_cons_self first rest) ?_ (finished _ _ _)
        intro a member inside
        refine (List.mem_cons.mp member).resolve_left ?_
        rintro rfl
        exact gone inside
  | @broadcast c w _ _ _ dequeues empty =>
      obtain ⟨cvarQ, object⟩ := dequeuesAll_known dequeues empty
      obtain ⟨_, _, behind, here, stays⟩ := dequeuesAll_woken resting object dequeues
      rw [empty] at here
      cases here
      refine .wakes object ?_ (List.nil_sublist cvarQ) stays (finished _ _ _)
      rw [View.finish, onCrowd_cvars, (dequeuesAll_objects (by simp [object]) dequeues).2, empty]
      rfl
  | pipeBlock reads _ =>
      cases reads <;> exact .outside rfl fun _ => suspended _ rfl
  | @pipeTake pipep _ len pipe _ rest u x reads _ _ _ wakes =>
      have same : x.cvars = v.cvars := by
        have after : x.toObjects = (u.setPipe pipep (some (pipe.consumed len rest))).toObjects :=
          objects_of_wakes wakes
        rw [after]
        cases reads <;> rfl
      exact .outside same fun _ => finished _ _ _
  | pipeDry reads _ _ => cases reads <;> exact .outside rfl fun _ => finished _ _ _
  | @pipeWrite _ _ _ _ _ x _ _ _ _ _ _ _ _ wakes =>
      have same : x.cvars = v.cvars := by
        rw [wakes.objects]
        rfl
      exact .outside same fun _ => finished _ _ _
  | reclaimCvar _ _ _ object => exact .frees object rfl (finished _ _ _)
  | _ => exact .outside rfl fun _ => finished _ _ _

namespace CvarEffect

variable {c : ObjPtr} {members : Queue Addr} {a : Addr}

/-- Only a wait joins a queue. -/
theorem steps (effect : CvarEffect p v w) :
    QueueSteps p (fun c => (v.proc p).pos = .user ∧ w.live = v.live ∧ p ∈ w.blocked ∧
      ∃ l, (w.proc p).pos = .cvarWoken c l) v.cvars w.cvars := by
  cases effect with
  | outside queues _ => exact queues ▸ .refl p _ _
  | creates _ queues _ =>
      rw [queues]
      refine .update fun members same => ?_
      cases same
      exact .empty
  | frees _ queues _ =>
      rw [queues]
      refine .update fun members same => ?_
      cases same
  | joins present queues before after blocked live =>
      rw [queues]
      refine .update fun members same => ?_
      cases same
      rw [present]
      exact .joined ⟨before, live, blocked, _, after⟩
  | wakes present queues sublist _ _ =>
      rw [queues]
      refine .update fun members same => ?_
      cases same
      rw [present]
      exact .shrinks sublist

/-- A process that stays blocked stays in its queue. -/
theorem kept (effect : CvarEffect p v w) (before : v.cvars c = some members)
    (member : a ∈ members) (blocked : a ∈ w.blocked) :
    ∃ later, w.cvars c = some later ∧ a ∈ later := by
  have update {object : ObjPtr} {queue : Option (Queue Addr)}
      (after : w.cvars = Function.update v.cvars object queue)
      (here : c = object → ∃ later, queue = some later ∧ a ∈ later) :
      ∃ later, w.cvars c = some later ∧ a ∈ later := by
    rw [after]
    by_cases same : c = object
    · subst same
      rw [Function.update_self]
      exact here rfl
    · rw [Function.update_of_ne same]
      exact ⟨members, before, member⟩
  cases effect with
  | outside queues _ => exact ⟨members, queues ▸ before, member⟩
  | creates fresh queues _ =>
      refine update queues ?_
      rintro rfl
      rw [before] at fresh
      cases fresh
  | frees empty queues _ =>
      refine update queues ?_
      rintro rfl
      rw [before] at empty
      cases empty
      cases member
  | joins present queues _ _ _ _ =>
      refine update queues ?_
      rintro rfl
      rw [before] at present
      cases present
      exact ⟨_, rfl, List.mem_append_left _ member⟩
  | wakes present queues _ woken _ =>
      refine update queues ?_
      rintro rfl
      rw [before] at present
      cases present
      exact ⟨_, rfl, woken a member blocked⟩

/-- A process that waits after its step has just joined the queue. -/
theorem enters (effect : CvarEffect p v w) (live : p ∈ w.live) {l : Int}
    (point : (w.proc p).pos = .cvarWoken c l) :
    (v.proc p).pos = .user ∧ p ∈ w.blocked ∧ ∃ members, v.cvars c = some members ∧
      w.cvars c = some (members ++ [p]) := by
  have notCvar (after : (w.proc p).pos.isCvar = false) : False := by
    rw [point] at after
    cases after
  cases effect with
  | outside _ after => exact (notCvar (after live)).elim
  | creates _ _ after => exact (notCvar after).elim
  | frees _ _ after => exact (notCvar after).elim
  | wakes _ _ _ _ after => exact (notCvar after).elim
  | joins present queues before after blocked _ =>
      rw [point] at after
      cases after
      exact ⟨before, blocked, _, present, by rw [queues, Function.update_self]⟩

end CvarEffect

end View

end

end Yallnix

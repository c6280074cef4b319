import Yallnix.Construction.SmallMachine
import Yallnix.Proof.LockStep

namespace Yallnix

section
variable [Hardware]

/-- The holder of a lock is live and is its owner. -/
def View.Owned (v : View) : Prop :=
  ∀ pid l, holds pid l v.log = true → ∃ a ∈ v.live, (v.proc a).pid = pid ∧
    ∃ lock, v.locks l = some lock ∧ lock.ownerPcbp = some a

namespace View.Owned

variable {p : Addr} {v w : View}

/-- A change that keeps pids, owners and holders keeps the owners live. -/
theorem mono (owned : v.Owned) (live : ∀ a ∈ v.live, a ∈ w.live ∧ (w.proc a).pid = (v.proc a).pid)
    (owner : ∀ l lock a, v.locks l = some lock → lock.ownerPcbp = some a →
      ∃ lock, w.locks l = some lock ∧ lock.ownerPcbp = some a)
    (log : ∀ pid l, holds pid l w.log = true → holds pid l v.log = true) : w.Owned := by
  intro pid l held
  obtain ⟨a, inside, same, lock, object, mine⟩ := owned pid l (log pid l held)
  obtain ⟨stays, samePid⟩ := live a inside
  exact ⟨a, stays, samePid.trans same, owner l lock a object mine⟩

/-- A change of the crowd that writes only free events keeps the owners live. -/
theorem onCrowd (owned : v.Owned) {c : Crowd} (keeps : v.toCrowd.Keeps p c)
    (free : Crowd.Writes Event.isFree v.toCrowd c) : View.Owned { v with toCrowd := c } :=
  owned.mono (fun a live => ⟨keeps.live.symm ▸ live, keeps.pid a⟩)
    (fun _ lock _ object mine => ⟨lock, object, mine⟩)
    fun pid l held => holds_writes free pid l ▸ held

theorem finish (owned : v.Owned) (p : Addr) {call : Call} {code : Int}
    (free : Event.isFree (.returned (v.proc p).pid call code)) : (v.finish p call code).Owned :=
  owned.onCrowd (.finish p v.toCrowd call code) (.record free rfl)

theorem suspend (owned : v.Owned) (p : Addr) (k : Pos) : (v.suspend p k).Owned :=
  owned.onCrowd (.suspend p v.toCrowd k) (.same rfl)

theorem wake (owned : v.Owned) {cause : Cause} {pid : Int} (woken : v.Wake cause pid w) :
    w.Owned := by
  have writes := View.writes_wake woken
  cases woken with
  | mk woken => exact owned.onCrowd (.wake 0 woken) writes

/-- A lock may change everything but its owner. -/
theorem setLock (owned : v.Owned) {l : ObjPtr} {lock : Lock}
    (owner : ∀ old, v.locks l = some old → old.ownerPcbp = lock.ownerPcbp ∨ old.ownerPcbp = none) :
    (v.setLock l (some lock)).Owned := by
  refine owned.mono (fun a live => ⟨live, rfl⟩) (fun other old a object mine => ?_)
    fun _ _ held => held
  by_cases same : other = l
  · subst same
    refine ⟨lock, Function.update_self _ _ _, ?_⟩
    rcases owner old object with kept | free
    · exact kept ▸ mine
    · rw [free] at mine
      cases mine
  · exact ⟨old, (Function.update_of_ne same _ _).trans object, mine⟩

/-- The owner of a free lock is nobody, so a new owner takes it from nobody. -/
theorem take (owned : v.Owned) (live : p ∈ v.live) {l : ObjPtr} {call : Call} {lock : Lock}
    (acquires : v.Acquires p l call) (carries : (v.proc p).pos.carriesCall = true)
    (object : v.locks l = some lock) (free : lock.ownerPcbp = none) :
    ((v.setLock l (some { lock with ownerPcbp := some p })).finish p call successCode).Owned := by
  have names : ∀ pid other, Event.takes pid other (.returned (v.proc p).pid call successCode) =
      true → pid = (v.proc p).pid ∧ other = l := by
    intro pid other takes
    have names := acquires.carries carries
    cases call with
    | acquire lockId =>
        simp only [Event.takes, Bool.and_eq_true, decide_eq_true_eq] at takes
        simp only [Pos.carriesCall, decide_eq_true_eq] at names
        exact ⟨takes.1.1.symm, takes.1.2.symm.trans names⟩
    | cvarWait cvarId lockId =>
        simp only [Event.takes, Bool.and_eq_true, decide_eq_true_eq] at takes
        simp only [Pos.carriesCall, decide_eq_true_eq] at names
        exact ⟨takes.1.1.symm, takes.1.2.symm.trans names⟩
    | _ => cases takes
  intro pid other held
  change holds pid other (.returned (v.proc p).pid call successCode :: v.log) = true at held
  rw [holds, Bool.or_eq_true, Bool.and_eq_true] at held
  rcases held with takes | ⟨_, held⟩
  · obtain ⟨rfl, rfl⟩ := names pid other takes
    exact ⟨p, live, Crowd.finish_pid _ _ _ _ _, _, Function.update_self _ _ _, rfl⟩
  · obtain ⟨a, inside, same, old, present, mine⟩ := owned pid other held
    refine ⟨a, inside, (Crowd.finish_pid _ _ _ _ _).trans same, old, ?_, mine⟩
    by_cases isLock : other = l
    · subst isLock
      rw [object] at present
      cases present
      rw [free] at mine
      cases mine
    · exact (Function.update_of_ne isLock _ _).trans present

/-- The owner that releases a lock holds it no more. -/
theorem release (owned : v.Owned) {l : ObjPtr} (releases : v.Releases p l w) : w.Owned := by
  have freed {lock : Lock} {rest : Queue Addr} (object : v.locks l = some lock)
      (owner : lock.ownerPcbp = some p) :
      ((v.setLock l (some ⟨none, rest⟩)).record (.released (v.proc p).pid l)).Owned := by
    intro pid other held
    change holds pid other (.released (v.proc p).pid l :: v.log) = true at held
    rw [holds, Bool.or_eq_true, Bool.and_eq_true] at held
    obtain ⟨kept, held⟩ := held.resolve_left (by simp [Event.takes])
    obtain ⟨a, inside, same, old, present, mine⟩ := owned pid other held
    refine ⟨a, inside, same, old, ?_, mine⟩
    by_cases isLock : other = l
    · subst isLock
      rw [object] at present
      cases present
      rw [owner] at mine
      cases mine
      simp [Event.gives, same] at kept
    · exact (Function.update_of_ne isLock _ _).trans present
  cases releases with
  | alone _ object owner _ => exact freed object owner
  | waiter _ object owner _ woken => exact (freed object owner).wake woken

/-- A process step keeps the locks, and an exit takes the locks of its process away. -/
theorem crowd (owned : v.Owned) (live : p ∈ v.live) {next : Addr} {c : Crowd}
    (step : v.toCrowd.Step p next c) : View.Owned { v with toCrowd := c } := by
  have kept (notExit : ∀ status, (v.proc p).pos ≠ .exit status)
      (free : Crowd.Writes Event.isFree v.toCrowd c) : View.Owned { v with toCrowd := c } := by
    refine owned.mono (fun a inside => ?_) (fun _ lock _ object mine => ⟨lock, object, mine⟩)
      fun pid l held => holds_writes free pid l ▸ held
    by_cases same : a = p
    · subst same
      exact (step.family.self inside).resolve_right fun gone => notExit _ gone.2.choose_spec
    · obtain ⟨stays, _, samePid⟩ := step.family.other inside same
      exact ⟨stays, samePid⟩
  cases step with
  | quiet before _ silent =>
      refine owned.mono (fun a inside => ⟨inside, Crowd.move_pid _ _ _ _⟩)
        (fun _ lock _ object mine => ⟨lock, object, mine⟩) fun pid l held => ?_
      have free : Crowd.Writes Event.isFree v.toCrowd { v.toCrowd with log := _ ++ v.log } :=
        ⟨_, rfl, fun event member => Event.isQuiet_isFree (silent event member)⟩
      exact holds_writes free pid l ▸ held
  | forkFailed user _ => exact kept (by simp [user]) (.record (fun _ _ => ⟨rfl, rfl⟩) rfl)
  | fork user _ _ => exact kept (by simp [user]) (.record (fun _ _ => ⟨rfl, rfl⟩) rfl)
  | forkReturn point => exact kept (by simp [point]) (.record (fun _ _ => ⟨rfl, rfl⟩) rfl)
  | waitBlock user _ => exact kept (by simp [user]) (.same rfl)
  | waitCollect point _ =>
      refine kept (by rcases point with point | point <;> simp [point]) ?_
      exact ⟨[_, _], rfl, by simp [Event.isFree, Event.takes, Event.gives]⟩
  | waitEmpty point _ => exact kept (by simp [point]) (.record (fun _ _ => ⟨rfl, rfl⟩) rfl)
  | @exit status d junk point reports =>
      intro pid l held
      change holds pid l (.exited (v.proc p).pid status :: d.log) = true at held
      rw [holds, Bool.or_eq_true, Bool.and_eq_true, holds_writes (reports.writes fun _ _ _ => ⟨rfl, rfl⟩)] at held
      obtain ⟨kept, held⟩ := held.resolve_left (by simp [Event.takes])
      obtain ⟨a, inside, same, lock, object, mine⟩ := owned pid l held
      have other : a ≠ p := by
        rintro rfl
        simp [Event.gives, same] at kept
      have family := @Crowd.FamilyStep.exit _ p next _ status d junk point reports
      obtain ⟨stays, _, samePid⟩ := family.other inside other
      exact ⟨a, stays, samePid.trans same, lock, object, mine⟩

/-- Every step keeps the holders of locks live and their owners. -/
theorem step (owned : v.Owned) (bounded : v.toObjects.Bounded) (live : p ∈ v.live)
    (carries : (v.proc p).pos.carriesCall = true) {next : Addr} {act : Option Call}
    (step : v.LockStep p next act w) : w.Owned := by
  cases step with
  | crowd step => exact owned.crowd live step
  | other keeps locks _ free _ _ _ =>
      refine owned.mono (fun a inside => ⟨keeps.live.symm ▸ inside, keeps.pid a⟩) ?_
        fun pid l held => holds_writes free pid l ▸ held
      intro l lock a object mine
      exact ⟨lock, by rw [locks, object], mine⟩
  | lockInit _ =>
      have made : (({ v.created p with lockIds := insert v.nextSyncId v.lockIds }.setLock
          v.nextSyncId (some ⟨none, makeQ⟩))).Owned := by
        refine owned.mono (fun a inside => ⟨inside, rfl⟩) (fun l lock a object mine => ?_)
          fun pid l held => ?_
        · have old : l ≠ v.nextSyncId := by
            rintro rfl
            exact absurd (bounded.lock.below _ (by simp [object])) (lt_irrefl _)
          exact ⟨lock, (Function.update_of_ne old _ _).trans object, mine⟩
        · change holds pid l (.created (v.proc p).pid v.nextSyncId :: v.log) = true at held
          rwa [holds_free fun _ _ => ⟨rfl, rfl⟩] at held
      exact made.finish p fun _ _ => ⟨rfl, rfl⟩
  | acquireTake acquires object free => exact owned.take live acquires carries object free
  | acquireBlock _ object _ =>
      refine (owned.setLock fun old same => ?_).suspend p _
      rw [object] at same
      cases same
      exact .inl rfl
  | release _ releases => exact (owned.release releases).finish p fun _ _ => ⟨rfl, rfl⟩
  | @cvarWait c l cvarQ w _ releases =>
      have waiting : (v.setCvar c (some cvarQ)).Owned := owned
      rcases releases with rfl | releases
      · exact waiting.suspend p _
      · exact (waiting.release releases).suspend p _
  | @reclaimLock id lock _ _ object free =>
      have freed : ({ v with lockIds := v.lockIds \ {id} }.setLock id none).Owned := by
        refine owned.mono (fun a inside => ⟨inside, rfl⟩) (fun l old a present mine => ?_)
          fun _ _ held => held
        have other : l ≠ id := by
          rintro rfl
          rw [object] at present
          cases present
          rw [free] at mine
          cases mine
        exact ⟨old, (Function.update_of_ne other _ _).trans present, mine⟩
      exact freed.finish p fun _ _ => ⟨rfl, rfl⟩
  | @reclaimOwned id lock _ _ object _ =>
      have kept : ({ v with lockIds := v.lockIds \ {id} } : View).Owned := owned
      refine (kept.setLock fun old same => ?_).finish p fun _ _ => ⟨rfl, rfl⟩
      have present : v.locks id = some old := same
      rw [object] at present
      cases present
      exact .inl rfl

end View.Owned

end

section
attribute [local instance] smallHardware

end

end Yallnix

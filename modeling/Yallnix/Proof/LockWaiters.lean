import Yallnix.Proof.StaleReference

namespace Yallnix

section
variable [Hardware]

def Pos.isAcquire : Pos → Bool
  | .acquire .. => true
  | _ => false

theorem Pos.isPlain_isAcquire {k : Pos} (plain : k.isPlain = true) : k.isAcquire = false := by
  cases k <;> first | rfl | cases plain

/-- A step of a process call neither begins nor ends in the loop of `KernelAcquire`. -/
theorem Crowd.Step.notAcquire {p next : Addr} {c d : Crowd} (live : p ∈ c.live)
    (step : c.Step p next d) :
    (c.proc p).pos.isAcquire = false ∧ (p ∈ d.live → (d.proc p).pos.isAcquire = false) := by
  have finished (e : Crowd) (call : Call) (code : Int) :
      ((e.finish p call code).proc p).pos.isAcquire = false := by
    rw [Crowd.finish_pos, if_pos rfl]
    rfl
  cases step with
  | quiet before after _ =>
      refine ⟨Pos.isPlain_isAcquire before, fun _ => ?_⟩
      rw [Crowd.move_pos, if_pos rfl]
      exact Pos.isPlain_isAcquire after
  | forkFailed user _ => exact ⟨by rw [user]; rfl, fun _ => finished _ _ _⟩
  | fork user fresh _ =>
      refine ⟨by rw [user]; rfl, fun _ => ?_⟩
      rw [Family.fork_proc p (by rintro rfl; exact fresh live)]
      dsimp only
      rw [if_pos rfl]
      rfl
  | forkReturn point => exact ⟨by rw [point]; rfl, fun _ => finished _ _ _⟩
  | exit point _ =>
      exact ⟨by rw [point]; rfl, fun inside => absurd inside (Finset.notMem_erase _ _)⟩
  | waitBlock user _ =>
      refine ⟨by rw [user]; rfl, fun _ => ?_⟩
      rw [Crowd.block_proc, Crowd.move_pos, if_pos rfl]
      rfl
  | waitCollect point _ =>
      refine ⟨?_, fun _ => finished _ _ _⟩
      rcases point with point | point <;> rw [point] <;> rfl
  | waitEmpty point _ => exact ⟨by rw [point]; rfl, fun _ => finished _ _ _⟩

namespace View

variable {p next : Addr} {act : Option Call} {v w : View}

/-- The process is inside the loop of `KernelAcquire`. -/
def InLock (v : View) (l : ObjPtr) (a : Addr) : Prop :=
  a ∈ v.live ∧ ∃ call, (v.proc a).pos = .acquire l call

theorem InLock.isAcquire {l : ObjPtr} {a : Addr} (inside : v.InLock l a) :
    (v.proc a).pos.isAcquire = true := by
  obtain ⟨-, call, point⟩ := inside
  rw [point]
  rfl

theorem not_inLock {a : Addr} (outside : a ∈ v.live → (v.proc a).pos.isAcquire = false)
    (l : ObjPtr) : ¬v.InLock l a := by
  intro inside
  cases (outside inside.1).symm.trans inside.isAcquire

/-- What a step does to the locks and to the running process in them. -/
inductive LockEffect (p : Addr) (act : Option Call) (v w : View) : Prop where
  | outside (locks : w.locks = v.locks) (ids : w.lockIds = v.lockIds)
      (before : ∀ l, ¬v.InLock l p) (after : ∀ l, ¬w.InLock l p)
  | creates {id : ObjPtr} (fresh : v.locks id = none)
      (locks : w.locks = Function.update v.locks id (some ⟨none, []⟩))
      (ids : w.lockIds = insert id v.lockIds)
      (before : ∀ l, ¬v.InLock l p) (after : ∀ l, ¬w.InLock l p)
  | takes {l : ObjPtr} {lock : Lock}
      (locks : w.locks = Function.update v.locks l (some { lock with ownerPcbp := some p }))
      (ids : w.lockIds = v.lockIds) (object : v.locks l = some lock)
      (before : ∀ other, v.InLock other p → other = l) (after : ∀ l, ¬w.InLock l p)
  | joins {l : ObjPtr} {call : Call} {lock : Lock} (acquires : v.Acquires p l call)
      (object : v.locks l = some lock) (taken : lock.ownerPcbp ≠ none)
      (locks : w.locks =
        Function.update v.locks l (some { lock with waitingQ := enqQ lock.waitingQ p }))
      (ids : w.lockIds = v.lockIds) (before : ∀ other, v.InLock other p → other = l)
      (after : ∀ other, w.InLock other p → other = l)
  | frees {l : ObjPtr} {lock : Lock} (object : v.locks l = some lock)
      (locks : w.locks = Function.update v.locks l (some ⟨none, lock.waitingQ.tail⟩))
      (ids : w.lockIds = v.lockIds)
      (before : ∀ l, ¬v.InLock l p) (after : ∀ l, ¬w.InLock l p)
      (woken : ∀ first rest, lock.waitingQ = first :: rest → first ∉ w.blocked)
  | reclaims {id : ObjPtr} (called : act = some (.reclaim id))
      (others : ∀ l, l ≠ id → w.locks l = v.locks l) (ids : w.lockIds = v.lockIds \ {id})
      (emptied : ∀ lock, w.locks id = some lock → lock.waitingQ = [])
      (before : ∀ l, ¬v.InLock l p) (after : ∀ l, ¬w.InLock l p)

/-- A process enters the loop of one lock only. -/
theorem Acquires.before {l other : ObjPtr} {call : Call} (acquires : v.Acquires p l call)
    (inside : v.InLock other p) : other = l := by
  obtain ⟨-, called, point⟩ := inside
  cases acquires with
  | call user _ => cases user.symm.trans point
  | again here => exact (Pos.acquire.inj (here.symm.trans point)).1.symm
  | woken here _ => cases here.symm.trans point

/-- A release takes the head of the queue out of the blocked processes. -/
theorem Releases.woken (resting : v.Resting p) {l : ObjPtr} (releases : v.Releases p l w) :
    ∃ lock, v.locks l = some lock ∧
      w.locks = Function.update v.locks l (some ⟨none, lock.waitingQ.tail⟩) ∧
      w.lockIds = v.lockIds ∧
      ∀ first rest, lock.waitingQ = first :: rest → first ∉ w.blocked := by
  obtain ⟨lock, -, object, -, after⟩ := releases.objects
  have ids := congrArg Objects.lockIds after
  refine ⟨lock, object, congrArg Objects.locks after, ids, fun first rest queue => ?_⟩
  cases releases with
  | alone _ same _ none =>
      cases object.symm.trans same
      cases queue.symm.trans none
  | @waiter other head behind _ _ same _ here woken =>
      cases object.symm.trans same
      cases queue.symm.trans here
      cases woken with
      | mk woken =>
          exact Crowd.Wake.gone (p := p) (c := ((v.setLock l (some ⟨none, rest⟩)).record
            (.released (v.proc p).pid l)).toCrowd)
            ⟨resting.runner, resting.sleeper, resting.distinct⟩ woken

/-- Every step changes at most one lock. -/
theorem LockStep.effect (resting : v.Resting p) (queues : v.Queues)
    (bounded : v.toObjects.Bounded) (step : v.LockStep p next act w) : LockEffect p act v w := by
  have finished (u : View) (call : Call) (code : Int) (l : ObjPtr) :
      ¬(u.finish p call code).InLock l p := by
    refine not_inLock (fun _ => ?_) l
    rw [View.finish, onCrowd_toCrowd, Crowd.finish_pos, if_pos rfl]
    rfl
  have userOut (user : (v.proc p).pos = .user) (l : ObjPtr) : ¬v.InLock l p :=
    not_inLock (fun _ => by rw [user]; rfl) l
  cases step with
  | crowd step =>
      obtain ⟨before, after⟩ := step.notAcquire resting.runner
      exact .outside rfl rfl (not_inLock fun _ => before) (not_inLock after)
  | other _ locks ids _ before after _ =>
      refine .outside locks ids ?_ ?_
      · rintro l ⟨-, call, point⟩
        exact before l call point
      · rintro l ⟨-, call, point⟩
        exact after l call point
  | lockInit user =>
      have fresh : v.locks v.nextSyncId = none := by
        by_contra present
        exact lt_irrefl _ (bounded.lock.below _ present)
      exact .creates fresh rfl rfl (userOut user) (finished _ _ _)
  | acquireTake acquires object _ =>
      exact .takes rfl rfl object (fun other => acquires.before) (finished _ _ _)
  | acquireBlock acquires object taken =>
      refine .joins acquires object taken rfl rfl (fun other => acquires.before) ?_
      rintro other ⟨-, called, point⟩
      exact (Pos.acquire.inj ((suspend_pos _ _ _).symm.trans point)).1.symm
  | release user releases =>
      obtain ⟨lock, object, locks, ids, woken⟩ := releases.woken resting
      exact .frees object locks ids (userOut user) (finished _ _ _) woken
  | @cvarWait c l cvarQ w user releases =>
      have after (u : View) (other : ObjPtr) : ¬(u.suspend p (.cvarWoken c l)).InLock other p := by
        refine not_inLock (fun _ => ?_) other
        rw [suspend_pos]
        rfl
      rcases releases with rfl | releases
      · exact .outside rfl rfl (userOut user) (after _)
      · obtain ⟨lock, object, locks, ids, woken⟩ :=
          releases.woken (v := v.setCvar c (some cvarQ)) resting
        refine .frees object locks ids (userOut user) (after _) fun first rest queue => ?_
        have here : v.lockQueue l = some lock.waitingQ := by
          rw [lockQueue, Function.comp_apply, show v.locks l = _ from object]
          rfl
        have blocked := (queues.lock.waits l _ here first (queue ▸ List.mem_cons_self)).2.1
        rintro (rfl | inside)
        · exact (resting.sleeper first blocked).2.1 rfl
        · exact woken first rest queue inside
  | reclaimLock called user object free =>
      refine .reclaims called (fun other differs => Function.update_of_ne differs _ _) rfl ?_
        (userOut user) (finished _ _ _)
      intro lock present
      cases (Function.update_self _ _ _).symm.trans present
  | reclaimOwned called user object owned =>
      refine .reclaims called (fun other differs => Function.update_of_ne differs _ _) rfl ?_
        (userOut user) (finished _ _ _)
      intro lock present
      cases (Function.update_self _ _ _).symm.trans present
      rfl

/-- Every process in the loop of `KernelAcquire` will get its turn at a lock that can be freed. -/
structure LockServed (v : View) : Prop where
  known : ∀ l a, v.InLock l a → l ∈ v.lockIds
  joined : ∀ l a, v.InLock l a → a ∈ v.blocked →
    ∃ lock, v.locks l = some lock ∧ a ∈ lock.waitingQ
  woken : ∀ l lock, v.locks l = some lock →
    Woken (lock.ownerPcbp = none) lock.waitingQ (v.InLock l)

namespace LockServed

variable {l : ObjPtr} {a : Addr}

/-- The other processes stay in the loops of their locks. -/
theorem inLock_other (family : v.toCrowd.FamilyStep p next w.toCrowd) (other : a ≠ p) :
    w.InLock l a ↔ v.InLock l a := by
  constructor
  · rintro ⟨inside, call, point⟩
    rcases family.live inside with old | ⟨-, -, born⟩
    · exact ⟨old, call, (family.other old other).2.1.symm.trans point⟩
    · cases born.symm.trans point
  · rintro ⟨live, call, point⟩
    obtain ⟨stays, pos, -⟩ := family.other live other
    exact ⟨stays, call, pos.trans point⟩

/-- A process that waits behind an unchanged lock waits as before. -/
theorem woken_same (served : v.LockServed) (family : v.toCrowd.FamilyStep p next w.toCrowd)
    (before : ¬v.InLock l p) {lock : Lock} (object : v.locks l = some lock) :
    Woken (lock.ownerPcbp = none) lock.waitingQ (w.InLock l) := by
  refine (served.woken l lock object).same (fun gate => gate) fun a inside => ?_
  refine (inLock_other family ?_).mpr inside
  rintro rfl
  exact before inside

/-- A member of the queue of a lock is another process in the loop of `KernelAcquire`. -/
theorem member (resting : v.Resting p) (queues : v.Queues) {lock : Lock}
    (object : v.locks l = some lock) (member : a ∈ lock.waitingQ) : v.InLock l a ∧ a ≠ p := by
  have here : v.lockQueue l = some lock.waitingQ := by
    rw [lockQueue, Function.comp_apply, object]
    rfl
  obtain ⟨live, blocked, call, point⟩ := queues.lock.waits l _ here a member
  exact ⟨⟨live, call, point⟩, (resting.sleeper a blocked).2.1⟩

/-- A process in the loop of a lock keeps a lock that is still in the map. -/
theorem known_step (served : v.LockServed) (resting : v.Resting p)
    (family : v.toCrowd.FamilyStep p next w.toCrowd)
    (idle : ∀ id, act = some (.reclaim id) → ∀ a, ¬v.InLock id a)
    (effect : LockEffect p act v w) (inside : w.InLock l a) : l ∈ w.lockIds := by
  by_cases other : a = p
  · subst other
    cases effect with
    | outside _ _ _ after => exact absurd inside (after l)
    | creates _ _ _ _ after => exact absurd inside (after l)
    | takes _ _ _ _ after => exact absurd inside (after l)
    | frees _ _ _ _ after _ => exact absurd inside (after l)
    | reclaims _ _ _ _ _ after => exact absurd inside (after l)
    | joins acquires _ _ _ ids _ after =>
        cases after l inside
        rw [ids]
        cases acquires with
        | call _ known => exact known
        | again point => exact served.known l a ⟨resting.runner, _, point⟩
        | woken _ known => exact known
  · have old := (inLock_other family other).mp inside
    have known := served.known l a old
    cases effect with
    | outside _ ids _ _ => exact ids ▸ known
    | creates _ _ ids _ _ => exact ids ▸ Set.mem_insert_of_mem _ known
    | takes _ ids _ _ _ => exact ids ▸ known
    | joins _ _ _ _ ids _ _ => exact ids ▸ known
    | frees _ _ ids _ _ _ => exact ids ▸ known
    | reclaims called _ ids _ _ _ =>
        rw [ids]
        refine ⟨known, ?_⟩
        rintro rfl
        exact idle _ called a old

/-- A blocked process in the loop of a lock is in the queue of the lock. -/
theorem joined_step (served : v.LockServed) (family : v.toCrowd.FamilyStep p next w.toCrowd)
    (blocked : w.blocked ⊆ insert p v.blocked)
    (idle : ∀ id, act = some (.reclaim id) → ∀ a, ¬v.InLock id a)
    (effect : LockEffect p act v w) (inside : w.InLock l a) (sleeps : a ∈ w.blocked) :
    ∃ lock, w.locks l = some lock ∧ a ∈ lock.waitingQ := by
  by_cases other : a = p
  · subst other
    cases effect with
    | outside _ _ _ after => exact absurd inside (after l)
    | creates _ _ _ _ after => exact absurd inside (after l)
    | takes _ _ _ _ after => exact absurd inside (after l)
    | frees _ _ _ _ after _ => exact absurd inside (after l)
    | reclaims _ _ _ _ _ after => exact absurd inside (after l)
    | joins _ _ _ locks _ _ after =>
        cases after l inside
        rw [locks, Function.update_self]
        exact ⟨_, rfl, List.mem_append_right _ List.mem_cons_self⟩
  · have old := (inLock_other family other).mp inside
    have slept := (blocked sleeps).resolve_left other
    obtain ⟨lock, object, member⟩ := served.joined l a old slept
    cases effect with
    | outside locks _ _ _ => exact ⟨lock, locks ▸ object, member⟩
    | @creates id fresh locks _ _ _ =>
        rw [locks, Function.update_of_ne]
        · exact ⟨lock, object, member⟩
        · rintro rfl
          cases fresh.symm.trans object
    | @takes changed before locks _ here _ _ =>
        rw [locks]
        by_cases same : l = changed
        · subst same
          cases here.symm.trans object
          rw [Function.update_self]
          exact ⟨_, rfl, member⟩
        · rw [Function.update_of_ne same]
          exact ⟨lock, object, member⟩
    | @joins changed _ before _ here _ locks _ _ _ =>
        rw [locks]
        by_cases same : l = changed
        · subst same
          cases here.symm.trans object
          rw [Function.update_self]
          exact ⟨_, rfl, List.mem_append_left _ member⟩
        · rw [Function.update_of_ne same]
          exact ⟨lock, object, member⟩
    | @frees changed before here locks _ _ _ woken =>
        rw [locks]
        by_cases same : l = changed
        · subst same
          cases here.symm.trans object
          rw [Function.update_self]
          refine ⟨_, rfl, ?_⟩
          cases queue : lock.waitingQ with
          | nil =>
              rw [queue] at member
              cases member
          | cons first rest =>
              rw [queue] at member
              rcases List.mem_cons.mp member with rfl | member
              · exact absurd sleeps (woken _ _ queue)
              · exact member
        · rw [Function.update_of_ne same]
          exact ⟨lock, object, member⟩
    | reclaims called others _ _ _ _ =>
        rw [others l]
        · exact ⟨lock, object, member⟩
        · rintro rfl
          exact idle _ called a old

/-- A free lock with a queue has a process on its way to it. -/
theorem woken_step (served : v.LockServed) (queues : v.Queues) (resting : v.Resting p)
    (family : v.toCrowd.FamilyStep p next w.toCrowd) (effect : LockEffect p act v w)
    {lock : Lock} (object : w.locks l = some lock) :
    Woken (lock.ownerPcbp = none) lock.waitingQ (w.InLock l) := by
  cases effect with
  | outside locks _ before _ => exact served.woken_same family (before l) (locks ▸ object)
  | @creates id _ locks _ before _ =>
      rw [locks] at object
      by_cases same : l = id
      · subst same
        cases (Function.update_self _ _ _).symm.trans object
        intro _ full
        exact absurd rfl full
      · rw [Function.update_of_ne same] at object
        exact served.woken_same family (before l) object
  | @takes changed _ locks _ _ before _ =>
      rw [locks] at object
      by_cases same : l = changed
      · subst same
        cases (Function.update_self _ _ _).symm.trans object
        intro free
        cases free
      · rw [Function.update_of_ne same] at object
        exact served.woken_same family (fun inside => same (before l inside)) object
  | @joins changed _ _ _ _ taken locks _ before _ =>
      rw [locks] at object
      by_cases same : l = changed
      · subst same
        cases (Function.update_self _ _ _).symm.trans object
        intro free
        exact absurd free taken
      · rw [Function.update_of_ne same] at object
        exact served.woken_same family (fun inside => same (before l inside)) object
  | @frees changed freed here locks _ before _ _ =>
      rw [locks] at object
      by_cases same : l = changed
      · subst same
        cases (Function.update_self _ _ _).symm.trans object
        have queue : v.lockQueue l = some freed.waitingQ := by
          rw [lockQueue, Function.comp_apply, here]
          rfl
        refine .dequeue (queues.lock.nodup l _ queue) fun a inside => ?_
        obtain ⟨waits, other⟩ := member resting queues here inside
        exact (inLock_other family other).mpr waits
      · rw [Function.update_of_ne same] at object
        exact served.woken_same family (before l) object
  | @reclaims id _ others _ emptied before _ =>
      by_cases same : l = id
      · subst same
        intro _ full
        exact absurd (emptied lock object) full
      · rw [others l same] at object
        exact served.woken_same family (before l) object

/-- The locks stay served if nobody reclaims a lock under a process in its loop. -/
theorem step (served : v.LockServed) (queues : v.Queues) (resting : v.Resting p)
    (family : v.toCrowd.FamilyStep p next w.toCrowd) (blocked : w.blocked ⊆ insert p v.blocked)
    (idle : ∀ id, act = some (.reclaim id) → ∀ a, ¬v.InLock id a)
    (effect : LockEffect p act v w) : w.LockServed where
  known _ _ := served.known_step resting family idle effect
  joined _ _ := served.joined_step family blocked idle effect
  woken _ _ := served.woken_step queues resting family effect

end LockServed

end View

/-- A process in the loop of `KernelAcquire` that neither runs nor is blocked is in `readyQ`. -/
theorem Placed.acquire_ready {s : Scheduler} (placed : Placed s) {a : Addr} (live : a ∈ s.live)
    (off : a ≠ s.currPCB) (awake : a ∉ s.blockedMap.items) {l : ObjPtr} {call : Call}
    (point : s.pos a = .acquire l call) : a ∈ s.readyQ := by
  refine Settled.awake_ready placed live (fun out => off (Finset.mem_singleton.mp out)) ?_ awake
  rw [point]
  rfl

/-- The owner of the lock can release it, or a process outside its queue will test it. -/
def Kernel.LockAttended (s : Kernel) (l : ObjPtr) (lock : Lock) : Prop :=
  (∃ owner ∈ s.live, lock.ownerPcbp = some owner ∧ l ∈ s.lockMap.keys) ∨
    ∃ b call, s.pos b = .acquire l call ∧ b ∉ lock.waitingQ ∧ (b ∈ s.readyQ ∨ b = s.currPCB)

/-- The queues and the owners of the locks in a run that keeps the locks. -/
structure Kernel.LocksWork (s : Kernel) : Prop where
  bounded : s.view.toObjects.Bounded
  owners : s.view.OwnersLive
  served : s.view.LockServed

section
variable {s : Kernel}

/-- A lock with a blocked waiter is attended. -/
theorem Kernel.LocksWork.attended (work : s.LocksWork) (sound : Sound s)
    {a : Addr} (blocked : a ∈ s.blockedMap.items) {l : ObjPtr} {call : Call}
    (point : s.pos a = .acquire l call) :
    ∃ lock, s.locks l = some lock ∧ s.LockAttended l lock := by
  have live : a ∈ s.live := (sound.resting.sleeper a blocked).1
  have inside : s.view.InLock l a := ⟨live, call, point⟩
  obtain ⟨lock, object, member⟩ := work.served.joined l a inside blocked
  refine ⟨lock, object, ?_⟩
  cases owner : lock.ownerPcbp with
  | some holder =>
      exact .inl ⟨holder, work.owners l lock holder object owner, owner, work.served.known l a inside⟩
  | none =>
      obtain ⟨b, ⟨liveB, other, pointB⟩, absent⟩ :=
        work.served.woken l lock object owner (List.ne_nil_of_mem member)
      refine .inr ⟨b, other, pointB, absent, ?_⟩
      by_cases runs : b = s.currPCB
      · exact .inr runs
      · refine .inl (sound.placed.acquire_ready liveB runs (fun asleep => absent ?_) pointB)
        obtain ⟨found, same, queued⟩ := work.served.joined l b ⟨liveB, other, pointB⟩ asleep
        cases object.symm.trans same
        exact queued

/-- A release with a blocked waiter wakes one. -/
theorem Kernel.LocksWork.wakes (work : s.LocksWork) (queues : s.view.Queues) (sound : Sound s)
    {l : ObjPtr} {t : Kernel} (done : kernelRelease l s = .ok (successCode, t)) {a : Addr}
    (blocked : a ∈ s.blockedMap.items) {call : Call} (point : s.pos a = .acquire l call) :
    ∃ b ∈ s.blockedMap.items, b ∉ t.blockedMap.items ∧ b ∈ t.readyQ ∧
      ∃ call, t.pos b = .acquire l call := by
  have live : a ∈ s.live := (sound.resting.sleeper a blocked).1
  obtain ⟨lock, object, member⟩ := work.served.joined l a ⟨live, call, point⟩ blocked
  obtain ⟨failed, -⟩ | ⟨-, releases, placed, -, curr, -, -⟩ :=
    kernelRelease_refines sound.placed sound.named done
  · cases failed
  · obtain ⟨freed, here, -, -, woken⟩ := releases.woken sound.resting
    cases object.symm.trans here
    cases queue : lock.waitingQ with
    | nil =>
        rw [queue] at member
        cases member
    | cons first rest =>
        have known : s.view.lockQueue l = some lock.waitingQ := by
          rw [View.lockQueue, Function.comp_apply, show s.view.locks l = _ from object]
          rfl
        obtain ⟨liveB, asleep, called, waits⟩ :=
          queues.lock.waits l _ known first (queue ▸ List.mem_cons_self)
        have keeps := View.keeps_releases releases
        have off : first ≠ s.currPCB := (sound.resting.sleeper first asleep).2.1
        have pos : t.pos first = .acquire l called := (keeps.pos first off).trans waits
        have awake : first ∉ t.blockedMap.items := woken first rest queue
        exact ⟨first, asleep, awake, placed.acquire_ready (keeps.live.ge liveB) (curr ▸ off) awake
          pos, called, pos⟩

end

end

section
attribute [local instance] smallHardware

/-- The program point is in the loop of this lock. -/
def Pos.acquires (l : ObjPtr) : Pos → Bool
  | .acquire other _ => other = l
  | _ => false

end

end Yallnix

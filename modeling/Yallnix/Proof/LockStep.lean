import Yallnix.Proof.ObjectInvariant

namespace Yallnix

section
variable [Hardware]

/-- A successful acquire takes the lock, also at the end of a wait. -/
def Event.takes (pid l : Int) : Event → Bool
  | .returned owner (.acquire lockId) code | .returned owner (.cvarWait _ lockId) code =>
      owner = pid && lockId = l && code = successCode
  | _ => false

/-- A successful release gives the lock up, and an exit gives up every lock. -/
def Event.gives (pid l : Int) : Event → Bool
  | .released owner lockId => owner = pid && lockId = l
  | .exited owner _ => owner = pid
  | _ => false

/-- A process holds a lock that it took and has not given up since. -/
def holds (pid l : Int) : List Event → Bool
  | [] => false
  | event :: older => event.takes pid l || (!event.gives pid l && holds pid l older)

/-- The event neither takes nor gives a lock. -/
def Event.isFree (event : Event) : Prop :=
  ∀ pid l, event.takes pid l = false ∧ event.gives pid l = false

theorem holds_free {event : Event} (free : event.isFree) (pid l : Int) (log : List Event) :
    holds pid l (event :: log) = holds pid l log := by
  rw [holds, (free pid l).1, (free pid l).2, Bool.false_or, Bool.not_false, Bool.true_and]

theorem Event.isQuiet_isFree {event : Event} (quiet : event.isQuiet = true) : event.isFree := by
  intro pid l
  cases event with
  | returned owner call code =>
      cases call with
      | acquire lockId =>
          have failed : code ≠ successCode := by simpa [Event.isQuiet, Call.isQuiet] using quiet
          simp [Event.takes, Event.gives, failed]
      | cvarWait cvarId lockId =>
          have failed : code ≠ successCode := by simpa [Event.isQuiet, Call.isQuiet] using quiet
          simp [Event.takes, Event.gives, failed]
      | _ => exact ⟨rfl, rfl⟩
  | transmitted | received => exact ⟨rfl, rfl⟩
  | _ => cases quiet

theorem holds_writes {c d : Crowd} (writes : Crowd.Writes Event.isFree c d) (pid l : Int) :
    holds pid l d.log = holds pid l c.log := by
  obtain ⟨events, log, free⟩ := writes
  rw [log]
  clear log
  induction events with
  | nil => rfl
  | cons event rest ih =>
      rw [List.cons_append, holds_free (free event List.mem_cons_self)]
      exact ih fun other member => free other (List.mem_cons_of_mem _ member)

/-- These calls may wake a process that waits for something else. -/
def Call.rouses : Call → Bool
  | .cvarSignal _ | .cvarBroadcast _ | .pipeRead .. | .pipeWrite .. => true
  | _ => false

def Pos.isPipe : Pos → Bool
  | .pipeRead .. => true
  | _ => false

/-- A call or a program point that wakes nobody by mistake. -/
def View.Calm (v : View) (p : Addr) (act : Option Call) : Prop :=
  (∀ call, act = some call → call.rouses = false) ∧ (v.proc p).pos.isPipe = false

namespace View

/-- The steps of the kernel as the locks see them. -/
inductive LockStep (p next : Addr) (act : Option Call) (v : View) : View → Prop where
  | crowd {c : Crowd} (step : v.toCrowd.Step p next c) :
      LockStep p next act v { v with toCrowd := c }
  | other {w : View} (keeps : v.toCrowd.Keeps p w.toCrowd) (locks : w.locks = v.locks)
      (lockIds : w.lockIds = v.lockIds) (free : Crowd.Writes Event.isFree v.toCrowd w.toCrowd)
      (before : ∀ l call, (v.proc p).pos ≠ .acquire l call)
      (after : ∀ l call, (w.proc p).pos ≠ .acquire l call)
      (calm : v.Calm p act → v.blocked ⊆ w.blocked ∧ (w.proc p).pos.isPipe = false) :
      LockStep p next act v w
  | lockInit (user : (v.proc p).pos = .user) :
      LockStep p next act v (({ v.created p with lockIds := insert v.nextSyncId v.lockIds }.setLock
        v.nextSyncId (some ⟨none, makeQ⟩)).finish p .lockInit successCode)
  | acquireTake {l : ObjPtr} {call : Call} {lock : Lock} (acquires : v.Acquires p l call)
      (object : v.locks l = some lock) (free : lock.ownerPcbp = none) :
      LockStep p next act v
        ((v.setLock l (some { lock with ownerPcbp := some p })).finish p call successCode)
  | acquireBlock {l : ObjPtr} {call : Call} {lock : Lock} (acquires : v.Acquires p l call)
      (object : v.locks l = some lock) (taken : lock.ownerPcbp ≠ none) :
      LockStep p next act v
        ((v.setLock l (some { lock with waitingQ := enqQ lock.waitingQ p })).suspend p
          (.acquire l call))
  | release {l : ObjPtr} {w : View} (user : (v.proc p).pos = .user)
      (releases : v.Releases p l w) :
      LockStep p next act v (w.finish p (.release l) successCode)
  | cvarWait {c l : Int} {cvarQ : Queue Addr} {w : View} (user : (v.proc p).pos = .user)
      (releases : w = v.setCvar c (some cvarQ) ∨ (v.setCvar c (some cvarQ)).Releases p l w) :
      LockStep p next act v (w.suspend p (.cvarWoken c l))
  | reclaimLock {id : Int} {lock : Lock} (called : act = some (.reclaim id))
      (user : (v.proc p).pos = .user) (object : v.locks id = some lock)
      (free : lock.ownerPcbp = none) :
      LockStep p next act v (({ v with lockIds := v.lockIds \ {id} }.setLock id none).finish p
        (.reclaim id) successCode)
  | reclaimOwned {id : Int} {lock : Lock} (called : act = some (.reclaim id))
      (user : (v.proc p).pos = .user) (object : v.locks id = some lock)
      (owned : lock.ownerPcbp ≠ none) :
      LockStep p next act v (({ v with lockIds := v.lockIds \ {id} }.setLock id
        (some { lock with waitingQ := makeQ })).finish p (.reclaim id) errorCode)

section
variable {p next : Addr} {act : Option Call} {v w : View}

/-- A wake-up of a sync call is invisible to the locks. -/
theorem writes_wake {cause : Cause} {pid : Int} (woken : v.Wake cause pid w) :
    Crowd.Writes Event.isFree v.toCrowd w.toCrowd := by
  cases woken with
  | mk woken => exact .wake woken fun _ _ _ => ⟨rfl, rfl⟩

theorem writes_wakesHead {pipep : ObjPtr} {waitingQ : Queue Addr}
    (wakes : v.WakesHead pipep waitingQ w) : Crowd.Writes Event.isFree v.toCrowd w.toCrowd := by
  cases wakes with
  | empty => exact .same rfl
  | head woken => exact writes_wake woken

theorem writes_dequeuesAll {cause : Cause} {c : ObjPtr}
    (dequeues : Relation.ReflTransGen (Dequeues cause c) v w) :
    Crowd.Writes Event.isFree v.toCrowd w.toCrowd := by
  induction dequeues with
  | refl => exact .same rfl
  | tail _ last ih =>
      cases last with
      | @mk first rest _ _ woken =>
          exact ih.trans (writes_wake (v := View.setCvar _ c (some rest)) woken)

theorem dequeuesAll_locks {cause : Cause} {c : ObjPtr}
    (dequeues : Relation.ReflTransGen (Dequeues cause c) v w) :
    w.locks = v.locks ∧ w.lockIds = v.lockIds := by
  induction dequeues with
  | refl => exact ⟨rfl, rfl⟩
  | tail _ last ih =>
      obtain ⟨_, _, _, after⟩ := last.objects
      rw [after]
      exact ih

/-- A call that wakes others is not calm. -/
theorem Calm.not_rouses {call : Call} (calm : v.Calm p (some call)) (rouses : call.rouses = true) :
    False := by
  rw [calm.1 call rfl] at rouses
  cases rouses

theorem Reads.not_calm {pipep : ObjPtr} {pipeId len : Int} {pipe : Pipe}
    (reads : v.Reads p act pipep len pipeId pipe w) : ¬ v.Calm p act := by
  intro calm
  cases reads with
  | call called _ _ _ _ =>
      subst called
      exact calm.not_rouses rfl
  | again point _ =>
      have notPipe := calm.2
      rw [point] at notPipe
      cases notPipe

theorem Reads.not_acquire {pipep : ObjPtr} {pipeId len : Int} {pipe : Pipe}
    (reads : v.Reads p act pipep len pipeId pipe w) (l : ObjPtr) (call : Call) :
    (v.proc p).pos ≠ .acquire l call := by
  cases reads with
  | call _ user _ _ _ => simp [user]
  | again point _ => simp [point]

theorem Reads.locks {pipep : ObjPtr} {pipeId len : Int} {pipe : Pipe}
    (reads : v.Reads p act pipep len pipeId pipe w) :
    w.locks = v.locks ∧ w.lockIds = v.lockIds := by
  cases reads <;> exact ⟨rfl, rfl⟩

/-- A call that returns is another step for the locks when it changes no lock. -/
theorem LockStep.finish {u : View} (call : Call) (code : Int)
    (keeps : v.toCrowd.Keeps p u.toCrowd) (locks : u.locks = v.locks)
    (lockIds : u.lockIds = v.lockIds) (writes : Crowd.Writes Event.isFree v.toCrowd u.toCrowd)
    (before : ∀ l call, (v.proc p).pos ≠ .acquire l call)
    (free : ∀ pid, Event.isFree (.returned pid call code))
    (calm : v.Calm p act → v.blocked ⊆ u.blocked) :
    v.LockStep p next act (u.finish p call code) := by
  have pos : ((u.finish p call code).proc p).pos = .user := by
    rw [View.finish, onCrowd_toCrowd, Crowd.finish_pos, if_pos rfl]
  refine .other (keeps.trans (.finish p _ _ _)) locks lockIds
    (writes.trans (.record (free _) rfl)) before (fun _ _ => by simp [pos]) fun quiet => ?_
  exact ⟨calm quiet, by rw [pos]; rfl⟩

end

/-- The locks see every step as one of their own. -/
theorem Step.lockStep {p next : Addr} {act : Option Call} {v w : View}
    (step : v.Step p next act w) : v.LockStep p next act w := by
  have plain {call : Call} {code : Int} (quiet : call.isQuiet code = true) (pid : Int) :
      Event.isFree (.returned pid call code) := Event.isQuiet_isFree quiet
  cases step with
  | crowd step => exact .crowd step
  | lockInit user => exact .lockInit user
  | cvarInit user =>
      exact .finish _ _ (.record p v.toCrowd rfl) rfl rfl (.record (fun _ _ => ⟨rfl, rfl⟩) rfl)
        (by simp [user]) (plain rfl) fun _ => Set.Subset.refl _
  | pipeInit user _ =>
      exact .finish _ _ (.record p v.toCrowd rfl) rfl rfl (.record (fun _ _ => ⟨rfl, rfl⟩) rfl)
        (by simp [user]) (plain rfl) fun _ => Set.Subset.refl _
  | acquireTake acquires object free => exact .acquireTake acquires object free
  | acquireBlock acquires object taken => exact .acquireBlock acquires object taken
  | acquireFailed point _ =>
      exact .finish _ _ (.refl p v.toCrowd) rfl rfl (.same rfl) (by simp [point]) (plain rfl)
        fun _ => Set.Subset.refl _
  | release _ user releases => exact .release user releases
  | cvarWait _ user _ _ releases => exact .cvarWait user releases
  | signal called user _ dequeues =>
      subst called
      rcases dequeues with ⟨_, rfl⟩ | dequeues
      · exact .finish _ _ (.refl p _) rfl rfl (.same rfl) (by simp [user]) (plain rfl)
          fun _ => Set.Subset.refl _
      · obtain ⟨_, _, _, after⟩ := dequeues.objects
        exact .finish _ _ (keeps_dequeues p dequeues) (by rw [after]; rfl) (by rw [after]; rfl)
          (writes_dequeuesAll (.single dequeues)) (by simp [user]) (plain rfl)
          fun calm => (calm.not_rouses rfl).elim
  | broadcast called user _ dequeues _ =>
      subst called
      obtain ⟨locks, lockIds⟩ := dequeuesAll_locks dequeues
      exact .finish _ _ (keeps_dequeuesAll p dequeues) locks lockIds (writes_dequeuesAll dequeues)
        (by simp [user]) (plain rfl) fun calm => (calm.not_rouses rfl).elim
  | @pipeBlock pipep pipeId len _ w reads _ =>
      have same := keeps_reads reads
      refine .other (same ▸ .suspend p w.toCrowd _) reads.locks.1 reads.locks.2 (.same ?_)
        reads.not_acquire (fun l call => ?_) fun calm => (reads.not_calm calm).elim
      · change w.toCrowd.log = v.toCrowd.log
        rw [same]
      · have pos : ((w.suspend p (.pipeRead pipep pipeId len)).proc p).pos =
            .pipeRead pipep pipeId len := by
          simp [suspend]
        simp [pos]
  | @pipeTake pipep _ len pipe _ rest w x reads _ _ _ wakes =>
      have same := keeps_reads reads
      have event : Event.isFree (.pipeRead pipep len (pipe.buffer.take len.toNat)) :=
        fun _ _ => ⟨rfl, rfl⟩
      have taken : v.toCrowd.Keeps p ((w.setPipe pipep (some (pipe.consumed len rest))).record
          (.pipeRead pipep len (pipe.buffer.take len.toNat))).toCrowd :=
        same ▸ .record p w.toCrowd rfl
      have written : Crowd.Writes Event.isFree v.toCrowd
          ((w.setPipe pipep (some (pipe.consumed len rest))).record
            (.pipeRead pipep len (pipe.buffer.take len.toNat))).toCrowd :=
        same ▸ .record event rfl
      split at wakes
      · have woken := writes_wakesHead wakes
        exact .finish _ _ (taken.trans (keeps_wakesHead p wakes))
          (by rw [wakes.objects]; exact reads.locks.1) (by rw [wakes.objects]; exact reads.locks.2)
          (written.trans woken) reads.not_acquire (plain rfl)
          fun calm => (reads.not_calm calm).elim
      · subst wakes
        exact .finish _ _ taken reads.locks.1 reads.locks.2 written reads.not_acquire (plain rfl)
          fun calm => (reads.not_calm calm).elim
  | pipeDry reads _ _ =>
      have same := keeps_reads reads
      exact .finish _ _ (same ▸ .refl p _) reads.locks.1 reads.locks.2
        (.same (congrArg Crowd.log same)) reads.not_acquire (plain rfl)
        fun calm => (reads.not_calm calm).elim
  | pipeWrite called user _ _ _ _ _ _ wakes =>
      subst called
      exact .finish _ _ ((Crowd.Keeps.record p v.toCrowd rfl).trans (keeps_wakesHead p wakes))
        (by rw [wakes.objects]; rfl) (by rw [wakes.objects]; rfl)
        (.trans (.record (fun _ _ => ⟨rfl, rfl⟩) rfl) (writes_wakesHead wakes)) (by simp [user])
        (plain rfl) fun calm => (calm.not_rouses rfl).elim
  | reclaimLock called user _ object free => exact .reclaimLock called user object free
  | reclaimOwned called user _ object owned => exact .reclaimOwned called user object owned
  | reclaimCvar _ user _ _ =>
      exact .finish _ _ (.refl p _) rfl rfl (.same rfl) (by simp [user]) (plain rfl)
        fun _ => Set.Subset.refl _
  | reclaimWaited _ user _ _ _ =>
      exact .finish _ _ (.refl p _) rfl rfl (.same rfl) (by simp [user]) (plain rfl)
        fun _ => Set.Subset.refl _
  | reclaimPipe _ user _ _ _ =>
      exact .finish _ _ (.refl p _) rfl rfl (.same rfl) (by simp [user]) (plain rfl)
        fun _ => Set.Subset.refl _
  | reclaimRead _ user _ _ _ =>
      exact .finish _ _ (.refl p _) rfl rfl (.same rfl) (by simp [user]) (plain rfl)
        fun _ => Set.Subset.refl _

end View

end

end Yallnix

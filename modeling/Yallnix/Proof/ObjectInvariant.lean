import Yallnix.Proof.Reachability
import Mathlib.Data.Set.Lattice
import Mathlib.Order.CompletePartialOrder

namespace Yallnix

/-- Objects have ids below the counter, and a map names only existing objects. -/
structure Stored {A : Type} (bound : Int) (ids : Set Int) (objects : ObjPtr → Option A) :
    Prop where
  below : ∀ object, objects object ≠ none → object < bound
  present : ∀ id ∈ ids, objects id ≠ none

namespace Stored

variable {A : Type} {bound : Int} {ids : Set Int} {objects : ObjPtr → Option A}

/-- An existing object may change its value. -/
theorem update (stored : Stored bound ids objects) {object : ObjPtr}
    (known : objects object ≠ none) {value : Option A} (some : value ≠ none) :
    Stored bound ids (Function.update objects object value) where
  below other present := by
    by_cases same : other = object
    · exact same ▸ stored.below object known
    · rw [Function.update_of_ne same] at present
      exact stored.below other present
  present other inside := by
    by_cases same : other = object
    · rwa [same, Function.update_self]
    · rw [Function.update_of_ne same]
      exact stored.present other inside

theorem grow (stored : Stored bound ids objects) : Stored (bound + 1) ids objects where
  below object present := (stored.below object present).trans (Int.lt_succ bound)
  present := stored.present

/-- A new object gets the id of the counter. -/
theorem create (stored : Stored bound ids objects) (value : A) :
    Stored (bound + 1) (insert bound ids) (Function.update objects bound (some value)) where
  below other present := by
    by_cases same : other = bound
    · exact same ▸ Int.lt_succ bound
    · rw [Function.update_of_ne same] at present
      exact (stored.below other present).trans (Int.lt_succ bound)
  present other inside := by
    by_cases same : other = bound
    · simp [same]
    · rw [Function.update_of_ne same]
      exact stored.present other ((Set.mem_insert_iff.mp inside).resolve_left same)

theorem forget (stored : Stored bound ids objects) (id : Int) :
    Stored bound (ids \ {id}) objects where
  below := stored.below
  present other inside := stored.present other inside.1

/-- A freed object leaves its map. -/
theorem remove (stored : Stored bound ids objects) (id : Int) :
    Stored bound (ids \ {id}) (Function.update objects id none) where
  below other present := by
    by_cases same : other = id
    · simp [same] at present
    · rw [Function.update_of_ne same] at present
      exact stored.below other present
  present other inside := by
    rw [Function.update_of_ne inside.2]
    exact stored.present other inside.1

end Stored

section
variable [Hardware]

/-- The code at this point goes on with the lock. -/
def Pos.usesLock (l : ObjPtr) : Pos → Bool
  | .acquire lockp _ => lockp = l
  | .cvarWoken _ lockId => lockId = l
  | _ => false

/-- The code at this point goes on with the pipe. -/
def Pos.usesPipe (p : ObjPtr) : Pos → Bool
  | .pipeRead pipep _ _ => pipep = p
  | _ => false

structure Objects.Bounded (o : Objects) : Prop where
  lock : Stored o.nextSyncId o.lockIds o.locks
  cvar : Stored o.nextSyncId o.cvarIds o.cvars
  pipe : Stored o.nextSyncId o.pipeIds o.pipes

namespace View

variable {p next : Addr} {act : Option Call} {v w : View}

theorem Wake.objects {cause : Cause} {pid : Int} (woken : v.Wake cause pid w) :
    w.toObjects = v.toObjects := by
  cases woken
  rfl

theorem WakesHead.objects {pipep : ObjPtr} {waitingQ : Queue Addr}
    (wakes : v.WakesHead pipep waitingQ w) : w.toObjects = v.toObjects := by
  cases wakes with
  | empty => rfl
  | head woken => exact woken.objects

/-- A wake-up after a read is for the reader behind, if bytes remain for it. -/
theorem objects_of_wakes {remains : Prop} [Decidable remains] {pipep : ObjPtr}
    {waitingQ : Queue Addr} {event : Event}
    (wakes : if remains then (v.record event).WakesHead pipep waitingQ w
      else w = v.record event) : w.toObjects = v.toObjects := by
  split at wakes
  · exact wakes.objects
  · rw [wakes]
    rfl

/-- A release frees the lock and shortens its queue. -/
theorem Releases.objects {l : ObjPtr} (releases : v.Releases p l w) :
    ∃ lock, l ∈ v.lockIds ∧ v.locks l = some lock ∧ lock.ownerPcbp = some p ∧
      w.toObjects = (v.setLock l (some ⟨none, lock.waitingQ.tail⟩)).toObjects := by
  cases releases with
  | alone known object owner queue =>
      refine ⟨_, known, object, owner, ?_⟩
      rw [queue]
      rfl
  | waiter known object owner queue woken =>
      refine ⟨_, known, object, owner, ?_⟩
      rw [woken.objects, queue]
      rfl

theorem Dequeues.objects {cause : Cause} {c : ObjPtr} (dequeues : v.Dequeues cause c w) :
    ∃ first rest, v.cvars c = some (first :: rest) ∧
      w.toObjects = (v.setCvar c (some rest)).toObjects := by
  cases dequeues with
  | mk object woken => exact ⟨_, _, object, woken.objects⟩

/-- A broadcast changes at most the queue of its condition variable. -/
theorem dequeuesAll_objects {cause : Cause} {c : ObjPtr} (known : v.cvars c ≠ none)
    (dequeues : Relation.ReflTransGen (Dequeues cause c) v w) :
    w.cvars c ≠ none ∧ w.toObjects = (v.setCvar c (w.cvars c)).toObjects := by
  induction dequeues with
  | refl =>
      refine ⟨known, ?_⟩
      simp only [setCvar, Function.update_eq_self]
  | tail _ last ih =>
      obtain ⟨first, rest, _, after⟩ := last.objects
      rw [after]
      refine ⟨by simp, ?_⟩
      simp only [setCvar, Function.update_self]
      rw [ih.2]
      simp only [setCvar, Function.update_idem]

end View

namespace Objects.Bounded

variable {v w : View}

theorem setLock (bounded : v.toObjects.Bounded) {l : ObjPtr} (known : v.locks l ≠ none)
    (lock : Lock) : (v.setLock l (some lock)).toObjects.Bounded :=
  ⟨bounded.lock.update known (Option.some_ne_none lock), bounded.cvar, bounded.pipe⟩

theorem setCvar (bounded : v.toObjects.Bounded) {c : ObjPtr} (known : v.cvars c ≠ none)
    {cvarQ : Option (Queue Addr)} (some : cvarQ ≠ none) : (v.setCvar c cvarQ).toObjects.Bounded :=
  ⟨bounded.lock, bounded.cvar.update known some, bounded.pipe⟩

theorem setPipe (bounded : v.toObjects.Bounded) {pipep : ObjPtr} (known : v.pipes pipep ≠ none)
    (pipe : Pipe) : (v.setPipe pipep (some pipe)).toObjects.Bounded :=
  ⟨bounded.lock, bounded.cvar, bounded.pipe.update known (Option.some_ne_none pipe)⟩

theorem releases (bounded : v.toObjects.Bounded) {p : Addr} {l : ObjPtr}
    (releases : v.Releases p l w) : w.toObjects.Bounded := by
  obtain ⟨lock, _, object, _, after⟩ := releases.objects
  rw [after]
  exact bounded.setLock (by simp [object]) _

theorem reads (bounded : v.toObjects.Bounded) {p : Addr} {act : Option Call} {pipep : ObjPtr}
    {pipeId len : Int} {pipe : Pipe} (reads : v.Reads p act pipep len pipeId pipe w) :
    w.toObjects.Bounded ∧ w.pipes pipep = some pipe := by
  cases reads with
  | call _ _ _ _ object => exact ⟨bounded.setPipe (by simp [object]) _, by simp⟩
  | again _ object => exact ⟨bounded, object⟩

/-- Every step keeps the ids of the objects below the counter. -/
theorem step (bounded : v.toObjects.Bounded) {p next : Addr} {act : Option Call}
    (step : v.Step p next act w) : w.toObjects.Bounded := by
  cases step with
  | crowd _ => exact bounded
  | lockInit _ => exact ⟨bounded.lock.create _, bounded.cvar.grow, bounded.pipe.grow⟩
  | cvarInit _ => exact ⟨bounded.lock.grow, bounded.cvar.create _, bounded.pipe.grow⟩
  | pipeInit _ _ => exact ⟨bounded.lock.grow, bounded.cvar.grow, bounded.pipe.create _⟩
  | acquireTake _ object _ => exact bounded.setLock (by simp [object]) _
  | acquireBlock _ object _ => exact bounded.setLock (by simp [object]) _
  | acquireFailed _ _ => exact bounded
  | release _ _ releases =>
      have freed := bounded.releases releases
      exact freed
  | @cvarWait c l cvarQ w _ _ _ object releases =>
      have waiting := bounded.setCvar (c := c) (by simp [object])
        (Option.some_ne_none (enqQ cvarQ p))
      rcases releases with rfl | releases
      · exact waiting
      · have freed := waiting.releases releases
        exact freed
  | @signal c w _ _ known dequeues =>
      rcases dequeues with ⟨_, rfl⟩ | dequeues
      · exact bounded
      · obtain ⟨first, rest, _, after⟩ := dequeues.objects
        have woken := bounded.setCvar (bounded.cvar.present c known) (Option.some_ne_none rest)
        rw [← after] at woken
        exact woken
  | @broadcast c w _ _ known dequeues _ =>
      obtain ⟨some, after⟩ := View.dequeuesAll_objects (bounded.cvar.present c known) dequeues
      have woken := bounded.setCvar (bounded.cvar.present c known) some
      rw [← after] at woken
      exact woken
  | pipeBlock reads _ => exact (bounded.reads reads).1
  | @pipeTake pipep _ len pipe _ rest w x reads _ _ _ wakes =>
      obtain ⟨queued, object⟩ := bounded.reads reads
      have known : w.pipes pipep ≠ none := by simp [object]
      have taken := queued.setPipe known (pipe.consumed len rest)
      have same := View.objects_of_wakes wakes
      exact same.symm ▸ taken
  | pipeDry reads _ _ => exact (bounded.reads reads).1
  | @pipeWrite pipep len _ buffer pipe w _ _ known _ _ _ _ _ wakes =>
      have written := bounded.setPipe (bounded.pipe.present pipep known)
        ⟨buffer, pipe.numBytesWritten + len, pipe.waitingQ⟩
      have same := wakes.objects
      exact same.symm ▸ written
  | reclaimLock _ _ _ _ _ => exact ⟨bounded.lock.remove _, bounded.cvar, bounded.pipe⟩
  | @reclaimOwned id lock _ _ _ object _ =>
      exact ⟨(bounded.lock.update (by simp [object]) (Option.some_ne_none _)).forget id,
        bounded.cvar, bounded.pipe⟩
  | reclaimCvar _ _ _ _ => exact ⟨bounded.lock, bounded.cvar.remove _, bounded.pipe⟩
  | reclaimWaited _ _ _ _ _ => exact ⟨bounded.lock, bounded.cvar.forget _, bounded.pipe⟩
  | reclaimPipe _ _ _ _ _ => exact ⟨bounded.lock, bounded.cvar, bounded.pipe.remove _⟩
  | reclaimRead _ _ _ _ _ => exact ⟨bounded.lock, bounded.cvar, bounded.pipe.forget _⟩

end Objects.Bounded

/-- An id names one object only. -/
structure Objects.Apart (o : Objects) : Prop where
  lockCvar : Disjoint o.lockIds o.cvarIds
  lockPipe : Disjoint o.lockIds o.pipeIds
  cvarPipe : Disjoint o.cvarIds o.pipeIds

namespace Objects.Apart

variable {o : Objects} {v w : View}

omit [Hardware] in
theorem mono {p : Objects} (apart : o.Apart) (locks : p.lockIds ⊆ o.lockIds)
    (cvars : p.cvarIds ⊆ o.cvarIds) (pipes : p.pipeIds ⊆ o.pipeIds) : p.Apart where
  lockCvar := apart.lockCvar.mono locks cvars
  lockPipe := apart.lockPipe.mono locks pipes
  cvarPipe := apart.cvarPipe.mono cvars pipes

omit [Hardware] in
/-- The counter is the id of no object. -/
theorem next (bounded : o.Bounded) :
    o.nextSyncId ∉ o.lockIds ∧ o.nextSyncId ∉ o.cvarIds ∧ o.nextSyncId ∉ o.pipeIds := by
  refine ⟨fun known => ?_, fun known => ?_, fun known => ?_⟩
  · exact lt_irrefl _ (bounded.lock.below _ (bounded.lock.present _ known))
  · exact lt_irrefl _ (bounded.cvar.below _ (bounded.cvar.present _ known))
  · exact lt_irrefl _ (bounded.pipe.below _ (bounded.pipe.present _ known))

/-- Every step keeps the ids of the three maps apart. -/
theorem step (apart : v.toObjects.Apart) (bounded : v.toObjects.Bounded) {p next : Addr}
    {act : Option Call} (step : v.Step p next act w) : w.toObjects.Apart := by
  obtain ⟨lock, cvar, pipe⟩ := Apart.next bounded
  cases step with
  | lockInit _ =>
      exact ⟨Set.disjoint_insert_left.mpr ⟨cvar, apart.lockCvar⟩,
        Set.disjoint_insert_left.mpr ⟨pipe, apart.lockPipe⟩, apart.cvarPipe⟩
  | cvarInit _ =>
      exact ⟨Set.disjoint_insert_right.mpr ⟨lock, apart.lockCvar⟩, apart.lockPipe,
        Set.disjoint_insert_left.mpr ⟨pipe, apart.cvarPipe⟩⟩
  | pipeInit _ _ =>
      exact ⟨apart.lockCvar, Set.disjoint_insert_right.mpr ⟨lock, apart.lockPipe⟩,
        Set.disjoint_insert_right.mpr ⟨cvar, apart.cvarPipe⟩⟩
  | @release l w _ _ releases =>
      obtain ⟨_, _, _, _, after⟩ := releases.objects
      change w.toObjects.Apart
      rw [after]
      exact ⟨apart.lockCvar, apart.lockPipe, apart.cvarPipe⟩
  | @cvarWait c l cvarQ w _ _ _ _ releases =>
      change w.toObjects.Apart
      rcases releases with rfl | releases
      · exact ⟨apart.lockCvar, apart.lockPipe, apart.cvarPipe⟩
      · obtain ⟨_, _, _, _, after⟩ := releases.objects
        rw [after]
        exact ⟨apart.lockCvar, apart.lockPipe, apart.cvarPipe⟩
  | @signal c w _ _ _ dequeues =>
      change w.toObjects.Apart
      rcases dequeues with ⟨_, rfl⟩ | dequeues
      · exact apart
      · obtain ⟨_, _, _, after⟩ := dequeues.objects
        rw [after]
        exact ⟨apart.lockCvar, apart.lockPipe, apart.cvarPipe⟩
  | @broadcast c w _ _ known dequeues _ =>
      change w.toObjects.Apart
      rw [(View.dequeuesAll_objects (bounded.cvar.present c known) dequeues).2]
      exact ⟨apart.lockCvar, apart.lockPipe, apart.cvarPipe⟩
  | pipeBlock reads _ =>
      cases reads <;> exact ⟨apart.lockCvar, apart.lockPipe, apart.cvarPipe⟩
  | @pipeTake pipep _ len pipe _ rest w x reads _ _ _ wakes =>
      have kept : x.toObjects = (w.setPipe pipep (some (pipe.consumed len rest))).toObjects :=
        View.objects_of_wakes wakes
      change x.toObjects.Apart
      rw [kept]
      cases reads <;> exact ⟨apart.lockCvar, apart.lockPipe, apart.cvarPipe⟩
  | pipeDry reads _ _ =>
      cases reads <;> exact ⟨apart.lockCvar, apart.lockPipe, apart.cvarPipe⟩
  | @pipeWrite _ _ _ _ _ w _ _ _ _ _ _ _ _ wakes =>
      change w.toObjects.Apart
      rw [wakes.objects]
      exact ⟨apart.lockCvar, apart.lockPipe, apart.cvarPipe⟩
  | reclaimLock _ _ _ _ _ => exact apart.mono Set.sdiff_subset subset_rfl subset_rfl
  | reclaimOwned _ _ _ _ _ => exact apart.mono Set.sdiff_subset subset_rfl subset_rfl
  | reclaimCvar _ _ _ _ => exact apart.mono subset_rfl Set.sdiff_subset subset_rfl
  | reclaimWaited _ _ _ _ _ => exact apart.mono subset_rfl Set.sdiff_subset subset_rfl
  | reclaimPipe _ _ _ _ _ => exact apart.mono subset_rfl subset_rfl Set.sdiff_subset
  | reclaimRead _ _ _ _ _ => exact apart.mono subset_rfl subset_rfl Set.sdiff_subset
  | _ => exact ⟨apart.lockCvar, apart.lockPipe, apart.cvarPipe⟩

end Objects.Apart

theorem View.Fresh.bounded {v : View} (fresh : v.Fresh) : v.toObjects.Bounded := by
  constructor <;> constructor <;>
    simp [fresh.locks, fresh.cvars, fresh.pipes, fresh.lockIds, fresh.cvarIds, fresh.pipeIds]

theorem View.Fresh.apart {v : View} (fresh : v.Fresh) : v.toObjects.Apart := by
  constructor <;> simp [fresh.lockIds, fresh.cvarIds]

/-- The objects of a reachable kernel have ids below the counter, and no two share an id. -/
theorem reachable_objects {s : Kernel} (reachable : yallnix.Reachable s) :
    s.view.toObjects.Bounded ∧ s.view.toObjects.Apart :=
  run_invariant (fun s => s.view.toObjects.Bounded ∧ s.view.toObjects.Apart)
    (fun _ _ fresh _ => ⟨fresh.bounded, fresh.apart⟩)
    (fun _ _ _ _ _ ⟨bounded, apart⟩ _ _ step => ⟨bounded.step step, apart.step bounded step⟩)
    reachable

end

end Yallnix

import Yallnix.Construction.SmallMachine
import Yallnix.Proof.ObjectInvariant

namespace Yallnix

section
variable [Hardware]

/-- A lock is unused without an owner, a waiter and a process that goes on with it. -/
structure Kernel.LockUnused (s : Kernel) (id : Int) : Prop where
  free : s.locks id = some ⟨none, []⟩
  idle : ∀ a ∈ s.live, (s.pos a).usesLock id = false

/-- A dequeued waiter does not touch its condition variable again. -/
def Kernel.CvarUnused (s : Kernel) (id : Int) : Prop := s.cvars id = some []

structure Kernel.PipeUnused (s : Kernel) (id : Int) : Prop where
  empty : ∀ pipe, s.pipes id = some pipe → pipe.waitingQ = []
  idle : ∀ a ∈ s.live, (s.pos a).usesPipe id = false

/-- The id names an object that nobody uses. -/
inductive Kernel.Reclaimable (s : Kernel) (id : Int) : Prop where
  | lock (known : id ∈ s.lockMap.keys) (unused : s.LockUnused id)
  | cvar (known : id ∈ s.cvarMap.keys) (unused : s.CvarUnused id)
  | pipe (known : id ∈ s.pipeMap.keys) (unused : s.PipeUnused id)

/-- One object is freed and its entry leaves its map, and nothing else changes. -/
inductive Kernel.Removes (s : Kernel) (id : Int) : Kernel → Prop where
  | lock {lockMap : HashMap ObjPtr} (entry : s.lockMap.entries.Perm ((id, id) :: lockMap.entries)) :
      Removes s id { s with lockMap := lockMap, locks := Function.update s.locks id none }
  | cvar {cvarMap : HashMap ObjPtr} (entry : s.cvarMap.entries.Perm ((id, id) :: cvarMap.entries)) :
      Removes s id { s with cvarMap := cvarMap, cvars := Function.update s.cvars id none }
  | pipe {pipeMap : HashMap ObjPtr} (entry : s.pipeMap.entries.Perm ((id, id) :: pipeMap.entries)) :
      Removes s id { s with pipeMap := pipeMap, pipes := Function.update s.pipes id none }

/-- `KernelReclaim` removes an unused object or changes nothing. -/
def Kernel.ReclaimSafe (s : Kernel) (id : Int) : Prop :=
  ∃ code t, kernelReclaim id s = .ok (code, t) ∧
    (code = successCode ∧ s.Reclaimable id ∧ s.Removes id t ∨
      code = errorCode ∧ ¬ s.Reclaimable id ∧ t.toSyncObjects = s.toSyncObjects)

/-- The id is an index into the maps, and the object that it names is unused. -/
structure Kernel.ReclaimReady (s : Kernel) (id : Int) : Prop where
  fits : 0 ≤ id.tmod syncMapHashBuckets
  lock : id ∈ s.lockMap.keys → s.LockUnused id
  cvar : id ∈ s.cvarMap.keys → s.CvarUnused id
  pipe : id ∈ s.pipeMap.keys → s.PipeUnused id

section
variable {s : Kernel} {id : Int}

omit [Hardware] in
/-- An entry leaves its map in a removal. -/
theorem Names.remove {hm : HashMap ObjPtr} {bound : Int} (names : Names hm bound)
    (known : id ∈ hm.keys) :
    ∃ result, hashMapRemove hm id = .ok (some (id, result)) ∧
      hm.entries.Perm ((id, id) :: result.entries) := by
  obtain ⟨object, result, removed⟩ := HashMap.remove_of_mem known
  obtain ⟨rfl, _⟩ := remove_named names removed
  exact ⟨result, removed, (HashMap.remove_eq_some removed).1⟩

omit [Hardware] in
/-- A map without one of its entries is another map. -/
theorem entries_ne {hm result : HashMap ObjPtr}
    (perm : hm.entries.Perm ((id, id) :: result.entries)) : result ≠ hm := by
  rintro rfl
  have size := perm.length_eq
  rw [List.length_cons] at size
  omega

omit [Hardware] in
/-- All three maps have the same number of buckets. -/
theorem Names.fits_iff {hm : HashMap ObjPtr} {bound : Int} (names : Names hm bound) :
    hm.Fits id ↔ 0 ≤ id.tmod syncMapHashBuckets := by
  rw [HashMap.Fits, names.size]

/-- A reclaim of a lock looks at the owner only. -/
theorem kernelReclaim_lock (named : Named s.toSyncObjects) (known : id ∈ s.lockMap.keys)
    {lock : Lock} (object : s.locks id = some lock) :
    ∃ lockMap, s.lockMap.entries.Perm ((id, id) :: lockMap.entries) ∧
      kernelReclaim id s = .ok (if lock.ownerPcbp = none then
        (successCode, { s with lockMap := lockMap, locks := Function.update s.locks id none })
      else (errorCode, { s with
        lockMap := lockMap
        locks := Function.update s.locks id (some { lock with waitingQ := makeQ }) })) := by
  obtain ⟨lockp, found⟩ := HashMap.find_of_mem known
  obtain ⟨lockMap, removed, perm⟩ := named.lock.remove known
  refine ⟨lockMap, perm, ?_⟩
  simp only [kernelReclaim, deleteLock, found, removed, Outcome.ok_bind, object, deref]
  by_cases free : lock.ownerPcbp = none
  · simp [free, makeQ, peekQ, Kernel.setLock]
  · simp [free, Kernel.setLock]

theorem kernelReclaim_cvar (named : Named s.toSyncObjects) (unknown : id ∉ s.lockMap.keys)
    (known : id ∈ s.cvarMap.keys) {cvarQ : Queue Addr} (object : s.cvars id = some cvarQ) :
    ∃ cvarMap, s.cvarMap.entries.Perm ((id, id) :: cvarMap.entries) ∧
      kernelReclaim id s = .ok (if cvarQ = [] then
        (successCode, { s with cvarMap := cvarMap, cvars := Function.update s.cvars id none })
      else (errorCode, { s with cvarMap := cvarMap })) := by
  have fits := named.lock.fits_iff.mpr (named.cvar.fits_iff.mp (HashMap.fits_of_mem known))
  obtain ⟨cvarp, found⟩ := HashMap.find_of_mem known
  obtain ⟨cvarMap, removed, perm⟩ := named.cvar.remove known
  refine ⟨cvarMap, perm, ?_⟩
  simp only [kernelReclaim, deleteCvar, HashMap.find_of_not_mem fits unknown, found, removed,
    Outcome.ok_bind, object, deref]
  cases cvarQ <;> simp [peekQ, Kernel.setCvar]

theorem kernelReclaim_pipe (named : Named s.toSyncObjects) (noLock : id ∉ s.lockMap.keys)
    (noCvar : id ∉ s.cvarMap.keys) (known : id ∈ s.pipeMap.keys) {pipe : Pipe}
    (object : s.pipes id = some pipe) :
    ∃ pipeMap, s.pipeMap.entries.Perm ((id, id) :: pipeMap.entries) ∧
      kernelReclaim id s = .ok (if pipe.waitingQ = [] then
        (successCode, { s with pipeMap := pipeMap, pipes := Function.update s.pipes id none })
      else (errorCode, { s with pipeMap := pipeMap })) := by
  have fits := named.pipe.fits_iff.mp (HashMap.fits_of_mem known)
  obtain ⟨pipep, found⟩ := HashMap.find_of_mem known
  obtain ⟨pipeMap, removed, perm⟩ := named.pipe.remove known
  refine ⟨pipeMap, perm, ?_⟩
  simp only [kernelReclaim, deletePipe,
    HashMap.find_of_not_mem (named.lock.fits_iff.mpr fits) noLock,
    HashMap.find_of_not_mem (named.cvar.fits_iff.mpr fits) noCvar, found, removed,
    Outcome.ok_bind, object, deref]
  cases empty : pipe.waitingQ <;> simp [peekQ, Kernel.setPipe]

theorem kernelReclaim_unknown (named : Named s.toSyncObjects)
    (fits : 0 ≤ id.tmod syncMapHashBuckets) (noLock : id ∉ s.lockMap.keys)
    (noCvar : id ∉ s.cvarMap.keys) (noPipe : id ∉ s.pipeMap.keys) :
    kernelReclaim id s = .ok (errorCode, s) := by
  simp only [kernelReclaim, HashMap.find_of_not_mem (named.lock.fits_iff.mpr fits) noLock,
    HashMap.find_of_not_mem (named.cvar.fits_iff.mpr fits) noCvar,
    HashMap.find_of_not_mem (named.pipe.fits_iff.mpr fits) noPipe, Outcome.ok_bind]
  rfl

/-- A safe reclaim changes the objects only when it may remove one. -/
theorem Kernel.ReclaimSafe.reclaimable (safe : s.ReclaimSafe id) {result : Int × Kernel}
    (done : kernelReclaim id s = .ok result)
    (changed : result.2.toSyncObjects ≠ s.toSyncObjects) : s.Reclaimable id := by
  obtain ⟨code, u, same, ⟨_, reclaimable, _⟩ | ⟨_, _, kept⟩⟩ := safe
  · exact reclaimable
  · rw [done] at same
    cases same
    exact absurd kept changed

theorem Kernel.ReclaimSafe.fits (named : Named s.toSyncObjects) (safe : s.ReclaimSafe id) :
    0 ≤ id.tmod syncMapHashBuckets := by
  obtain ⟨code, t, done, _⟩ := safe
  obtain ⟨_, found, _⟩ := Outcome.bind_eq_ok.mp done
  exact named.lock.fits_iff.mp (HashMap.fits_of_find found)

/-- A safe reclaim meets an unused object or no object. -/
theorem Kernel.ReclaimSafe.ready (named : Named s.toSyncObjects)
    (bounded : s.view.toObjects.Bounded) (apart : s.view.toObjects.Apart)
    (safe : s.ReclaimSafe id) : s.ReclaimReady id := by
  have lockCvar (known : id ∈ s.lockMap.keys) : id ∉ s.cvarMap.keys :=
    Set.disjoint_left.mp apart.lockCvar known
  have lockPipe (known : id ∈ s.lockMap.keys) : id ∉ s.pipeMap.keys :=
    Set.disjoint_left.mp apart.lockPipe known
  have cvarPipe (known : id ∈ s.cvarMap.keys) : id ∉ s.pipeMap.keys :=
    Set.disjoint_left.mp apart.cvarPipe known
  refine ⟨safe.fits named, fun known => ?_, fun known => ?_, fun known => ?_⟩
  · obtain ⟨lock, object⟩ := Option.ne_none_iff_exists'.mp (bounded.lock.present id known)
    obtain ⟨lockMap, perm, done⟩ := kernelReclaim_lock named known object
    have changed := entries_ne perm
    cases safe.reclaimable done (by
      split <;> exact fun same => changed (congrArg SyncObjects.lockMap same)) with
    | lock _ unused => exact unused
    | cvar other _ => exact absurd other (lockCvar known)
    | pipe other _ => exact absurd other (lockPipe known)
  · have noLock : id ∉ s.lockMap.keys := fun other => lockCvar other known
    obtain ⟨cvarQ, object⟩ := Option.ne_none_iff_exists'.mp (bounded.cvar.present id known)
    obtain ⟨cvarMap, perm, done⟩ := kernelReclaim_cvar named noLock known object
    have changed := entries_ne perm
    cases safe.reclaimable done (by
      split <;> exact fun same => changed (congrArg SyncObjects.cvarMap same)) with
    | lock other _ => exact absurd other noLock
    | cvar _ unused => exact unused
    | pipe other _ => exact absurd other (cvarPipe known)
  · have noLock : id ∉ s.lockMap.keys := fun other => lockPipe other known
    have noCvar : id ∉ s.cvarMap.keys := fun other => cvarPipe other known
    obtain ⟨pipe, object⟩ := Option.ne_none_iff_exists'.mp (bounded.pipe.present id known)
    obtain ⟨pipeMap, perm, done⟩ := kernelReclaim_pipe named noLock noCvar known object
    have changed := entries_ne perm
    cases safe.reclaimable done (by
      split <;> exact fun same => changed (congrArg SyncObjects.pipeMap same)) with
    | lock other _ => exact absurd other noLock
    | cvar other _ => exact absurd other noCvar
    | pipe _ unused => exact unused

/-- A reclaim of an unused object removes it. -/
theorem Kernel.ReclaimReady.safe (named : Named s.toSyncObjects)
    (bounded : s.view.toObjects.Bounded) (ready : s.ReclaimReady id) : s.ReclaimSafe id := by
  by_cases lockKnown : id ∈ s.lockMap.keys
  · have unused := ready.lock lockKnown
    obtain ⟨lockMap, perm, done⟩ := kernelReclaim_lock named lockKnown unused.free
    rw [if_pos rfl] at done
    exact ⟨_, _, done, .inl ⟨rfl, .lock lockKnown unused, .lock perm⟩⟩
  by_cases cvarKnown : id ∈ s.cvarMap.keys
  · have unused := ready.cvar cvarKnown
    obtain ⟨cvarMap, perm, done⟩ := kernelReclaim_cvar named lockKnown cvarKnown unused
    rw [if_pos rfl] at done
    exact ⟨_, _, done, .inl ⟨rfl, .cvar cvarKnown unused, .cvar perm⟩⟩
  by_cases pipeKnown : id ∈ s.pipeMap.keys
  · have unused := ready.pipe pipeKnown
    obtain ⟨pipe, object⟩ := Option.ne_none_iff_exists'.mp (bounded.pipe.present id pipeKnown)
    obtain ⟨pipeMap, perm, done⟩ := kernelReclaim_pipe named lockKnown cvarKnown pipeKnown object
    rw [if_pos (unused.empty pipe object)] at done
    exact ⟨_, _, done, .inl ⟨rfl, .pipe pipeKnown unused, .pipe perm⟩⟩
  · have done := kernelReclaim_unknown named ready.fits lockKnown cvarKnown pipeKnown
    refine ⟨_, _, done, .inr ⟨rfl, ?_, rfl⟩⟩
    rintro (⟨known, _⟩ | ⟨known, _⟩ | ⟨known, _⟩)
    · exact lockKnown known
    · exact cvarKnown known
    · exact pipeKnown known

end

end

section
attribute [local instance] smallHardware

end

end Yallnix

import Yallnix.Proof.FamilyRefinement

namespace Yallnix

/-- A map stores an object under its own id, and ids are below the counter. -/
structure Names (hm : HashMap ObjPtr) (bound : Int) : Prop where
  size : hm.sets.length = syncMapHashBuckets
  entry : ∀ node ∈ hm.entries, node.2 = node.1 ∧ node.1 < bound

theorem names_new : Names (hashMapNew syncMapHashBuckets syncMapHashBuckets_pos) 0 where
  size := List.length_replicate
  entry node member := by
    rw [HashMap.entries_new] at member
    cases member

theorem find_eq_some {hm : HashMap ObjPtr} {bound : Int} (names : Names hm bound)
    {id object : Int} (found : hashMapFind hm id = .ok (some object)) :
    object = id ∧ id ∈ hm.keys := by
  have entry := HashMap.find_eq_some found
  exact ⟨(names.entry _ entry).1, HashMap.mem_keys.mpr ⟨object, entry⟩⟩

theorem deref_eq_ok {A : Type} {object : Option A} {value : A} (done : deref object = .ok value) :
    object = some value := by
  cases object with
  | none => cases done
  | some inner => exact congrArg some (Except.ok.inj done)

theorem Names.grow {hm : HashMap ObjPtr} {bound : Int} (names : Names hm bound) :
    Names hm (bound + 1) where
  size := names.size
  entry node member := by
    obtain ⟨same, below⟩ := names.entry node member
    exact ⟨same, by omega⟩

/-- A new object goes into its map under the next id, which is not in use. -/
theorem insert_next {hm : HashMap ObjPtr} {bound : Int} (names : Names hm bound)
    {inserted : Option (HashMap ObjPtr)} (done : hashMapInsert hm bound bound = .ok inserted) :
    ∃ result, inserted = some result ∧ Names result (bound + 1) ∧
      {id | id ∈ result.keys} = insert bound {id | id ∈ hm.keys} := by
  cases inserted with
  | none =>
      obtain ⟨object, entry⟩ := HashMap.mem_keys.mp (HashMap.insert_eq_none done)
      have below := (names.entry _ entry).2
      simp at below
  | some result =>
      obtain ⟨_, perm, size⟩ := HashMap.insert_eq_some done
      refine ⟨result, rfl, ⟨size.trans names.size, ?_⟩,
        Set.ext fun id => HashMap.mem_keys_iff perm id⟩
      intro node member
      rcases List.mem_cons.mp (perm.mem_iff.mp member) with rfl | old
      · exact ⟨rfl, Int.lt_succ bound⟩
      · exact names.grow.entry node old

/-- A removed object is no longer in its map. -/
theorem remove_named {hm result : HashMap ObjPtr} {bound id object : Int} (names : Names hm bound)
    (done : hashMapRemove hm id = .ok (some (object, result))) :
    object = id ∧ id ∈ hm.keys ∧ {other | other ∈ result.keys} = {other | other ∈ hm.keys} \ {id} ∧
      Names result bound := by
  obtain ⟨perm, size⟩ := HashMap.remove_eq_some done
  have entry : (id, object) ∈ hm.entries := perm.mem_iff.mpr List.mem_cons_self
  have absent : id ∉ result.keys := by
    have keys : hm.keys.Perm (id :: result.keys) := by
      simpa [HashMap.keys] using perm.map Prod.fst
    exact (List.nodup_cons.mp (keys.nodup_iff.mp hm.keys_nodup)).1
  refine ⟨(names.entry _ entry).1, HashMap.mem_keys.mpr ⟨object, entry⟩, ?_,
    size.trans names.size, fun node member =>
      names.entry node (perm.mem_iff.mpr (List.mem_cons_of_mem _ member))⟩
  ext other
  change other ∈ result.keys ↔ other ∈ hm.keys ∧ other ≠ id
  rw [HashMap.mem_keys_iff perm other]
  constructor
  · intro inside
    exact ⟨.inr inside, fun same => absent (same ▸ inside)⟩
  · rintro ⟨same | inside, differs⟩
    · exact absurd same differs
    · exact inside

structure Named (o : SyncObjects) : Prop where
  lock : Names o.lockMap o.nextSyncId
  cvar : Names o.cvarMap o.nextSyncId
  pipe : Names o.pipeMap o.nextSyncId

theorem Named.of {o p : SyncObjects} (named : Named o) (lockMap : p.lockMap = o.lockMap)
    (cvarMap : p.cvarMap = o.cvarMap) (pipeMap : p.pipeMap = o.pipeMap)
    (next : p.nextSyncId = o.nextSyncId) : Named p where
  lock := by rw [lockMap, next]; exact named.lock
  cvar := by rw [cvarMap, next]; exact named.cvar
  pipe := by rw [pipeMap, next]; exact named.pipe

section
variable [Hardware] {act : Option Call}

/-- One step of the kernel is one step of the abstract kernel. -/
structure Refines (act : Option Call) (s t : Kernel) : Prop where
  placed : Placed t.toScheduler
  named : Named t.toSyncObjects
  step : s.view.Step s.currPCB t.currPCB act t.view

theorem view_withScheduler (s : Kernel) (u : Scheduler) :
    (s.withScheduler u).view = { s.view with toCrowd := u.crowd } := rfl

theorem view_of_same {s t : Kernel} (same : t.toSyncObjects = s.toSyncObjects) :
    t.view = { s.view with toCrowd := t.crowd } := by
  simp only [Kernel.view, same]

/-- A step of the scheduler keeps the sync objects. -/
theorem Refines.ofCrowd {s t : Kernel} (named : Named s.toSyncObjects)
    (same : t.toSyncObjects = s.toSyncObjects) (placed : Placed t.toScheduler)
    (step : s.crowd.Step s.currPCB t.currPCB t.crowd) : Refines act s t where
  placed := placed
  named := same ▸ named
  step := by
    rw [view_of_same same]
    exact .crowd step

theorem kernelSysReturn_refines {s : Kernel} (placed : Placed s.toScheduler)
    (busy : s.cpu.isBatch = false) (call : Call) (code : Int) :
    Placed (s.sysReturn call code).toScheduler ∧
      (s.sysReturn call code).view = s.view.finish s.currPCB call code := by
  obtain ⟨result, crowd⟩ := sysReturn_refines placed call code busy
  refine ⟨result, ?_⟩
  change { s.view with toCrowd := (s.toScheduler.sysReturn call code).crowd } = _
  rw [crowd]
  rfl

/-- A rejected call returns its error quietly. -/
theorem rejected_refines {s : Kernel} (placed : Placed s.toScheduler)
    (named : Named s.toSyncObjects) (user : s.cpu = .user) {call : Call} {code : Int}
    (quiet : call.isQuiet code = true) : Refines act s (s.sysReturn call code) := by
  have flow := (QuietFlow.same placed (by rw [user]; rfl) code).step call
    (by rw [user]; rfl) (by
      intro t other same
      rw [← (Flow.ret.inj same).2]
      exact quiet)
  exact .ofCrowd named rfl flow.1 flow.2

/-- A wake-up by pid is visible in the crowd only. -/
theorem unblockWaiter_refines {s t : Kernel} (placed : Placed s.toScheduler) {cause : Cause}
    {waiter : Addr} (done : unblockWaiter cause waiter s = .ok t) :
    Placed t.toScheduler ∧ s.view.Wake cause (s.view.proc waiter).pid t.view ∧
      t.currPCB = s.currPCB ∧ t.cpu = s.cpu ∧ t.toSyncObjects = s.toSyncObjects ∧
      t.idlePCB = s.idlePCB ∧ t.pcbs = s.pcbs := by
  unfold unblockWaiter at done
  obtain ⟨u, woken, done⟩ := Outcome.bind_eq_ok.mp done
  cases done
  obtain ⟨result, wake, curr, cpu, idlePCB, pcbs, _⟩ := unblockProcess_refines placed woken
  exact ⟨result, .mk wake, curr, cpu, rfl, idlePCB, pcbs⟩

theorem blockCurrent_refines {s : Kernel} (placed : Placed s.toScheduler) {k : Pos}
    {flow : Flow Kernel} (busy : s.cpu.isBatch = false) (blocking : k.isBlocking = true)
    (notIdle : s.currPCB ≠ s.idlePCB) (done : blockCurrent k s = .ok flow) :
    ∃ t, flow = .go t ∧ Placed t.toScheduler ∧ t.view = s.view.suspend s.currPCB k ∧
      t.toSyncObjects = s.toSyncObjects := by
  unfold blockCurrent at done
  obtain ⟨inner, blocked, done⟩ := Outcome.bind_eq_ok.mp done
  obtain ⟨u, rfl, result, crowd⟩ := blockProcess_refines placed busy blocking notIdle blocked
  cases done
  refine ⟨s.withScheduler u, rfl, result, ?_, rfl⟩
  rw [view_withScheduler, crowd]
  rfl

/-- A call that changed some objects returns to user mode. -/
theorem Refines.ret {s u : Kernel} {call : Call} {code : Int} (placed : Placed u.toScheduler)
    (busy : u.cpu.isBatch = false) (named : Named u.toSyncObjects)
    (curr : u.currPCB = s.currPCB)
    (step : s.view.Step s.currPCB u.currPCB act (u.view.finish s.currPCB call code)) :
    Refines act s (u.sysReturn call code) := by
  obtain ⟨result, view⟩ := kernelSysReturn_refines placed busy call code
  rw [curr] at view
  exact ⟨result, named, view ▸ step⟩

theorem kernelLockInit_refines {s t : Kernel} (placed : Placed s.toScheduler)
    (named : Named s.toSyncObjects) (user : s.cpu = .user) {code : Int}
    (done : kernelLockInit s = .ok (code, t)) : Refines act s (t.sysReturn .lockInit code) := by
  unfold kernelLockInit at done
  obtain ⟨inserted, outcome, done⟩ := Outcome.bind_eq_ok.mp done
  obtain ⟨lockMap, rfl, names, keys⟩ := insert_next named.lock outcome
  cases done
  have step : s.view.Step s.currPCB s.currPCB act _ := .lockInit (s.pos_curr.trans user)
  have ids : insert s.nextSyncId s.view.lockIds = {id | id ∈ lockMap.keys} := keys.symm
  change s.view.Step s.currPCB s.currPCB act (({ s.view.created s.currPCB with
    lockIds := insert s.nextSyncId s.view.lockIds }.setLock _ _).finish _ _ _) at step
  rw [ids] at step
  exact .ret (placed.record _) (show s.cpu.isBatch = false by rw [user]; rfl)
    ⟨names, named.cvar.grow, named.pipe.grow⟩ rfl step

theorem kernelCvarInit_refines {s t : Kernel} (placed : Placed s.toScheduler)
    (named : Named s.toSyncObjects) (user : s.cpu = .user) {code : Int}
    (done : kernelCvarInit s = .ok (code, t)) : Refines act s (t.sysReturn .cvarInit code) := by
  unfold kernelCvarInit at done
  obtain ⟨inserted, outcome, done⟩ := Outcome.bind_eq_ok.mp done
  obtain ⟨cvarMap, rfl, names, keys⟩ := insert_next named.cvar outcome
  cases done
  have step : s.view.Step s.currPCB s.currPCB act _ := .cvarInit (s.pos_curr.trans user)
  have ids : insert s.nextSyncId s.view.cvarIds = {id | id ∈ cvarMap.keys} := keys.symm
  change s.view.Step s.currPCB s.currPCB act (({ s.view.created s.currPCB with
    cvarIds := insert s.nextSyncId s.view.cvarIds }.setCvar _ _).finish _ _ _) at step
  rw [ids] at step
  exact .ret (placed.record _) (show s.cpu.isBatch = false by rw [user]; rfl)
    ⟨named.lock.grow, names, named.pipe.grow⟩ rfl step

theorem kernelPipeInit_refines {s t : Kernel} (placed : Placed s.toScheduler)
    (named : Named s.toSyncObjects) (user : s.cpu = .user) {oracle : Oracle} {code : Int}
    (done : kernelPipeInit oracle s = .ok (code, t)) : Refines act s (t.sysReturn .pipeInit code) := by
  unfold kernelPipeInit at done
  obtain ⟨inserted, outcome, done⟩ := Outcome.bind_eq_ok.mp done
  obtain ⟨pipeMap, rfl, names, keys⟩ := insert_next named.pipe outcome
  cases done
  have size : ((List.range pipeMaxBytes).map oracle.freshBytes).length = pipeMaxBytes := by simp
  have step : s.view.Step s.currPCB s.currPCB act _ := .pipeInit (s.pos_curr.trans user) size
  have ids : insert s.nextSyncId s.view.pipeIds = {id | id ∈ pipeMap.keys} := keys.symm
  change s.view.Step s.currPCB s.currPCB act (({ s.view.created s.currPCB with
    pipeIds := insert s.nextSyncId s.view.pipeIds }.setPipe _ _).finish _ _ _) at step
  rw [ids] at step
  exact .ret (placed.record _) (show s.cpu.isBatch = false by rw [user]; rfl)
    ⟨named.lock.grow, named.cvar.grow, names⟩ rfl step

/-- The loop takes a free lock or queues and blocks the process. -/
theorem acquireLoop_refines {s : Kernel} (placed : Placed s.toScheduler)
    (named : Named s.toSyncObjects) (busy : s.cpu.isBatch = false)
    (notIdle : s.currPCB ≠ s.idlePCB) {lockp : ObjPtr} {call : Call}
    (acquires : s.view.Acquires s.currPCB lockp call) {flow : Flow Kernel}
    (done : acquireLoop lockp call s = .ok flow) : Refines act s (finish call flow) := by
  unfold acquireLoop at done
  obtain ⟨lock, found, done⟩ := Outcome.bind_eq_ok.mp done
  have object : s.view.locks lockp = some lock := deref_eq_ok found
  dsimp only at done
  split at done
  · rename_i other owner
    obtain ⟨t, rfl, result, view, same⟩ := blockCurrent_refines
      (s := s.setLock lockp (some { lock with waitingQ := enqQ lock.waitingQ s.currPCB }))
      (k := .acquire lockp call) placed busy rfl notIdle done
    refine ⟨result, same ▸ named.of rfl rfl rfl rfl, ?_⟩
    have step : s.view.Step s.currPCB t.currPCB act _ := .acquireBlock acquires object
      (by rw [owner]; exact nofun)
    exact view ▸ step
  · rename_i owner
    cases done
    exact .ret (u := s.setLock lockp (some { lock with ownerPcbp := some s.currPCB })) placed busy
      (named.of rfl rfl rfl rfl) rfl (.acquireTake acquires object owner)

theorem kernelAcquire_refines {s : Kernel} (placed : Placed s.toScheduler)
    (named : Named s.toSyncObjects) (user : s.cpu = .user) (notIdle : s.currPCB ≠ s.idlePCB)
    {lockId : Int} {flow : Flow Kernel}
    (done : kernelAcquire (.acquire lockId) lockId s = .ok flow) :
    Refines act s (finish (.acquire lockId) flow) := by
  unfold kernelAcquire at done
  obtain ⟨found, lookup, done⟩ := Outcome.bind_eq_ok.mp done
  cases found with
  | none =>
      cases done
      exact rejected_refines placed named user rfl
  | some lockp =>
      obtain ⟨rfl, known⟩ := find_eq_some named.lock lookup
      exact acquireLoop_refines placed named (by rw [user]; rfl) notIdle
        (.call (s.pos_curr.trans user) known) done

/-- A woken waiter looks the lock up again. -/
theorem cvarWoken_refines {s : Kernel} (placed : Placed s.toScheduler)
    (named : Named s.toSyncObjects) {cvarId lockId : Int}
    (point : s.cpu = .cvarWoken cvarId lockId) {flow : Flow Kernel}
    (done : kernelAcquire (.cvarWait cvarId lockId) lockId s = .ok flow) :
    Refines act s (finish (.cvarWait cvarId lockId) flow) := by
  have busy : s.cpu.isBatch = false := by rw [point]; rfl
  unfold kernelAcquire at done
  obtain ⟨found, lookup, done⟩ := Outcome.bind_eq_ok.mp done
  cases found with
  | none =>
      cases done
      exact .ret placed busy named rfl
        (.acquireFailed (s.pos_curr.trans point) (HashMap.find_eq_none lookup))
  | some lockp =>
      obtain ⟨rfl, known⟩ := find_eq_some named.lock lookup
      exact acquireLoop_refines placed named busy (placed.not_idle (by rw [point]; rfl))
        (.woken (s.pos_curr.trans point) known) done

/-- `KernelRelease` rejects the call or frees the lock. -/
theorem kernelRelease_refines {s t : Kernel} (placed : Placed s.toScheduler)
    (named : Named s.toSyncObjects) {lockId code : Int}
    (done : kernelRelease lockId s = .ok (code, t)) :
    code = errorCode ∧ t = s ∨
      code = successCode ∧ s.view.Releases s.currPCB lockId t.view ∧ Placed t.toScheduler ∧
        Named t.toSyncObjects ∧ t.currPCB = s.currPCB ∧ t.cpu = s.cpu ∧ t.idlePCB = s.idlePCB := by
  unfold kernelRelease at done
  obtain ⟨found, lookup, done⟩ := Outcome.bind_eq_ok.mp done
  cases found with
  | none =>
      cases done
      exact .inl ⟨rfl, rfl⟩
  | some lockp =>
      obtain ⟨rfl, known⟩ := find_eq_some named.lock lookup
      obtain ⟨lock, present, done⟩ := Outcome.bind_eq_ok.mp done
      have object : s.view.locks lockp = some lock := deref_eq_ok present
      split at done
      · cases done
        exact .inl ⟨rfl, rfl⟩
      rename_i owner
      right
      have mine : lock.ownerPcbp = some s.currPCB := not_not.mp owner
      cases queue : lock.waitingQ with
      | nil =>
          rw [queue] at done
          cases done
          exact ⟨rfl, .alone known object mine queue, placed.record _, named.of rfl rfl rfl rfl,
            rfl, rfl, rfl⟩
      | cons first rest =>
          rw [queue] at done
          obtain ⟨u, woken, done⟩ := Outcome.bind_eq_ok.mp done
          cases done
          obtain ⟨result, wake, curr, cpu, same, idlePCB, _⟩ :=
            unblockWaiter_refines (placed.record _) woken
          exact ⟨rfl, .waiter known object mine queue wake, result,
            same ▸ named.of rfl rfl rfl rfl, curr, cpu, idlePCB⟩

theorem kernelReleaseCall_refines {s t : Kernel} (placed : Placed s.toScheduler)
    (named : Named s.toSyncObjects) (user : s.cpu = .user) {lockId code : Int}
    (done : kernelRelease lockId s = .ok (code, t)) :
    Refines (some (.release lockId)) s (t.sysReturn (.release lockId) code) := by
  rcases kernelRelease_refines placed named done with
    ⟨rfl, rfl⟩ | ⟨rfl, releases, result, named, curr, cpu, _⟩
  · exact rejected_refines placed named user rfl
  · exact .ret result (by rw [cpu, user]; rfl) named curr
      (.release rfl (s.pos_curr.trans user) releases)

theorem kernelCvarWait_refines {s : Kernel} (placed : Placed s.toScheduler)
    (named : Named s.toSyncObjects) (user : s.cpu = .user) (notIdle : s.currPCB ≠ s.idlePCB)
    {cvarId lockId : Int} {flow : Flow Kernel}
    (done : kernelCvarWait cvarId lockId s = .ok flow) :
    Refines (some (.cvarWait cvarId lockId)) s (finish (.cvarWait cvarId lockId) flow) := by
  unfold kernelCvarWait at done
  obtain ⟨found, lookup, done⟩ := Outcome.bind_eq_ok.mp done
  cases found with
  | none =>
      cases done
      exact rejected_refines placed named user rfl
  | some cvarp =>
      obtain ⟨rfl, known⟩ := find_eq_some named.cvar lookup
      obtain ⟨cvarQ, present, done⟩ := Outcome.bind_eq_ok.mp done
      have object : s.view.cvars cvarp = some cvarQ := deref_eq_ok present
      obtain ⟨⟨code, u⟩, released, done⟩ := Outcome.bind_eq_ok.mp done
      -- The release may fail, and the process blocks all the same.
      have middle : Placed u.toScheduler ∧ Named u.toSyncObjects ∧ u.currPCB = s.currPCB ∧
          u.cpu = s.cpu ∧ u.idlePCB = s.idlePCB ∧
          (u.view = s.view.setCvar cvarp (some (enqQ cvarQ s.currPCB)) ∨
            (s.view.setCvar cvarp (some (enqQ cvarQ s.currPCB))).Releases s.currPCB lockId
              u.view) := by
        have waiting := named.of (p := (s.setCvar cvarp
          (some (enqQ cvarQ s.currPCB))).toSyncObjects) rfl rfl rfl rfl
        rcases kernelRelease_refines (s := s.setCvar cvarp (some (enqQ cvarQ s.currPCB))) placed
          waiting released with ⟨_, rfl⟩ | ⟨_, releases, result, sameNames, curr, cpu, idlePCB⟩
        · exact ⟨placed, waiting, rfl, rfl, rfl, .inl rfl⟩
        · exact ⟨result, sameNames, curr, cpu, idlePCB, .inr releases⟩
      obtain ⟨result, sameNames, curr, cpu, idlePCB, releases⟩ := middle
      obtain ⟨t, rfl, blocked, view, same⟩ := blockCurrent_refines result
        (k := .cvarWoken cvarp lockId) (by rw [cpu, user]; rfl) rfl
        (by rw [curr, idlePCB]; exact notIdle) done
      refine ⟨blocked, same ▸ sameNames, ?_⟩
      have step : s.view.Step s.currPCB t.currPCB _ _ :=
        .cvarWait rfl (s.pos_curr.trans user) known object releases
      rw [curr] at view
      exact view ▸ step

theorem kernelCvarSignal_refines {s t : Kernel} (placed : Placed s.toScheduler)
    (named : Named s.toSyncObjects) (user : s.cpu = .user) {cvarId code : Int}
    (done : kernelCvarSignal cvarId s = .ok (code, t)) :
    Refines (some (.cvarSignal cvarId)) s (t.sysReturn (.cvarSignal cvarId) code) := by
  unfold kernelCvarSignal at done
  obtain ⟨found, lookup, chosen⟩ := Outcome.bind_eq_ok.mp done
  cases found with
  | none =>
      cases chosen
      exact rejected_refines placed named user rfl
  | some cvarp =>
      obtain ⟨rfl, known⟩ := find_eq_some named.cvar lookup
      obtain ⟨cvarQ, present, dequeued⟩ := Outcome.bind_eq_ok.mp chosen
      have object : s.view.cvars cvarp = some cvarQ := deref_eq_ok present
      cases cvarQ with
      | nil =>
          cases dequeued
          exact .ret placed (by rw [user]; rfl) named rfl
            (.signal rfl (s.pos_curr.trans user) known (.inl ⟨object, rfl⟩))
      | cons first rest =>
          obtain ⟨u, woken, returned⟩ := Outcome.bind_eq_ok.mp dequeued
          cases returned
          obtain ⟨result, wake, curr, cpu, same, _, _⟩ :=
            unblockWaiter_refines (s := s.setCvar cvarp (some rest)) placed woken
          exact .ret result (by rw [cpu]; exact user ▸ rfl) (same ▸ named.of rfl rfl rfl rfl) curr
            (.signal rfl (s.pos_curr.trans user) known (.inr (.mk object wake)))

/-- The loop of the broadcast wakes the queue one by one. -/
theorem broadcastLoop_refines {cvarp : ObjPtr} {cvarQ : Queue Addr} {s t : Kernel}
    (placed : Placed s.toScheduler) (object : s.cvars cvarp = some cvarQ)
    (done : broadcastLoop cvarp cvarQ s = .ok t) :
    Relation.ReflTransGen (View.Dequeues (.broadcast cvarp) cvarp) s.view t.view ∧
      t.cvars cvarp = some [] ∧ Placed t.toScheduler ∧ t.currPCB = s.currPCB ∧ t.cpu = s.cpu ∧
      (Named s.toSyncObjects → Named t.toSyncObjects) := by
  induction cvarQ generalizing s with
  | nil =>
      cases done
      exact ⟨.refl, object, placed, rfl, rfl, id⟩
  | cons first rest ih =>
      obtain ⟨u, woken, done⟩ := Outcome.bind_eq_ok.mp done
      obtain ⟨result, wake, curr, cpu, same, _, _⟩ :=
        unblockWaiter_refines (s := s.setCvar cvarp (some rest)) placed woken
      have next : u.cvars cvarp = some rest := by
        rw [same]
        exact Function.update_self cvarp (some rest) s.cvars
      obtain ⟨chain, empty, last, sameCurr, sameCpu, names⟩ := ih result next done
      exact ⟨.head (.mk object wake) chain, empty, last, sameCurr.trans curr, sameCpu.trans cpu,
        fun named => names (same ▸ named.of rfl rfl rfl rfl)⟩

theorem kernelCvarBroadcast_refines {s t : Kernel} (placed : Placed s.toScheduler)
    (named : Named s.toSyncObjects) (user : s.cpu = .user) {cvarId code : Int}
    (done : kernelCvarBroadcast cvarId s = .ok (code, t)) :
    Refines (some (.cvarBroadcast cvarId)) s (t.sysReturn (.cvarBroadcast cvarId) code) := by
  unfold kernelCvarBroadcast at done
  obtain ⟨found, lookup, chosen⟩ := Outcome.bind_eq_ok.mp done
  cases found with
  | none =>
      cases chosen
      exact rejected_refines placed named user rfl
  | some cvarp =>
      obtain ⟨rfl, known⟩ := find_eq_some named.cvar lookup
      obtain ⟨cvarQ, present, looped⟩ := Outcome.bind_eq_ok.mp chosen
      obtain ⟨u, drained, returned⟩ := Outcome.bind_eq_ok.mp looped
      cases returned
      obtain ⟨chain, empty, result, curr, cpu, names⟩ :=
        broadcastLoop_refines placed (deref_eq_ok present) drained
      exact .ret result (by rw [cpu, user]; rfl) (names named) curr
        (.broadcast rfl (s.pos_curr.trans user) known chain empty)

end

end Yallnix

import Yallnix.Proof.SyncRefinement

namespace Yallnix

/-- A read from the base of a buffer takes its first bytes. -/
theorem readBytes_base {source bytes : List Byte} {len : Int}
    (done : readBytes source 0 len = .ok bytes) :
    bytes = source.take len.toNat ∧ 0 ≤ len ∧ len ≤ source.length := by
  unfold readBytes at done
  split at done
  · rename_i inside
    cases done
    exact ⟨by simp, inside.2.1, by simpa using inside.2.2⟩
  · cases done

/-- A move to the base of a buffer keeps the bytes behind the moved ones. -/
theorem memmove_base {dest source result : List Byte} (done : memmove dest 0 source = .ok result) :
    result = source ++ dest.drop source.length := by
  unfold memmove at done
  split at done
  · cases done
    simp
  · cases done

theorem readBytes_eq_ok {source bytes : List Byte} {offset len : Int}
    (done : readBytes source offset len = .ok bytes) :
    bytes = (source.drop offset.toNat).take len.toNat ∧ bytes.length = len.toNat := by
  unfold readBytes at done
  split at done
  · rename_i inside
    obtain ⟨low, count, high⟩ := inside
    cases done
    refine ⟨rfl, ?_⟩
    rw [List.length_take, List.length_drop]
    omega
  · cases done

/-- These calls concern the sync objects. -/
def Call.isSync : Call → Bool
  | .reclaim _ | .lockInit | .acquire _ | .release _ | .cvarInit | .cvarSignal _
  | .cvarBroadcast _ | .cvarWait .. | .pipeInit | .pipeRead .. | .pipeWrite .. => true
  | _ => false

section
variable [Hardware] {act : Option Call}

theorem unblockHead_refines {s t : Kernel} (placed : Placed s.toScheduler) {pipep : ObjPtr}
    {waitingQ : Queue Addr} (done : unblockHead pipep waitingQ s = .ok t) :
    Placed t.toScheduler ∧ s.view.WakesHead pipep waitingQ t.view ∧ t.currPCB = s.currPCB ∧
      t.cpu = s.cpu ∧ t.toSyncObjects = s.toSyncObjects := by
  cases waitingQ with
  | nil =>
      cases done
      exact ⟨placed, .empty, rfl, rfl, rfl⟩
  | cons first rest =>
      obtain ⟨result, wake, curr, cpu, same, _, _⟩ := unblockWaiter_refines placed done
      exact ⟨result, .head wake, curr, cpu, same⟩

/-- A read of a pipe blocks, takes its bytes or finds an empty queue. -/
inductive View.ReadStep (p : Addr) (act : Option Call) (pipep : ObjPtr) (pipeId len : Int)
    (v : View) : View → Prop where
  | blocks {pipe : Pipe} {w : View} (reads : v.Reads p act pipep len pipeId pipe w)
      (waits : pipe.numBytesWritten < len ∨
        (v.proc p).pos = .user ∧ peekQ pipe.waitingQ ≠ some p) :
      ReadStep p act pipep pipeId len v (w.suspend p (.pipeRead pipep pipeId len))
  | takes {pipe : Pipe} {first : Addr} {rest : Queue Addr} {w x : View}
      (reads : v.Reads p act pipep len pipeId pipe w) (enough : len ≤ pipe.numBytesWritten)
      (queue : pipe.waitingQ = first :: rest) (turn : (v.proc p).pos = .user → first = p)
      (wakes : if 0 < pipe.numBytesWritten - len then
          ((w.setPipe pipep (some (pipe.consumed len rest))).record
            (.pipeRead pipep len (pipe.buffer.take len.toNat))).WakesHead pipep rest x
        else x = (w.setPipe pipep (some (pipe.consumed len rest))).record
          (.pipeRead pipep len (pipe.buffer.take len.toNat))) :
      ReadStep p act pipep pipeId len v (x.finish p (.pipeRead pipeId len) len)
  | dry {pipe : Pipe} {w : View} (reads : v.Reads p act pipep len pipeId pipe w)
      (enough : len ≤ pipe.numBytesWritten) (queue : pipe.waitingQ = []) :
      ReadStep p act pipep pipeId len v (w.finish p (.pipeRead pipeId len) errorCode)

theorem View.ReadStep.step {p next : Addr} {pipep : ObjPtr} {pipeId len : Int} {v w : View}
    (read : v.ReadStep p act pipep pipeId len w) : v.Step p next act w := by
  cases read with
  | blocks reads waits => exact .pipeBlock reads waits
  | takes reads enough queue turn wakes => exact .pipeTake reads enough queue turn wakes
  | dry reads enough queue => exact .pipeDry reads enough queue

/-- One step of the kernel is one read of the abstract kernel. -/
structure RefinesRead (act : Option Call) (pipep : ObjPtr) (pipeId len : Int) (s t : Kernel) :
    Prop where
  placed : Placed t.toScheduler
  named : Named t.toSyncObjects
  read : s.view.ReadStep s.currPCB act pipep pipeId len t.view

theorem RefinesRead.refines {pipep : ObjPtr} {pipeId len : Int} {s t : Kernel}
    (refines : RefinesRead act pipep pipeId len s t) : Refines act s t :=
  ⟨refines.placed, refines.named, refines.read.step⟩

/-- A read that changed its pipe returns to user mode. -/
theorem RefinesRead.ret {pipep : ObjPtr} {pipeId len : Int} {s u : Kernel} {call : Call}
    {code : Int} (placed : Placed u.toScheduler) (busy : u.cpu.isBatch = false)
    (named : Named u.toSyncObjects) (curr : u.currPCB = s.currPCB)
    (read : s.view.ReadStep s.currPCB act pipep pipeId len (u.view.finish s.currPCB call code)) :
    RefinesRead act pipep pipeId len s (u.sysReturn call code) := by
  obtain ⟨result, view⟩ := kernelSysReturn_refines placed busy call code
  rw [curr] at view
  exact ⟨result, named, view ▸ read⟩

/-- The reader blocks or takes its bytes from the base of the buffer. -/
theorem pipeReadLoop_refines {r s : Kernel} (placed : Placed s.toScheduler)
    (named : Named s.toSyncObjects) (busy : s.cpu.isBatch = false)
    (notIdle : s.currPCB ≠ s.idlePCB) (curr : s.currPCB = r.currPCB) {pipep : ObjPtr}
    {pipeId len : Int} {pipe : Pipe} (object : s.pipes pipep = some pipe)
    (reads : r.view.Reads r.currPCB act pipep len pipeId pipe s.view)
    (turn : r.cpu = .user → peekQ pipe.waitingQ = some r.currPCB) {flow : Flow Kernel}
    (done : pipeReadLoop pipep pipeId len s = .ok flow) :
    RefinesRead act pipep pipeId len r (finish (.pipeRead pipeId len) flow) := by
  unfold pipeReadLoop at done
  rw [object, deref, Outcome.ok_bind] at done
  split at done
  · rename_i short
    obtain ⟨t, rfl, result, view, same⟩ := blockCurrent_refines
      (k := .pipeRead pipep pipeId len) placed busy rfl notIdle done
    refine ⟨result, same ▸ named, ?_⟩
    rw [curr] at view
    have read : r.view.ReadStep r.currPCB act pipep pipeId len _ := .blocks reads (.inl short)
    exact view ▸ read
  rename_i enough
  cases queue : pipe.waitingQ with
  | nil =>
      rw [queue] at done
      cases done
      exact .ret placed busy named curr (.dry reads (by omega) queue)
  | cons first rest =>
      have turn (user : (r.view.proc r.currPCB).pos = .user) : first = r.currPCB := by
        have head := turn (r.pos_curr.symm.trans user)
        rw [queue] at head
        exact Option.some.inj head
      rw [queue] at done
      obtain ⟨bytes, read, done⟩ := Outcome.bind_eq_ok.mp done
      obtain ⟨rfl, nonneg, inside⟩ := readBytes_base read
      dsimp only at done
      split at done
      · rename_i remain
        obtain ⟨behind, readRest, done⟩ := Outcome.bind_eq_ok.mp done
        obtain ⟨behindEq, behindLength⟩ := readBytes_eq_ok readRest
        obtain ⟨buffer, moved, done⟩ := Outcome.bind_eq_ok.mp done
        obtain ⟨t, woken, done⟩ := Outcome.bind_eq_ok.mp done
        cases done
        obtain ⟨result, wakes, sameCurr, cpu, same⟩ :=
          unblockHead_refines (placed.record _) woken
        have consumed : pipe.consumed len rest =
            ⟨buffer, pipe.numBytesWritten - len, rest⟩ := by
          rw [memmove_base moved, behindLength, behindEq]
          simp only [Pipe.consumed, if_pos remain]
        refine .ret result (by rw [cpu]; exact busy) (same ▸ named.of rfl rfl rfl rfl)
          (sameCurr.trans curr) (.takes reads (by omega) queue turn ?_)
        rw [if_pos remain, consumed]
        exact wakes
      · rename_i none
        cases done
        refine .ret (s := r) (placed.record _) busy (named.of rfl rfl rfl rfl) curr
          (.takes reads (by omega) queue turn ?_)
        rw [if_neg none]
        have consumed : pipe.consumed len rest =
            ⟨pipe.buffer, pipe.numBytesWritten - len, rest⟩ := by
          simp only [Pipe.consumed, if_neg none]
        rw [consumed]
        rfl

/-- A reader that runs again goes on in its loop. -/
theorem pipeReadLoop_reads {s : Kernel} (placed : Placed s.toScheduler)
    (named : Named s.toSyncObjects) {pipep : ObjPtr} {pipeId len : Int}
    (point : s.cpu = .pipeRead pipep pipeId len) {flow : Flow Kernel}
    (done : pipeReadLoop pipep pipeId len s = .ok flow) :
    RefinesRead act pipep pipeId len s (finish (.pipeRead pipeId len) flow) := by
  cases object : s.pipes pipep with
  | none =>
      unfold pipeReadLoop at done
      rw [object] at done
      cases done
  | some pipe =>
      exact pipeReadLoop_refines (r := s) placed named (by rw [point]; rfl)
        (placed.not_idle (by rw [point]; rfl)) rfl object
        (.again (s.pos_curr.trans point) object) (fun user => by rw [point] at user; cases user)
        done

/-- A call for bytes of a pipe that exists enters its loop. -/
theorem kernelPipeRead_reads {s : Kernel} (placed : Placed s.toScheduler)
    (named : Named s.toSyncObjects) (user : s.cpu = .user) (notIdle : s.currPCB ≠ s.idlePCB)
    {pipep : ObjPtr} {len : Int} (positive : 0 < len) (known : pipep ∈ s.pipeMap.keys)
    {flow : Flow Kernel} (done : kernelPipeRead pipep len s = .ok flow) :
    RefinesRead (some (.pipeRead pipep len)) pipep pipep len s
      (finish (.pipeRead pipep len) flow) := by
  unfold kernelPipeRead at done
  rw [if_neg (by omega), if_neg (by omega)] at done
  obtain ⟨found, lookup, chosen⟩ := Outcome.bind_eq_ok.mp done
  cases found with
  | none => exact absurd known (HashMap.find_eq_none lookup)
  | some pipep =>
      obtain ⟨rfl, known⟩ := find_eq_some named.pipe lookup
      obtain ⟨pipe, present, entered⟩ := Outcome.bind_eq_ok.mp chosen
      have object : s.view.pipes pipep = some pipe := deref_eq_ok present
      have reads : s.view.Reads s.currPCB (some (.pipeRead pipep len)) pipep len _ _ _ :=
        .call rfl (s.pos_curr.trans user) known positive object
      have names : Named (s.setPipe pipep (some { pipe with
          waitingQ := enqQ pipe.waitingQ s.currPCB })).toSyncObjects := named.of rfl rfl rfl rfl
      dsimp only at entered
      split at entered
      · rename_i behind
        obtain ⟨t, rfl, result, view, same⟩ := blockCurrent_refines
          (s := s.setPipe pipep (some { pipe with waitingQ := enqQ pipe.waitingQ s.currPCB }))
          (k := .pipeRead pipep pipep len) placed (by change s.cpu.isBatch = false; rw [user]; rfl)
          rfl notIdle entered
        refine ⟨result, same ▸ names, ?_⟩
        have read : s.view.ReadStep s.currPCB _ pipep pipep len _ :=
          .blocks reads (.inr ⟨s.pos_curr.trans user, behind⟩)
        exact view ▸ read
      · rename_i ahead
        exact pipeReadLoop_refines (r := s)
          (s := s.setPipe pipep (some { pipe with waitingQ := enqQ pipe.waitingQ s.currPCB }))
          placed names (by change s.cpu.isBatch = false; rw [user]; rfl) notIdle rfl
          (Function.update_self _ _ _) reads (fun _ => not_not.mp ahead) entered

theorem kernelPipeRead_refines {s : Kernel} (placed : Placed s.toScheduler)
    (named : Named s.toSyncObjects) (user : s.cpu = .user) (notIdle : s.currPCB ≠ s.idlePCB)
    {pipeId len : Int} {flow : Flow Kernel} (done : kernelPipeRead pipeId len s = .ok flow) :
    Refines (some (.pipeRead pipeId len)) s (finish (.pipeRead pipeId len) flow) := by
  by_cases enters : 0 < len ∧ pipeId ∈ s.pipeMap.keys
  · exact (kernelPipeRead_reads placed named user notIdle enters.1 enters.2 done).refines
  · unfold kernelPipeRead at done
    split at done
    · cases done
      exact rejected_refines placed named user rfl
    split at done
    · cases done
      exact rejected_refines placed named user rfl
    obtain ⟨found, lookup, chosen⟩ := Outcome.bind_eq_ok.mp done
    cases found with
    | none =>
        cases chosen
        exact rejected_refines placed named user rfl
    | some pipep =>
        obtain ⟨_, known⟩ := find_eq_some named.pipe lookup
        exact absurd ⟨by omega, known⟩ enters

theorem kernelPipeWrite_refines {s t : Kernel} (placed : Placed s.toScheduler)
    (named : Named s.toSyncObjects) (user : s.cpu = .user) {pipeId len code : Int}
    {bytes : List Byte} (size : bytes.length = len.toNat)
    (done : kernelPipeWrite pipeId len bytes s = .ok (code, t)) :
    Refines (some (.pipeWrite pipeId len bytes)) s (t.sysReturn (.pipeWrite pipeId len bytes) code) := by
  unfold kernelPipeWrite at done
  split at done
  · cases done
    exact rejected_refines placed named user rfl
  split at done
  · cases done
    exact rejected_refines placed named user rfl
  obtain ⟨found, lookup, chosen⟩ := Outcome.bind_eq_ok.mp done
  cases found with
  | none =>
      cases chosen
      exact rejected_refines placed named user rfl
  | some pipep =>
      obtain ⟨rfl, known⟩ := find_eq_some named.pipe lookup
      obtain ⟨pipe, present, entered⟩ := Outcome.bind_eq_ok.mp chosen
      have object : s.view.pipes pipep = some pipe := deref_eq_ok present
      split at entered
      · cases entered
        exact rejected_refines placed named user rfl
      rename_i room
      obtain ⟨buffer, copied, written⟩ := Outcome.bind_eq_ok.mp entered
      obtain ⟨u, woken, returned⟩ := Outcome.bind_eq_ok.mp written
      cases returned
      obtain ⟨result, wakes, sameCurr, cpu, same⟩ := unblockHead_refines (placed.record _) woken
      exact .ret result (by rw [cpu]; exact user ▸ rfl) (same ▸ named.of rfl rfl rfl rfl) sameCurr
        (.pipeWrite rfl (s.pos_curr.trans user) known (by omega) size object (by omega) copied wakes)

/-- The id leaves its map whether the object is in use or not. -/
theorem kernelReclaim_refines {s t : Kernel} (placed : Placed s.toScheduler)
    (named : Named s.toSyncObjects) (user : s.cpu = .user) {id code : Int}
    (done : kernelReclaim id s = .ok (code, t)) :
    Refines (some (.reclaim id)) s (t.sysReturn (.reclaim id) code) := by
  have busy : s.cpu.isBatch = false := by rw [user]; rfl
  have here : (s.view.proc s.currPCB).pos = .user := s.pos_curr.trans user
  unfold kernelReclaim at done
  obtain ⟨lockFound, _, done⟩ := Outcome.bind_eq_ok.mp done
  split at done
  · unfold deleteLock at done
    obtain ⟨removed, removal, chosen⟩ := Outcome.bind_eq_ok.mp done
    cases removed with
    | none =>
        cases chosen
        exact rejected_refines placed named user rfl
    | some found =>
        obtain ⟨lockp, lockMap⟩ := found
        obtain ⟨rfl, known, ids, names⟩ := remove_named named.lock removal
        obtain ⟨lock, present, tested⟩ := Outcome.bind_eq_ok.mp chosen
        have object : s.view.locks lockp = some lock := deref_eq_ok present
        have lockIds : {id | id ∈ lockMap.keys} = s.view.lockIds \ {lockp} := ids
        dsimp only at tested
        split at tested
        · rename_i used
          cases tested
          have owned : lock.ownerPcbp ≠ none := used.resolve_right (by simp [peekQ, makeQ])
          have step : s.view.Step s.currPCB s.currPCB _ _ := .reclaimOwned rfl here known object owned
          rw [← lockIds] at step
          exact .ret placed busy ⟨names, named.cvar, named.pipe⟩ rfl step
        · rename_i unused
          cases tested
          have free : lock.ownerPcbp = none := not_not.mp (not_or.mp unused).1
          have step : s.view.Step s.currPCB s.currPCB _ _ := .reclaimLock rfl here known object free
          rw [← lockIds] at step
          have twice : (({ s.setLock lockp (some { lock with waitingQ := makeQ }) with
              lockMap := lockMap } : Kernel).setLock lockp none).view =
              ({ s.view with lockIds := {id | id ∈ lockMap.keys} } : View).setLock lockp none := by
            simp only [Kernel.view, Kernel.setLock, View.setLock, Function.update_idem]
          refine .ret placed busy ⟨names, named.cvar, named.pipe⟩ rfl ?_
          rw [twice]
          exact step
  obtain ⟨cvarFound, _, done⟩ := Outcome.bind_eq_ok.mp done
  split at done
  · unfold deleteCvar at done
    obtain ⟨removed, removal, chosen⟩ := Outcome.bind_eq_ok.mp done
    cases removed with
    | none =>
        cases chosen
        exact rejected_refines placed named user rfl
    | some found =>
        obtain ⟨cvarp, cvarMap⟩ := found
        obtain ⟨rfl, known, ids, names⟩ := remove_named named.cvar removal
        obtain ⟨cvarQ, present, tested⟩ := Outcome.bind_eq_ok.mp chosen
        have object : s.view.cvars cvarp = some cvarQ := deref_eq_ok present
        have cvarIds : {id | id ∈ cvarMap.keys} = s.view.cvarIds \ {cvarp} := ids
        dsimp only at tested
        split at tested
        · rename_i waited
          cases tested
          have step : s.view.Step s.currPCB s.currPCB _ _ := .reclaimWaited rfl here known object
            (fun empty => waited (List.head?_eq_none_iff.mpr empty))
          rw [← cvarIds] at step
          exact .ret placed busy ⟨named.lock, names, named.pipe⟩ rfl step
        · rename_i unused
          cases tested
          have empty : cvarQ = [] := List.head?_eq_none_iff.mp (not_not.mp unused)
          subst empty
          have step : s.view.Step s.currPCB s.currPCB _ _ := .reclaimCvar rfl here known object
          rw [← cvarIds] at step
          exact .ret placed busy ⟨named.lock, names, named.pipe⟩ rfl step
  obtain ⟨pipeFound, _, done⟩ := Outcome.bind_eq_ok.mp done
  split at done
  · unfold deletePipe at done
    obtain ⟨removed, removal, chosen⟩ := Outcome.bind_eq_ok.mp done
    cases removed with
    | none =>
        cases chosen
        exact rejected_refines placed named user rfl
    | some found =>
        obtain ⟨pipep, pipeMap⟩ := found
        obtain ⟨rfl, known, ids, names⟩ := remove_named named.pipe removal
        obtain ⟨pipe, present, tested⟩ := Outcome.bind_eq_ok.mp chosen
        have object : s.view.pipes pipep = some pipe := deref_eq_ok present
        have pipeIds : {id | id ∈ pipeMap.keys} = s.view.pipeIds \ {pipep} := ids
        dsimp only at tested
        split at tested
        · rename_i waited
          cases tested
          have step : s.view.Step s.currPCB s.currPCB _ _ := .reclaimRead rfl here known object
            (fun empty => waited (List.head?_eq_none_iff.mpr empty))
          rw [← pipeIds] at step
          exact .ret placed busy ⟨named.lock, named.cvar, names⟩ rfl step
        · rename_i unused
          cases tested
          have step : s.view.Step s.currPCB s.currPCB _ _ := .reclaimPipe rfl here known object
            (List.head?_eq_none_iff.mp (not_not.mp unused))
          rw [← pipeIds] at step
          exact .ret placed busy ⟨named.lock, named.cvar, names⟩ rfl step
  · cases done
    exact rejected_refines placed named user rfl

theorem isUser_iff {k : Pos} : k.isUser = true ↔ k = .user := by
  cases k <;> simp [Pos.isUser]

/-- These program points belong to waits for sync objects. -/
def Pos.isSyncWait : Pos → Bool
  | .acquire .. | .cvarWoken .. | .pipeRead .. => true
  | _ => false

/-- The kernel enters by a trap or an interrupt and not by a call. -/
def Input.isInterrupt : Input → Bool
  | .kernelCall .. | .resume _ => false
  | _ => true

/-- One step of the kernel is one step of the processes, and the sync objects stay. In user mode
only `KernelWait` blocks. -/
structure RefinesCrowd (act : Option Call) (s t : Kernel) : Prop where
  placed : Placed t.toScheduler
  same : t.toSyncObjects = s.toSyncObjects
  step : s.crowd.Step s.currPCB t.currPCB t.crowd
  blocks : s.cpu = .user → (∀ statusPtr, act ≠ some (.wait statusPtr)) →
    t.crowd.blocked = s.crowd.blocked

theorem QuietFlow.blocked {s : Scheduler} {flow : Flow Scheduler} (quiet : QuietFlow s flow)
    (call : Call) : (flow.finish call).crowd.blocked = s.crowd.blocked := by
  cases flow with
  | go t =>
      obtain ⟨_, k, events, _, _, crowd⟩ := quiet
      change t.crowd.blocked = s.crowd.blocked
      rw [crowd]
      rfl
  | ret t code =>
      obtain ⟨_, _, events, _, crowd⟩ := quiet
      change ({ t with cpu := .user } : Scheduler).crowd.blocked = s.crowd.blocked
      rw [crowd]
      rfl

theorem RefinesCrowd.refines {s t : Kernel} (refines : RefinesCrowd act s t)
    (named : Named s.toSyncObjects) : Refines act s t :=
  .ofCrowd named refines.same refines.placed refines.step

/-- A quiet flow of a terminal or a memory call is a step of the processes. -/
theorem RefinesCrowd.ofQuiet {s : Kernel} (call : Call) {flow : Flow Scheduler}
    (before : s.cpu.isPlain = true) (silent : ∀ code, call.isQuiet code = true)
    (quiet : QuietFlow s.toScheduler flow) : RefinesCrowd act s (finishScheduler call s flow) := by
  obtain ⟨result, step⟩ := quiet.step call before fun _ code _ => silent code
  rw [finishScheduler_eq]
  exact ⟨result, rfl, step, fun _ _ => quiet.blocked call⟩

theorem RefinesCrowd.ofQuietKernel {s : Kernel} {flow : Flow Kernel} {call : Call}
    (before : s.cpu.isPlain = true) (silent : ∀ code, call.isQuiet code = true)
    (quiet : (finish call flow).toSyncObjects = s.toSyncObjects ∧
      ∃ inner, QuietFlow s.toScheduler inner ∧
        (finish call flow).toScheduler = inner.finish call) :
    RefinesCrowd act s (finish call flow) := by
  obtain ⟨same, inner, flows, result⟩ := quiet
  obtain ⟨placed, step⟩ := flows.step call before fun _ code _ => silent code
  refine ⟨?_, same, ?_, fun _ _ => ?_⟩
  · rw [result]
    exact placed
  · rw [result]
    exact step
  · rw [result]
    exact flows.blocked call

/-- An interrupt moves the current process at most. -/
theorem crowdStep_ofMove {s t : Scheduler} (user : s.cpu = .user)
    (crowd : t.crowd = s.crowd ∨ t.crowd = s.crowd.move s.currPCB .trapReturn) :
    s.crowd.Step s.currPCB t.currPCB t.crowd := by
  have point : (s.crowd.proc s.currPCB).pos = .user := s.pos_curr.trans user
  have silent : ∀ event ∈ ([] : List Event), event.isQuiet = true := by simp
  rcases crowd with same | moved
  · have still : s.crowd.move s.currPCB .user = s.crowd := by
      have proc (a : Addr) : (s.crowd.move s.currPCB .user).proc a = s.crowd.proc a := by
        rw [Crowd.move_proc]
        by_cases isCurr : a = s.currPCB
        · rw [if_pos isCurr, isCurr, ← point]
        · rw [if_neg isCurr]
      exact congrArg (fun proc => ({ s.crowd with proc := proc } : Crowd)) (funext proc)
    rw [same]
    have step : s.crowd.Step s.currPCB t.currPCB (s.crowd.move s.currPCB .user) :=
      .quiet (k := .user) (by rw [point]; rfl) rfl silent
    rw [still] at step
    exact step
  · rw [moved]
    exact .quiet (k := .trapReturn) (by rw [point]; rfl) rfl silent

theorem RefinesCrowd.ofMove {s : Kernel} {t : Scheduler} (user : s.cpu = .user)
    (placed : Placed t)
    (crowd : t.crowd = s.crowd ∨ t.crowd = s.crowd.move s.currPCB .trapReturn) :
    RefinesCrowd act s (s.withScheduler t) := by
  refine ⟨placed, rfl, crowdStep_ofMove user crowd, fun _ _ => ?_⟩
  rcases crowd with same | moved
  · exact congrArg Crowd.blocked same
  · change t.crowd.blocked = s.crowd.blocked
    rw [moved]
    rfl

/-- Each call outside of the sync calls is one step of the processes. -/
theorem processCall_refines {s t : Kernel} (placed : Placed s.toScheduler)
    (family : Family s.crowd) (user : s.cpu = .user) (notIdle : s.currPCB ≠ s.idlePCB)
    {oracle : Oracle} (fresh : oracle.pcb ∉ s.allocated) {call : Call}
    (alone : call.isSync = false) (done : handleTrapKernel oracle call s = .ok t) :
    RefinesCrowd (some call) s t := by
  have plain : s.cpu.isPlain = true := by rw [user]; rfl
  cases call with
  | fork =>
      obtain ⟨flow, forked, done⟩ := Outcome.bind_eq_ok.mp done
      cases done
      obtain ⟨result, step⟩ := kernelFork_refines placed family user notIdle fresh forked
      rw [finishScheduler_eq]
      refine ⟨result, rfl, step, fun _ _ => ?_⟩
      exact congrArg (fun map : HashMap Addr => {a | a ∈ map.items})
        (kernelFork_blockedMap placed family fresh forked)
  | exec request =>
      obtain ⟨flow, loaded, done⟩ := Outcome.bind_eq_ok.mp done
      cases done
      exact .ofQuiet _ plain (fun _ => rfl) (kernelExec_refines placed user notIdle loaded)
  | exit status =>
      cases done
      exact .ofQuiet (.exit status) plain (fun _ => rfl)
        (setExit_refines placed user notIdle status)
  | wait statusPtr =>
      obtain ⟨flow, waited, done⟩ := Outcome.bind_eq_ok.mp done
      cases done
      obtain ⟨result, step⟩ := kernelWait_refines placed user notIdle waited
      rw [finishScheduler_eq]
      exact ⟨result, rfl, step, fun _ other => absurd rfl (other statusPtr)⟩
  | getPid =>
      cases done
      exact .ofQuiet .getPid plain (fun _ => rfl) (.same placed (by rw [user]; rfl) s.curr.pid)
  | brk addr =>
      obtain ⟨⟨code, u⟩, grown, done⟩ := Outcome.bind_eq_ok.mp done
      cases done
      exact .ofQuiet (.brk addr) plain (fun _ => rfl) (kernelBrk_refines placed user grown)
  | delay clockTicks =>
      obtain ⟨flow, slept, done⟩ := Outcome.bind_eq_ok.mp done
      cases done
      exact .ofQuiet _ plain (fun _ => rfl) (kernelDelay_refines placed user notIdle slept)
  | ttyRead ttyId buf len =>
      obtain ⟨flow, read, done⟩ := Outcome.bind_eq_ok.mp done
      cases done
      exact .ofQuietKernel plain (fun _ => rfl) (kernelTtyRead_refines placed user notIdle read)
  | ttyWrite ttyId buf len bytes =>
      obtain ⟨flow, written, done⟩ := Outcome.bind_eq_ok.mp done
      cases done
      exact .ofQuiet _ plain (fun _ => rfl) (kernelTtyWrite_refines placed user notIdle written)
  | unknown => cases done
  | _ => cases alone

/-- Each kernel call is one step of the abstract kernel. -/
theorem handleTrapKernel_refines {s t : Kernel} (placed : Placed s.toScheduler)
    (named : Named s.toSyncObjects) (family : Family s.crowd) (user : s.cpu = .user)
    (notIdle : s.currPCB ≠ s.idlePCB) {oracle : Oracle} (fresh : oracle.pcb ∉ s.allocated)
    {call : Call} (formed : call.wellFormed = true)
    (done : handleTrapKernel oracle call s = .ok t) : Refines (some call) s t := by
  cases sync : call.isSync with
  | false =>
      exact (processCall_refines placed family user notIdle fresh sync done).refines named
  | true =>
      cases call with
      | reclaim id =>
          obtain ⟨⟨code, u⟩, reclaimed, done⟩ := Outcome.bind_eq_ok.mp done
          cases done
          exact kernelReclaim_refines placed named user reclaimed
      | lockInit =>
          obtain ⟨⟨code, u⟩, made, done⟩ := Outcome.bind_eq_ok.mp done
          cases done
          exact kernelLockInit_refines placed named user made
      | acquire lockId =>
          obtain ⟨flow, acquired, done⟩ := Outcome.bind_eq_ok.mp done
          cases done
          exact kernelAcquire_refines placed named user notIdle acquired
      | release lockId =>
          obtain ⟨⟨code, u⟩, released, done⟩ := Outcome.bind_eq_ok.mp done
          cases done
          exact kernelReleaseCall_refines placed named user released
      | cvarInit =>
          obtain ⟨⟨code, u⟩, made, done⟩ := Outcome.bind_eq_ok.mp done
          cases done
          exact kernelCvarInit_refines placed named user made
      | cvarSignal cvarId =>
          obtain ⟨⟨code, u⟩, signalled, done⟩ := Outcome.bind_eq_ok.mp done
          cases done
          exact kernelCvarSignal_refines placed named user signalled
      | cvarBroadcast cvarId =>
          obtain ⟨⟨code, u⟩, signalled, done⟩ := Outcome.bind_eq_ok.mp done
          cases done
          exact kernelCvarBroadcast_refines placed named user signalled
      | cvarWait cvarId lockId =>
          obtain ⟨flow, waited, done⟩ := Outcome.bind_eq_ok.mp done
          cases done
          exact kernelCvarWait_refines placed named user notIdle waited
      | pipeInit =>
          obtain ⟨⟨code, u⟩, made, done⟩ := Outcome.bind_eq_ok.mp done
          cases done
          exact kernelPipeInit_refines placed named user made
      | pipeRead pipeId len =>
          obtain ⟨flow, read, done⟩ := Outcome.bind_eq_ok.mp done
          cases done
          exact kernelPipeRead_refines placed named user notIdle read
      | pipeWrite pipeId len bytes =>
          obtain ⟨⟨code, u⟩, written, done⟩ := Outcome.bind_eq_ok.mp done
          cases done
          exact kernelPipeWrite_refines placed named user (by simpa [Call.wellFormed] using formed)
            written
      | _ => cases sync

theorem Input.act_eq_some {i : Input} {call : Call} (act : i.act = some call) :
    ∃ oracle, i = .kernelCall call oracle := by
  cases i with
  | kernelCall inner oracle =>
      cases act
      exact ⟨oracle, rfl⟩
  | _ => cases act

/-- The code behind a program point outside of the sync waits is one step of the processes. -/
theorem processResume_refines {s t : Kernel} (placed : Placed s.toScheduler)
    (family : Family s.crowd) (carries : s.cpu.carriesCall = true)
    (alone : s.cpu.isSyncWait = false) {junk : PCB} (done : resumeKernel junk s = .ok t) :
    RefinesCrowd none s t := by
  unfold resumeKernel at done
  split at done
  · cases done
  · rename_i point
    cases done
    obtain ⟨moved, crowd⟩ := placed.setCpu (k := .user) (by rw [point]; rfl) rfl (fun _ => rfl)
    have quiet : QuietFlow s.toScheduler (.go { s.toScheduler with cpu := .user }) :=
      .suspended moved rfl crowd
    exact .ofQuiet .unknown (by rw [point]; rfl) (fun _ => rfl) quiet
  · rename_i point
    cases done
    obtain ⟨moved, crowd⟩ := placed.setCpu (k := .user) (by rw [point]; rfl) rfl (fun _ => rfl)
    have quiet : QuietFlow s.toScheduler (.go { s.toScheduler with cpu := .user }) :=
      .suspended moved rfl crowd
    exact .ofQuiet .unknown (by rw [point]; rfl) (fun _ => rfl) quiet
  · rename_i status point
    obtain ⟨u, exited, done⟩ := Outcome.bind_eq_ok.mp done
    cases done
    obtain ⟨result, step⟩ := kernelExit_refines placed family point exited
    exact ⟨result, rfl, step, fun user => by rw [point] at user; cases user⟩
  · rename_i clockTicks point
    cases done
    exact .ofQuiet (.delay clockTicks) (by rw [point]; rfl) (fun _ => rfl)
      (.same placed (by rw [point]; rfl) successCode)
  · rename_i parentPCB childPCB point
    cases done
    obtain ⟨result, crowd⟩ := sysReturn_refines placed .fork
      (kernelForkReturn parentPCB childPCB s.toScheduler) (by rw [point]; rfl)
    refine ⟨result, rfl, ?_, fun user => by rw [point] at user; cases user⟩
    change s.crowd.Step s.currPCB s.currPCB (s.toScheduler.sysReturn .fork _).crowd
    rw [crowd]
    exact .forkReturn (s.pos_curr.trans point)
  · rename_i statusPtr point
    cases collected : kernelWaitCollect s.toScheduler with
    | mk code u =>
        rw [collected] at done
        cases done
        obtain ⟨result, step⟩ := kernelWaitCollect_refines placed (.inr point)
          (fun user => by rw [point] at user; cases user) collected
        exact ⟨result, rfl, step, fun user => by rw [point] at user; cases user⟩
  · rename_i point
    rw [point] at alone
    cases alone
  · rename_i point
    rw [point] at alone
    cases alone
  · rename_i point
    rw [point] at alone
    cases alone
  · rename_i tty call r0Buf point
    cases done
    have terminal : call.isTerminal = true := by rwa [point] at carries
    exact .ofQuiet _ (by rw [point]; exact terminal) (Call.isTerminal_isQuiet terminal)
      (ttyWriteLoop_refines placed (by rw [point]; rfl) (placed.not_idle (by rw [point]; rfl))
        terminal r0Buf)
  · rename_i tty call r0Buf sent point
    cases done
    have terminal : call.isTerminal = true := by rwa [point] at carries
    exact .ofQuiet _ (by rw [point]; exact terminal) (Call.isTerminal_isQuiet terminal)
      (transmitLoop_refines placed (.inr ⟨_, _, _, point⟩)
        (placed.not_idle (by rw [point]; rfl)) terminal r0Buf sent)
  · rename_i tty call len point
    obtain ⟨flow, read, done⟩ := Outcome.bind_eq_ok.mp done
    cases done
    have terminal : call.isTerminal = true := by rwa [point] at carries
    exact .ofQuietKernel (by rw [point]; exact terminal) (Call.isTerminal_isQuiet terminal)
      (readBufferLoop_refines placed (by rw [point]; rfl)
        (placed.not_idle (by rw [point]; rfl)) terminal read)

/-- The kernel code behind a saved program point is one step of the abstract kernel. -/
theorem resumeKernel_refines {s t : Kernel} (placed : Placed s.toScheduler)
    (named : Named s.toSyncObjects) (family : Family s.crowd)
    (carries : s.cpu.carriesCall = true) {junk : PCB} (done : resumeKernel junk s = .ok t) :
    Refines none s t := by
  cases waits : s.cpu.isSyncWait with
  | false => exact (processResume_refines placed family carries waits done).refines named
  | true =>
      unfold resumeKernel at done
      cases point : s.cpu with
      | acquire lockp call =>
          rw [point] at done
          obtain ⟨flow, acquired, done⟩ := Outcome.bind_eq_ok.mp done
          cases done
          exact acquireLoop_refines placed named (by rw [point]; rfl)
            (placed.not_idle (by rw [point]; rfl)) (.again (s.pos_curr.trans point)) acquired
      | cvarWoken cvarId lockId =>
          rw [point] at done
          obtain ⟨flow, acquired, done⟩ := Outcome.bind_eq_ok.mp done
          cases done
          exact cvarWoken_refines placed named point acquired
      | pipeRead pipep pipeId len =>
          rw [point] at done
          obtain ⟨flow, read, done⟩ := Outcome.bind_eq_ok.mp done
          cases done
          exact (pipeReadLoop_reads placed named point read).refines
      | _ =>
          rw [point] at waits
          cases waits

/-- Each interrupt is one step of the processes. -/
theorem interrupt_refines {s t : Kernel} (placed : Placed s.toScheduler) {i : Input}
    (interrupt : i.isInterrupt = true) (ready : enabled s i = true)
    (done : handle s i = .ok t) : RefinesCrowd i.act s t := by
  cases i with
  | clock =>
      obtain ⟨u, ticked, done⟩ := Outcome.bind_eq_ok.mp done
      cases done
      have user : s.cpu = .user := isUser_iff.mp ready
      obtain ⟨result, crowd⟩ := handleTrapClock_refines placed user ticked
      exact .ofMove user result crowd
  | illegal =>
      simp only [enabled, Bool.and_eq_true, decide_eq_true_eq, isUser_iff] at ready
      cases done
      exact .ofQuiet (.exit errorCode) (by rw [ready.1]; rfl) (fun _ => rfl)
        (setExit_refines placed ready.1 ready.2 errorCode)
  | math =>
      simp only [enabled, Bool.and_eq_true, decide_eq_true_eq, isUser_iff] at ready
      cases done
      exact .ofQuiet (.exit errorCode) (by rw [ready.1]; rfl) (fun _ => rfl)
        (setExit_refines placed ready.1 ready.2 errorCode)
  | memory addr =>
      simp only [enabled, Bool.and_eq_true, decide_eq_true_eq, isUser_iff] at ready
      obtain ⟨u, handled, done⟩ := Outcome.bind_eq_ok.mp done
      cases done
      rcases handleTrapMemory_refines placed ready.1.1 ready.1.2 handled with same | quiet
      · exact .ofMove ready.1.1 (placed.sameProcesses same) (.inl same.crowd)
      · exact .ofQuiet .unknown (by rw [ready.1.1]; rfl) (fun _ => rfl) quiet
  | ttyReceive tty line =>
      simp only [enabled, Bool.and_eq_true, decide_eq_true_eq, isUser_iff] at ready
      obtain ⟨steady, same⟩ := writeBuffer_refines placed done
      exact ⟨steady.placed, same, crowdStep_ofMove ready.1 (.inl steady.crowd), fun _ _ =>
        congrArg Crowd.blocked steady.crowd⟩
  | ttyTransmit tty =>
      simp only [enabled, Bool.and_eq_true, isUser_iff] at ready
      obtain ⟨u, handled, done⟩ := Outcome.bind_eq_ok.mp done
      cases done
      obtain ⟨result, crowd⟩ := handleTtyTransmit_refines placed ready.1 ready.2 handled
      exact .ofMove ready.1 result (.inr crowd)
  | disk => cases done
  | kernelCall call oracle => cases interrupt
  | resume junk => cases interrupt

/-- Each step outside of the sync calls is one step of the processes. -/
theorem handle_refinesCrowd {s t : Kernel} (placed : Placed s.toScheduler)
    (family : Family s.crowd) (carries : s.cpu.carriesCall = true) {i : Input}
    (ready : enabled s i = true) (alone : ∀ call, i.act = some call → call.isSync = false)
    (point : s.cpu.isSyncWait = false) (done : handle s i = .ok t) : RefinesCrowd i.act s t := by
  cases i with
  | kernelCall call oracle =>
      simp only [enabled, Bool.and_eq_true, decide_eq_true_eq, isUser_iff] at ready
      obtain ⟨⟨⟨user, notIdle⟩, fresh⟩, _⟩ := ready
      exact processCall_refines placed family user notIdle fresh (alone call rfl) done
  | resume junk => exact processResume_refines placed family carries point done
  | _ => exact interrupt_refines placed rfl ready done

/-- Every answer to an enabled input is one step of the abstract kernel. -/
theorem handle_refines {s t : Kernel} (placed : Placed s.toScheduler)
    (named : Named s.toSyncObjects) (family : Family s.crowd)
    (carries : s.cpu.carriesCall = true) {i : Input} (ready : enabled s i = true)
    (done : handle s i = .ok t) : Refines i.act s t := by
  cases i with
  | kernelCall call oracle =>
      simp only [enabled, Bool.and_eq_true, decide_eq_true_eq, isUser_iff] at ready
      obtain ⟨⟨⟨user, notIdle⟩, fresh⟩, formed⟩ := ready
      exact handleTrapKernel_refines placed named family user notIdle fresh formed done
  | resume junk => exact resumeKernel_refines placed named family carries done
  | _ => exact (interrupt_refines placed rfl ready done).refines named

end

end Yallnix

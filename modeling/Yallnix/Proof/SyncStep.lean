import Yallnix.Proof.Reachability

namespace Yallnix

section
variable [Hardware]

/-- A step of a sync call writes these events. -/
def Event.isSync : Event → Bool
  | .returned _ call _ => call.isSync
  | .released .. | .created .. | .unblocked .. | .pipeRead .. | .pipeWritten .. => true
  | _ => false

/-- A sync call begins, waits and ends at these program points. -/
def Pos.isSync : Pos → Bool
  | .user | .acquire .. | .cvarWoken .. | .pipeRead .. => true
  | _ => false

/-- A step of a sync call keeps the families and stays at its program points. -/
structure Crowd.SyncStep (p : Addr) (c d : Crowd) : Prop extends Crowd.Keeps p c d where
  before : (c.proc p).pos.isSync = true
  after : (d.proc p).pos.isSync = true
  events : Crowd.Writes (fun event => event.isSync = true) c d

namespace View

variable {p next : Addr} {act : Option Call} {v w : View}

theorem syncs_wake {cause : Cause} {pid : Int} (woken : v.Wake cause pid w) :
    Crowd.Writes (fun event => event.isSync = true) v.toCrowd w.toCrowd := by
  cases woken with
  | mk woken => exact .wake woken fun _ => rfl

theorem syncs_wakesHead {pipep : ObjPtr} {waitingQ : Queue Addr}
    (wakes : v.WakesHead pipep waitingQ w) :
    Crowd.Writes (fun event => event.isSync = true) v.toCrowd w.toCrowd := by
  cases wakes with
  | empty => exact .same rfl
  | head woken => exact syncs_wake woken

theorem syncs_releases {l : ObjPtr} (releases : v.Releases p l w) :
    Crowd.Writes (fun event => event.isSync = true) v.toCrowd w.toCrowd := by
  have freed (u : View) (log : u.log = .released (v.proc p).pid l :: v.log) :
      Crowd.Writes (fun event => event.isSync = true) v.toCrowd u.toCrowd := .record rfl log
  cases releases with
  | alone _ _ _ _ => exact freed _ rfl
  | @waiter _ _ rest _ _ _ _ _ woken =>
      exact (freed ((v.setLock l (some ⟨none, rest⟩)).record _) rfl).trans (syncs_wake woken)

theorem syncs_dequeuesAll {cause : Cause} {c : ObjPtr}
    (dequeues : Relation.ReflTransGen (Dequeues cause c) v w) :
    Crowd.Writes (fun event => event.isSync = true) v.toCrowd w.toCrowd := by
  induction dequeues with
  | refl => exact .same rfl
  | tail _ last ih =>
      cases last with
      | @mk first rest _ _ woken =>
          exact ih.trans (syncs_wake (v := View.setCvar _ c (some rest)) woken)

/-- The call of the loop of `KernelAcquire` is a sync call. -/
theorem Acquires.isSync {l : ObjPtr} {call : Call} (acquires : v.Acquires p l call)
    (carries : (v.proc p).pos.carriesCall = true) :
    (v.proc p).pos.isSync = true ∧ call.isSync = true := by
  cases acquires with
  | call user _ => exact ⟨by rw [user]; rfl, rfl⟩
  | again point =>
      rw [point] at carries ⊢
      refine ⟨rfl, ?_⟩
      cases call <;> first | rfl | cases carries
  | woken point _ => exact ⟨by rw [point]; rfl, rfl⟩

theorem Reads.isSync {pipep : ObjPtr} {pipeId len : Int} {pipe : Pipe}
    (reads : v.Reads p act pipep len pipeId pipe w) :
    (v.proc p).pos.isSync = true ∧ w.toCrowd = v.toCrowd := by
  cases reads with
  | call _ user _ _ _ => exact ⟨by rw [user]; rfl, rfl⟩
  | again point _ => exact ⟨by rw [point]; rfl, rfl⟩

/-- Every step is a step of a process call or of a sync call. -/
theorem Step.sync_or_crowd (step : v.Step p next act w)
    (carries : (v.proc p).pos.carriesCall = true) :
    v.toCrowd.SyncStep p w.toCrowd ∨ v.toCrowd.Step p next w.toCrowd := by
  rcases step.keeps_or_crowd with keeps | ⟨c, inner, rfl⟩
  · have ends {u : View} {call : Call} (code : Int) (isSync : call.isSync = true)
        (writes : Crowd.Writes (fun event => event.isSync = true) v.toCrowd u.toCrowd) :
        Crowd.Writes (fun event => event.isSync = true) v.toCrowd (u.finish p call code).toCrowd :=
      writes.trans ⟨[.returned _ call code], rfl, fun event member => by
        rw [List.mem_singleton.mp member]
        exact isSync⟩
    have user {u : View} {call : Call} {code : Int} :
        ((u.finish p call code).proc p).pos.isSync = true := by
      rw [View.finish, onCrowd_toCrowd, Crowd.finish_pos, if_pos rfl]
      rfl
    have waits {u : View} {k : Pos} (isSync : k.isSync = true) :
        ((u.suspend p k).proc p).pos.isSync = true := by
      rw [View.suspend, onCrowd_toCrowd, Crowd.block_proc, Crowd.move_pos, if_pos rfl]
      exact isSync
    have starts (at_user : (v.proc p).pos = .user) : (v.proc p).pos.isSync = true := by
      rw [at_user]
      rfl
    cases step with
    | crowd step => exact .inr step
    | lockInit at_user => exact .inl ⟨keeps, starts at_user, user, ends _ rfl (.record rfl rfl)⟩
    | cvarInit at_user => exact .inl ⟨keeps, starts at_user, user, ends _ rfl (.record rfl rfl)⟩
    | pipeInit at_user _ => exact .inl ⟨keeps, starts at_user, user, ends _ rfl (.record rfl rfl)⟩
    | acquireTake acquires _ _ =>
        obtain ⟨before, isSync⟩ := acquires.isSync carries
        exact .inl ⟨keeps, before, user, ends _ isSync (.same rfl)⟩
    | acquireBlock acquires _ _ =>
        exact .inl ⟨keeps, (acquires.isSync carries).1, waits rfl, .same rfl⟩
    | acquireFailed point _ =>
        exact .inl ⟨keeps, by rw [point]; rfl, user, ends _ rfl (.same rfl)⟩
    | release _ at_user releases =>
        exact .inl ⟨keeps, starts at_user, user, ends _ rfl (syncs_releases releases)⟩
    | @cvarWait c l cvarQ w _ at_user _ _ releases =>
        refine .inl ⟨keeps, starts at_user, waits rfl, ?_⟩
        rcases releases with rfl | releases
        · exact .same rfl
        · exact @syncs_releases _ p (v.setCvar c (some (enqQ cvarQ p))) w l releases
    | signal _ at_user _ dequeues =>
        refine .inl ⟨keeps, starts at_user, user, ends _ rfl ?_⟩
        rcases dequeues with ⟨_, rfl⟩ | dequeues
        · exact .same rfl
        · exact syncs_dequeuesAll (.single dequeues)
    | broadcast _ at_user _ dequeues _ =>
        exact .inl ⟨keeps, starts at_user, user, ends _ rfl (syncs_dequeuesAll dequeues)⟩
    | pipeBlock reads _ =>
        obtain ⟨before, same⟩ := reads.isSync
        have log := congrArg Crowd.log same
        exact .inl ⟨keeps, before, waits rfl, .same log⟩
    | @pipeTake pipep _ len pipe _ rest u x reads _ _ _ wakes =>
        obtain ⟨before, same⟩ := reads.isSync
        refine .inl ⟨keeps, before, user, ends _ rfl ?_⟩
        have written : Crowd.Writes (fun event => event.isSync = true) v.toCrowd
            ((u.setPipe pipep (some (pipe.consumed len rest))).record
              (.pipeRead pipep len (pipe.buffer.take len.toNat))).toCrowd :=
          same ▸ .record rfl rfl
        split at wakes
        · exact written.trans (syncs_wakesHead wakes)
        · rw [wakes]
          exact written
    | pipeDry reads _ _ =>
        obtain ⟨before, same⟩ := reads.isSync
        exact .inl ⟨keeps, before, user, ends _ rfl (.same (congrArg Crowd.log same))⟩
    | @pipeWrite pipep _ bytes _ _ _ _ at_user _ _ _ _ _ _ wakes =>
        refine .inl ⟨keeps, starts at_user, user, ends _ rfl ?_⟩
        have written : Crowd.Writes (fun event => event.isSync = true) v.toCrowd
            (v.toCrowd.record (.pipeWritten pipep bytes)) := .record rfl rfl
        exact written.trans (syncs_wakesHead wakes)
    | reclaimLock _ at_user _ _ _ =>
        exact .inl ⟨keeps, starts at_user, user, ends _ rfl (.same rfl)⟩
    | reclaimOwned _ at_user _ _ _ =>
        exact .inl ⟨keeps, starts at_user, user, ends _ rfl (.same rfl)⟩
    | reclaimCvar _ at_user _ _ =>
        exact .inl ⟨keeps, starts at_user, user, ends _ rfl (.same rfl)⟩
    | reclaimWaited _ at_user _ _ _ =>
        exact .inl ⟨keeps, starts at_user, user, ends _ rfl (.same rfl)⟩
    | reclaimPipe _ at_user _ _ _ =>
        exact .inl ⟨keeps, starts at_user, user, ends _ rfl (.same rfl)⟩
    | reclaimRead _ at_user _ _ _ =>
        exact .inl ⟨keeps, starts at_user, user, ends _ rfl (.same rfl)⟩
  · exact .inr inner

end View

end

end Yallnix

import Yallnix.Construction.SmallMachine
import Yallnix.Proof.ObjectInvariant

namespace Yallnix

section
variable [Hardware]

/-- An id names an object of one of these kinds. -/
inductive SyncKind where
  | lock
  | cvar
  | pipe

def Objects.ids (o : Objects) : SyncKind → Set Int
  | .lock => o.lockIds
  | .cvar => o.cvarIds
  | .pipe => o.pipeIds

/-- The id of an object is in the map of its kind. -/
def Kernel.ids (s : Kernel) : SyncKind → List Int
  | .lock => s.lockMap.keys
  | .cvar => s.cvarMap.keys
  | .pipe => s.pipeMap.keys

theorem Kernel.mem_ids {s : Kernel} {kind : SyncKind} {id : Int} :
    id ∈ s.view.toObjects.ids kind ↔ id ∈ s.ids kind := by
  cases kind <;> exact Iff.rfl

/-- Old ids join no map, and an id leaves its map at a reclaim only. -/
structure Objects.Ages (reclaims : Int → Prop) (o p : Objects) : Prop where
  later : o.nextSyncId ≤ p.nextSyncId
  old : ∀ kind id, id < o.nextSyncId → id ∈ p.ids kind → id ∈ o.ids kind
  kept : ∀ kind id, id ∈ o.ids kind → ¬reclaims id → id ∈ p.ids kind

namespace Objects.Ages

variable {o p q : Objects} {reclaims : Int → Prop}

omit [Hardware] in
theorem refl (reclaims : Int → Prop) (o : Objects) : o.Ages reclaims o :=
  ⟨le_rfl, fun _ _ _ => id, fun _ _ known _ => known⟩

omit [Hardware] in
theorem trans {first second : Int → Prop} (one : o.Ages first p) (two : p.Ages second q) :
    o.Ages (fun id => first id ∨ second id) q where
  later := one.later.trans two.later
  old kind id issued known :=
    one.old kind id issued (two.old kind id (issued.trans_le one.later) known)
  kept kind id known spared :=
    two.kept kind id (one.kept kind id known fun taken => spared (Or.inl taken))
      fun taken => spared (Or.inr taken)

omit [Hardware] in
/-- The objects themselves do not matter. -/
theorem of_ids (next : p.nextSyncId = o.nextSyncId) (locks : p.lockIds = o.lockIds)
    (cvars : p.cvarIds = o.cvarIds) (pipes : p.pipeIds = o.pipeIds) : o.Ages reclaims p := by
  have same : ∀ kind, p.ids kind = o.ids kind := by
    rintro (_ | _ | _)
    · exact locks
    · exact cvars
    · exact pipes
  exact ⟨next.ge, fun kind _ _ known => same kind ▸ known, fun kind _ known _ => same kind ▸ known⟩

omit [Hardware] in
/-- One map gets the next id. -/
theorem create (kind : SyncKind) (next : p.nextSyncId = o.nextSyncId + 1)
    (here : p.ids kind = insert o.nextSyncId (o.ids kind))
    (others : ∀ other, other ≠ kind → p.ids other = o.ids other) : o.Ages reclaims p := by
  refine ⟨by omega, fun other id issued known => ?_, fun other id known _ => ?_⟩
  · by_cases same : other = kind
    · subst same
      rw [here] at known
      exact known.resolve_left issued.ne
    · rwa [← others other same]
  · by_cases same : other = kind
    · subst same
      rw [here]
      exact Or.inr known
    · rwa [others other same]

omit [Hardware] in
/-- One map loses a reclaimed id. -/
theorem remove {gone : Int} (kind : SyncKind) (reclaimed : reclaims gone)
    (next : p.nextSyncId = o.nextSyncId) (here : p.ids kind = o.ids kind \ {gone})
    (others : ∀ other, other ≠ kind → p.ids other = o.ids other) : o.Ages reclaims p := by
  refine ⟨next.ge, fun other id _ known => ?_, fun other id known spared => ?_⟩
  · by_cases same : other = kind
    · subst same
      rw [here] at known
      exact known.1
    · rwa [← others other same]
  · by_cases same : other = kind
    · subst same
      rw [here]
      refine ⟨known, fun equal => spared ?_⟩
      cases equal
      exact reclaimed
    · rwa [others other same]

omit [Hardware] in
theorem ids_butLock (cvars : p.cvarIds = o.cvarIds) (pipes : p.pipeIds = o.pipeIds) :
    ∀ kind, kind ≠ .lock → p.ids kind = o.ids kind
  | .lock, other => absurd rfl other
  | .cvar, _ => cvars
  | .pipe, _ => pipes

omit [Hardware] in
theorem ids_butCvar (locks : p.lockIds = o.lockIds) (pipes : p.pipeIds = o.pipeIds) :
    ∀ kind, kind ≠ .cvar → p.ids kind = o.ids kind
  | .lock, _ => locks
  | .cvar, other => absurd rfl other
  | .pipe, _ => pipes

omit [Hardware] in
theorem ids_butPipe (locks : p.lockIds = o.lockIds) (cvars : p.cvarIds = o.cvarIds) :
    ∀ kind, kind ≠ .pipe → p.ids kind = o.ids kind
  | .lock, _ => locks
  | .cvar, _ => cvars
  | .pipe, other => absurd rfl other

/-- One step of the abstract kernel ages the ids. -/
theorem step {v w : View} {p next : Addr} {act : Option Call} (bounded : v.toObjects.Bounded)
    (step : v.Step p next act w) :
    v.toObjects.Ages (fun id => act = some (.reclaim id)) w.toObjects := by
  have same {u : View} {objects : Objects} (after : u.toObjects = objects)
      (ages : v.toObjects.Ages (fun id => act = some (.reclaim id)) objects) :
      v.toObjects.Ages (fun id => act = some (.reclaim id)) u.toObjects := after ▸ ages
  cases step with
  | lockInit _ => exact create .lock rfl rfl (ids_butLock rfl rfl)
  | cvarInit _ => exact create .cvar rfl rfl (ids_butCvar rfl rfl)
  | pipeInit _ _ => exact create .pipe rfl rfl (ids_butPipe rfl rfl)
  | @release _ w _ _ releases =>
      obtain ⟨_, _, _, _, after⟩ := releases.objects
      exact same (u := w) after (of_ids rfl rfl rfl rfl)
  | @cvarWait _ _ _ w _ _ _ _ releases =>
      rcases releases with rfl | releases
      · exact of_ids rfl rfl rfl rfl
      · obtain ⟨_, _, _, _, after⟩ := releases.objects
        exact same (u := w) after (of_ids rfl rfl rfl rfl)
  | @signal _ w _ _ _ dequeues =>
      rcases dequeues with ⟨_, rfl⟩ | dequeues
      · exact of_ids rfl rfl rfl rfl
      · obtain ⟨_, _, _, after⟩ := dequeues.objects
        exact same (u := w) after (of_ids rfl rfl rfl rfl)
  | @broadcast c w _ _ known dequeues _ =>
      exact same (u := w) (View.dequeuesAll_objects (bounded.cvar.present c known) dequeues).2
        (of_ids rfl rfl rfl rfl)
  | pipeBlock reads _ => cases reads <;> exact of_ids rfl rfl rfl rfl
  | @pipeTake _ _ _ _ _ _ _ x reads _ _ _ wakes =>
      refine same (u := x) (View.objects_of_wakes wakes) ?_
      cases reads <;> exact of_ids rfl rfl rfl rfl
  | pipeDry reads _ _ => cases reads <;> exact of_ids rfl rfl rfl rfl
  | @pipeWrite _ _ _ _ _ w _ _ _ _ _ _ _ _ wakes =>
      exact same (u := w) wakes.objects (of_ids rfl rfl rfl rfl)
  | reclaimLock called _ _ _ _ =>
      exact remove .lock called rfl rfl (ids_butLock rfl rfl)
  | reclaimOwned called _ _ _ _ =>
      exact remove .lock called rfl rfl (ids_butLock rfl rfl)
  | reclaimCvar called _ _ _ =>
      exact remove .cvar called rfl rfl (ids_butCvar rfl rfl)
  | reclaimWaited called _ _ _ _ =>
      exact remove .cvar called rfl rfl (ids_butCvar rfl rfl)
  | reclaimPipe called _ _ _ _ =>
      exact remove .pipe called rfl rfl (ids_butPipe rfl rfl)
  | reclaimRead called _ _ _ _ =>
      exact remove .pipe called rfl rfl (ids_butPipe rfl rfl)
  | _ => exact of_ids rfl rfl rfl rfl

end Objects.Ages

omit [Hardware] in
/-- An id names an object of one kind. -/
theorem Objects.Apart.ids {o : Objects} (apart : o.Apart) {one two : SyncKind} {id : Int}
    (first : id ∈ o.ids one) (second : id ∈ o.ids two) : one = two := by
  cases one <;> cases two
  any_goals rfl
  · exact absurd second (Set.disjoint_left.mp apart.lockCvar first)
  · exact absurd second (Set.disjoint_left.mp apart.lockPipe first)
  · exact absurd first (Set.disjoint_left.mp apart.lockCvar second)
  · exact absurd second (Set.disjoint_left.mp apart.cvarPipe first)
  · exact absurd first (Set.disjoint_left.mp apart.lockPipe second)
  · exact absurd first (Set.disjoint_left.mp apart.cvarPipe second)

/-- An input of the list asks for the reclaim of an id. -/
def reclaimsIn (inputs : List Input) (id : Int) : Prop :=
  ∃ i ∈ inputs, i.act = some (.reclaim id)

/-- A trace ages the ids. -/
theorem trace_ages {s t : Kernel} {inputs : List Input} (reachable : yallnix.Reachable s)
    (trace : yallnix.Trace s inputs t) :
    s.view.toObjects.Ages (reclaimsIn inputs) t.view.toObjects := by
  induction trace with
  | nil => exact .refl _ _
  | @snoc inputs i t u earlier next ih =>
      have later := earlier.reachable reachable
      have step := ((reachable_sound later).step next).2
      have one := ih.trans (Objects.Ages.step (reachable_objects later).1 step)
      refine ⟨one.later, one.old, fun kind id known spared => one.kept kind id known ?_⟩
      rintro (⟨input, listed, asks⟩ | asks)
      · exact spared ⟨input, List.mem_append_left _ listed, asks⟩
      · exact spared ⟨i, List.mem_append_right _ (List.mem_singleton_self i), asks⟩

/-- An id that names an object names it until a reclaim of this id. -/
theorem yallnix_keepsIds {s t : Kernel} {inputs : List Input} {kind : SyncKind} {id : Int}
    (reachable : yallnix.Reachable s) (known : id ∈ s.ids kind) (trace : yallnix.Trace s inputs t)
    (spared : ¬reclaimsIn inputs id) (other : SyncKind) : id ∈ t.ids other ↔ other = kind := by
  have kept := (trace_ages reachable trace).kept kind id (Kernel.mem_ids.mpr known) spared
  have apart := (reachable_objects (trace.reachable reachable)).2
  constructor
  · intro also
    exact apart.ids (Kernel.mem_ids.mpr also) kept
  · rintro rfl
    exact Kernel.mem_ids.mp kept

/-- The call uses the object that the id names. -/
def Call.names (id : Int) : Call → Prop
  | .acquire lockId | .release lockId => lockId = id
  | .cvarSignal cvarId | .cvarBroadcast cvarId | .cvarWait cvarId _ => cvarId = id
  | .pipeRead pipeId len | .pipeWrite pipeId len _ => pipeId = id ∧ len ≠ 0
  | .reclaim other => other = id
  | _ => False

/-- A call that names no object fails and changes nothing. -/
theorem handle_unnamed {s : Kernel} {id : Int} {call : Call} {oracle : Oracle} (fits : 0 ≤ id)
    (unknown : ∀ kind, id ∉ s.ids kind) (names : call.names id) :
    handle s (.kernelCall call oracle) = .ok (s.sysReturn call errorCode) := by
  have lock := HashMap.find_of_not_mem (s.lockMap.fits_of_nonneg fits) (unknown .lock)
  have cvar := HashMap.find_of_not_mem (s.cvarMap.fits_of_nonneg fits) (unknown .cvar)
  have pipe := HashMap.find_of_not_mem (s.pipeMap.fits_of_nonneg fits) (unknown .pipe)
  cases call with
  | acquire lockId =>
      cases names
      simp only [handle, handleTrapKernel, kernelAcquire, lock, Outcome.ok_bind]
      rfl
  | release lockId =>
      cases names
      simp only [handle, handleTrapKernel, kernelRelease, lock, Outcome.ok_bind]
      rfl
  | cvarSignal cvarId =>
      cases names
      simp only [handle, handleTrapKernel, kernelCvarSignal, cvar, Outcome.ok_bind]
      rfl
  | cvarBroadcast cvarId =>
      cases names
      simp only [handle, handleTrapKernel, kernelCvarBroadcast, cvar, Outcome.ok_bind]
      rfl
  | cvarWait cvarId lockId =>
      cases names
      simp only [handle, handleTrapKernel, kernelCvarWait, cvar, Outcome.ok_bind]
      rfl
  | pipeRead pipeId len =>
      obtain ⟨rfl, positive⟩ := names
      simp only [handle, handleTrapKernel, kernelPipeRead, pipe, Outcome.ok_bind, if_neg positive]
      split <;> rfl
  | pipeWrite pipeId len bytes =>
      obtain ⟨rfl, positive⟩ := names
      simp only [handle, handleTrapKernel, kernelPipeWrite, pipe, Outcome.ok_bind, if_neg positive]
      split <;> rfl
  | reclaim other =>
      cases names
      simp only [handle, handleTrapKernel, kernelReclaim, lock, cvar, pipe, Outcome.ok_bind]
      rfl
  | _ => exact names.elim

/-- An id that was used once and names no object is dead: every later call with it fails. -/
theorem yallnix_deadIds {s t : Kernel} {inputs : List Input} {id : Int} {call : Call}
    {oracle : Oracle} (reachable : yallnix.Reachable s) (issued : 0 ≤ id ∧ id < s.nextSyncId)
    (dead : ∀ kind, id ∉ s.ids kind) (trace : yallnix.Trace s inputs t) (names : call.names id) :
    handle t (.kernelCall call oracle) = .ok (t.sysReturn call errorCode) := by
  have ages := trace_ages reachable trace
  refine handle_unnamed issued.1 (fun kind known => dead kind ?_) names
  exact Kernel.mem_ids.mp (ages.old kind id issued.2 (Kernel.mem_ids.mpr known))

end

section
attribute [local instance] smallHardware

/-- The second lock outlives the reclaim of the first one. -/
theorem yallnix_keepsIds_small : ∃ s t : Kernel, yallnix.Reachable s ∧ 1 ∈ s.ids .lock ∧
    yallnix.Trace s [asks (.reclaim 0), asks .cvarInit] t ∧ t.lockMap.keys = [1] ∧
      ∀ other, 1 ∈ t.ids other ↔ other = .lock := by
  obtain ⟨s, t, reachable, trace, tested⟩ := exists_trace
    (fun s t => decide (1 ∈ s.lockMap.keys ∧ t.lockMap.keys = [1]))
    [asks .lockInit, asks .lockInit] [asks (.reclaim 0), asks .cvarInit] (by decide +kernel)
  obtain ⟨known, left⟩ := of_decide_eq_true tested
  have spared : ¬reclaimsIn [asks (.reclaim 0), asks .cvarInit] 1 := by
    rintro ⟨i, listed, same⟩
    simp only [List.mem_cons, List.not_mem_nil, or_false] at listed
    rcases listed with rfl | rfl <;> simp [asks, Input.act] at same
  exact ⟨s, t, reachable, known, trace, left, yallnix_keepsIds reachable known trace spared⟩

/-- The first lock is reclaimed, and its id stays dead when another lock is made. -/
theorem yallnix_deadIds_small : ∃ s t : Kernel, yallnix.Reachable s ∧ 0 < s.nextSyncId ∧
    yallnix.Trace s [asks .lockInit, .clock, goesOn] t ∧
      handle t (asks (.acquire 0)) = .ok (t.sysReturn (.acquire 0) errorCode) := by
  obtain ⟨s, t, reachable, trace, tested⟩ := exists_trace
    (fun s _ => decide (0 < s.nextSyncId ∧ 0 ∉ s.lockMap.keys ∧ 0 ∉ s.cvarMap.keys ∧
      0 ∉ s.pipeMap.keys))
    [asks .lockInit, asks (.reclaim 0)] [asks .lockInit, .clock, goesOn] (by decide +kernel)
  obtain ⟨issued, lock, cvar, pipe⟩ := of_decide_eq_true tested
  have dead : ∀ kind, 0 ∉ s.ids kind
    | .lock => lock
    | .cvar => cvar
    | .pipe => pipe
  exact ⟨s, t, reachable, issued, trace,
    yallnix_deadIds reachable ⟨le_rfl, issued⟩ dead trace rfl⟩

end

end Yallnix

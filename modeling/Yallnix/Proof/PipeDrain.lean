import Yallnix.Proof.PipeWork

namespace Yallnix

section
variable [Hardware]

namespace View

variable {p next : Addr} {act : Option Call} {v w x : View} {q : ObjPtr}

/-- A pipe serves the first readers of its queue, and the bytes stay if it serves nobody. -/
structure Drains (q : ObjPtr) (served : Queue Addr) (v w : View) : Prop where
  pipe : ∀ pipe, v.pipes q = some pipe → ∃ later, w.pipes q = some later ∧
    pipe.waitingQ = served ++ later.waitingQ ∧
      (served = [] → pipe.numBytesWritten ≤ later.numBytesWritten)
  live : v.live ⊆ w.live
  pid : ∀ a ∈ v.live, (w.proc a).pid = (v.proc a).pid
  waits : ∀ a, v.ReadsPipe q a → a ∉ served → (w.proc a).pos = (v.proc a).pos
  outside : ∀ a ∈ v.live, (v.proc a).pos.isPipe = false → (w.proc a).pos.isPipe = false
  left : ∀ a ∈ v.live, a ∈ served → (w.proc a).pos.isPipe = false
  answered : ∃ events, w.log = events ++ v.log ∧ ∀ a ∈ v.live, a ∈ served → ∀ pipeId len,
    (v.proc a).pos = .pipeRead q pipeId len →
      len ≤ pipeMaxBytes ∧ .returned (v.proc a).pid (.pipeRead pipeId len) len ∈ events

namespace Drains

variable {served more : Queue Addr}

theorem refl (q : ObjPtr) (v : View) : Drains q [] v v where
  pipe pipe object := ⟨pipe, object, rfl, fun _ => le_refl _⟩
  live := Finset.Subset.refl _
  pid _ _ := rfl
  waits _ _ _ := rfl
  outside _ _ outside := outside
  left _ _ member := by cases member
  answered := ⟨[], rfl, fun _ _ member => by cases member⟩

theorem trans (one : Drains q served v w) (two : Drains q more w x) :
    Drains q (served ++ more) v x where
  pipe pipe object := by
    obtain ⟨middle, present, queue, bytes⟩ := one.pipe pipe object
    obtain ⟨later, after, behind, kept⟩ := two.pipe middle present
    refine ⟨later, after, by rw [queue, behind, List.append_assoc], fun none => ?_⟩
    obtain ⟨first, second⟩ := List.append_eq_nil_iff.mp none
    exact (bytes first).trans (kept second)
  live := one.live.trans two.live
  pid a inside := (two.pid a (one.live inside)).trans (one.pid a inside)
  waits a reads absent := by
    rw [List.mem_append, not_or] at absent
    have pos := one.waits a reads absent.1
    obtain ⟨inside, pipeId, len, point⟩ := reads
    exact (two.waits a ⟨one.live inside, pipeId, len, pos.trans point⟩ absent.2).trans pos
  outside a inside outside := two.outside a (one.live inside) (one.outside a inside outside)
  left a inside member := by
    rcases List.mem_append.mp member with member | member
    · exact two.outside a (one.live inside) (one.left a inside member)
    · exact two.left a (one.live inside) member
  answered := by
    obtain ⟨events, log, answers⟩ := one.answered
    obtain ⟨others, later, answersLater⟩ := two.answered
    refine ⟨others ++ events, by rw [later, log, List.append_assoc], ?_⟩
    intro a inside member pipeId len point
    by_cases early : a ∈ served
    · obtain ⟨fits, answer⟩ := answers a inside early pipeId len point
      exact ⟨fits, List.mem_append_right _ answer⟩
    · have late := (List.mem_append.mp member).resolve_left early
      have pos := one.waits a ⟨inside, pipeId, len, point⟩ early
      obtain ⟨fits, answer⟩ :=
        answersLater a (one.live inside) late pipeId len (pos.trans point)
      rw [one.pid a inside] at answer
      exact ⟨fits, List.mem_append_left _ answer⟩

end Drains

/-- A step that is no call for bytes and no exit keeps the readers of a pipe but the served ones. -/
theorem Drains.of_step (runner : p ∈ v.live) (family : v.toCrowd.FamilyStep p next w.toCrowd)
    (stays : ∀ status, (v.proc p).pos ≠ .exit status) (step : v.PipeStep p next act w)
    (uncalled : ∀ pipep len, act ≠ some (.pipeRead pipep len)) {served : Queue Addr}
    (pipe : ∀ pipe, v.pipes q = some pipe → ∃ later, w.pipes q = some later ∧
      pipe.waitingQ = served ++ later.waitingQ ∧
        (served = [] → pipe.numBytesWritten ≤ later.numBytesWritten))
    (own : v.ReadsPipe q p → p ∉ served → (w.proc p).pos = (v.proc p).pos)
    (left : ∀ a ∈ served, a = p ∧ (w.proc p).pos.isPipe = false)
    (answered : ∃ events, w.log = events ++ v.log ∧ ∀ a ∈ served, ∀ pipeId len,
      (v.proc a).pos = .pipeRead q pipeId len → len ≤ pipeMaxBytes ∧
        .returned (v.proc a).pid (.pipeRead pipeId len) len ∈ events) :
    Drains q served v w where
  pipe := pipe
  live a inside := by
    by_cases same : a = p
    · subst same
      rcases family.self inside with ⟨live, _⟩ | ⟨_, status, exits⟩
      · exact live
      · exact absurd exits (stays status)
    · exact (family.other inside same).1
  pid a inside := by
    by_cases same : a = p
    · subst same
      rcases family.self inside with ⟨_, pid⟩ | ⟨_, status, exits⟩
      · exact pid
      · exact absurd exits (stays status)
    · exact (family.other inside same).2.2
  waits a reads absent := by
    by_cases same : a = p
    · subst same
      exact own reads absent
    · exact (family.other reads.1 same).2.1
  outside a inside outside := by
    by_cases same : a = p
    · subst same
      cases point : (w.proc a).pos with
      | pipeRead pipep pipeId len =>
          have live : a ∈ w.live := by
            rcases family.self inside with ⟨live, _⟩ | ⟨_, status, exits⟩
            · exact live
            · exact absurd exits (stays status)
          obtain ⟨_, _, reads, _, _⟩ := step.blocks live point
          cases reads with
          | call called _ _ _ _ => exact absurd called (uncalled _ _)
          | again before _ =>
              rw [before] at outside
              cases outside
      | _ => rfl
    · rw [(family.other inside same).2.1]
      exact outside
  left a _ member := by
    obtain ⟨rfl, gone⟩ := left a member
    exact gone
  answered := by
    obtain ⟨events, log, answers⟩ := answered
    exact ⟨events, log, fun a _ member => answers a member⟩

/-- A step that is no call for bytes serves at most the head of the queue of a pipe. -/
theorem PipeStep.drains (queues : v.PipeQueues) (resting : v.Resting p)
    (bounded : v.toObjects.Bounded)
    (room : ∀ pipep pipe, v.pipes pipep = some pipe → pipe.numBytesWritten ≤ pipeMaxBytes)
    (family : v.toCrowd.FamilyStep p next w.toCrowd)
    (stays : ∀ status, (v.proc p).pos ≠ .exit status)
    (uncalled : ∀ pipep len, act ≠ some (.pipeRead pipep len))
    (kept : v.pipes q ≠ none → w.pipes q ≠ none) (step : v.PipeStep p next act w) :
    ∃ served, Drains q served v w := by
  have nobody (pipe : ∀ pipe, v.pipes q = some pipe → ∃ later, w.pipes q = some later ∧
        pipe.waitingQ = later.waitingQ ∧ pipe.numBytesWritten ≤ later.numBytesWritten)
      (own : v.ReadsPipe q p → (w.proc p).pos = (v.proc p).pos) :
      ∃ served, Drains q served v w := by
    obtain ⟨events, log, -⟩ := family.written
    refine ⟨[], .of_step resting.runner family stays step uncalled ?_ (fun reads _ => own reads) ?_ ?_⟩
    · intro before object
      obtain ⟨later, after, queue, bytes⟩ := pipe before object
      exact ⟨later, after, queue, fun _ => bytes⟩
    · intro a member
      cases member
    · exact ⟨events, log, fun a member => by cases member⟩
  have notReader (outside : (v.proc p).pos.isPipe = false) (reads : v.ReadsPipe q p) : False := by
    obtain ⟨-, pipeId, len, point⟩ := reads
    rw [point] at outside
    cases outside
  cases step with
  | other _ pipes _ before _ =>
      refine nobody (fun pipe object => ⟨pipe, pipes ▸ object, rfl, le_refl _⟩) fun reads => ?_
      exact (notReader before reads).elim
  | @pipeInit buffer user _ =>
      refine nobody (fun pipe object => ⟨pipe, ?_, rfl, le_refl _⟩) fun reads => ?_
      · change Function.update v.pipes v.nextSyncId (some ⟨buffer, 0, makeQ⟩) q = some pipe
        rw [Function.update_of_ne]
        · exact object
        · rintro rfl
          exact lt_irrefl _ (bounded.pipe.below _ (by rw [object]; exact Option.some_ne_none _))
      · exact (notReader (user_isPipe user) reads).elim
  | @pipeBlock pipep pipeId len _ _ reads _ =>
      cases reads with
      | call called _ _ _ _ => exact absurd called (uncalled _ _)
      | again point _ =>
          refine nobody (fun pipe object => ⟨pipe, object, rfl, le_refl _⟩) fun _ => ?_
          rw [suspend_pos, point]
  | @pipeTake pipep pipeId len pipe first rest u x reads enough queue turn wakes =>
      obtain ⟨rfl, -⟩ := queues.head resting reads queue turn
      cases reads with
      | call called _ _ _ _ => exact absurd called (uncalled _ _)
      | again point object =>
          have pipes : x.pipes = Function.update v.pipes pipep (some (pipe.consumed len rest)) :=
            congrArg Objects.pipes (objects_of_wakes wakes)
          by_cases here : q = pipep
          · subst here
            obtain ⟨⟨events, log, -⟩, proc⟩ := writes_of_wakes wakes
            have outside := finish_isPipe x first (.pipeRead pipeId len) len
            refine ⟨[first], .of_step resting.runner family stays
              (.pipeTake (.again point object) enough queue turn wakes) uncalled ?_ ?_ ?_ ?_⟩
            · intro before present
              cases object.symm.trans present
              refine ⟨pipe.consumed len rest, ?_, queue, fun none => by cases none⟩
              change x.pipes q = _
              rw [pipes, Function.update_self]
            · exact fun _ absent => absurd (List.mem_singleton_self first) absent
            · intro a member
              exact ⟨List.mem_singleton.mp member, outside⟩
            · refine ⟨.returned (v.proc first).pid (.pipeRead pipeId len) len ::
                (events ++ [.pipeRead q len (pipe.buffer.take len.toNat)]), ?_, ?_⟩
              · change (x.toCrowd.finish first (.pipeRead pipeId len) len).log = _
                rw [Crowd.finish_log, log, proc, Crowd.record_log]
                simp
              · intro a member otherId size before
                cases List.mem_singleton.mp member
                cases point.symm.trans before
                exact ⟨enough.trans (room q pipe object), List.mem_cons_self⟩
          · refine nobody (fun before present => ⟨before, ?_, rfl, le_refl _⟩) fun reads => ?_
            · change x.pipes q = _
              rw [pipes, Function.update_of_ne here]
              exact present
            · obtain ⟨-, _, _, other⟩ := reads
              exact absurd (Pos.pipeRead.inj (point.symm.trans other)).1.symm here
  | pipeDry reads _ empty => exact absurd empty (queues.not_dry resting reads)
  | @pipeWrite pipep len bytes buffer pipe x _ user positive _ object _ _ wakes =>
      have pipes : x.pipes = _ := congrArg Objects.pipes wakes.objects
      refine nobody (fun before present => ?_) fun reads =>
        (notReader (user_isPipe user) reads).elim
      change ∃ later, x.pipes q = _ ∧ _
      rw [pipes]
      by_cases here : q = pipep
      · subst here
        cases object.symm.trans present
        refine ⟨⟨buffer, pipe.numBytesWritten + len, pipe.waitingQ⟩, ?_, rfl, ?_⟩
        · exact Function.update_self _ _ _
        · change pipe.numBytesWritten ≤ pipe.numBytesWritten + len
          omega
      · exact ⟨before, (Function.update_of_ne here _ _).trans present, rfl, le_refl _⟩
  | @reclaimPipe id _ user _ _ =>
      refine nobody (fun before present => ⟨before, ?_, rfl, le_refl _⟩) fun reads =>
        (notReader (user_isPipe user) reads).elim
      change Function.update v.pipes id none q = _
      rw [Function.update_of_ne]
      · exact present
      · rintro rfl
        refine kept (by rw [present]; exact Option.some_ne_none _) ?_
        exact Function.update_self _ _ _

end View

/-- Processes write, the clock switches between them, and kernel code goes on. -/
def Input.helpsReaders : Input → Bool
  | .kernelCall (.pipeWrite ..) _ => true
  | .clock | .resume _ => true
  | _ => false

theorem Input.helpsReaders_isPipeWork {i : Input} (helps : i.helpsReaders = true) :
    i.isPipeWork = true := by
  cases i with
  | kernelCall call oracle => cases call <;> first | rfl | cases helps
  | _ => first | rfl | cases helps

/-- A help does not call for bytes and reclaims nothing. -/
theorem Input.helpsReaders_act {i : Input} (helps : i.helpsReaders = true) :
    (∀ pipep len, i.act ≠ some (.pipeRead pipep len)) ∧ ∀ id, i.act ≠ some (.reclaim id) := by
  constructor
  · intro pipep len called
    obtain ⟨oracle, rfl⟩ := Input.act_eq_some called
    cases helps
  · intro id called
    obtain ⟨oracle, rfl⟩ := Input.act_eq_some called
    cases helps

/-- A pipe of the map is drained from one state to another one. -/
structure Kernel.Drains (q : ObjPtr) (s t : Kernel) : Prop where
  work : t.PipeWork
  known : q ∈ t.pipeMap.keys
  idlePCB : t.idlePCB = s.idlePCB
  drains : ∃ served, View.Drains q served s.view t.view

/-- Each help drains the pipe. -/
theorem Kernel.PipeWork.drains {s t : Kernel} {i : Input} (work : s.PipeWork)
    (helps : i.helpsReaders = true) (next : yallnix.step s i t) {q : ObjPtr}
    (known : q ∈ s.pipeMap.keys) : s.Drains q t := by
  have sound := work.streams.sound
  have bounded := work.streams.bounded
  have live := sound.placed.live
  obtain ⟨uncalled, kept⟩ := Input.helpsReaders_act helps
  obtain ⟨-, step⟩ := sound.step next
  have later := work.step (Input.helpsReaders_isPipeWork helps) next
  have knownLater : q ∈ t.view.pipeIds := step.pipeIds bounded kept known
  have framed := handle_framed (f := PCB.r1PageTable) sound.placed sound.family next.1
    (fun _ _ _ => rfl) next.2
  refine ⟨later, knownLater, congrArg Prod.fst framed.founders, ?_⟩
  refine (step.pipeStep live).drains work.queues.pipe sound.resting bounded ?_ step.family ?_
    uncalled fun _ => later.streams.bounded.pipe.present q knownLater
  · intro pipep pipe object
    exact ((work.streams.streams pipep).fits pipe object).bound
  · intro status exits
    have point := work.points s.currPCB live
    rw [show s.pos s.currPCB = .exit status from exits] at point
    cases point

namespace Kernel.Drains

variable {q : ObjPtr} {s t u : Kernel}

theorem refl (work : s.PipeWork) (known : q ∈ s.pipeMap.keys) : s.Drains q s :=
  ⟨work, known, rfl, [], .refl q s.view⟩

theorem trans (one : s.Drains q t) (two : t.Drains q u) : s.Drains q u := by
  obtain ⟨served, drains⟩ := one.drains
  obtain ⟨more, later⟩ := two.drains
  exact ⟨two.work, two.known, two.idlePCB.trans one.idlePCB, served ++ more, drains.trans later⟩

end Kernel.Drains

/-- Finitely many helps drain the pipe. -/
theorem Kernel.PipeWork.leads {s t : Kernel} (work : s.PipeWork) {q : ObjPtr}
    (known : q ∈ s.pipeMap.keys)
    (leads : yallnix.Leads (fun i => i.helpsReaders = true) s t) : s.Drains q t :=
  leads.invariant (.refl work known) fun _ _ _ earlier helps next =>
    earlier.trans (earlier.work.drains helps next earlier.known)

end

end Yallnix

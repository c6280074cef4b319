import Yallnix.Proof.Reachability

namespace Yallnix

section
variable [Hardware] {A : Type}

/-- A context switch, an exit and a report leave this part of a PCB as it is. -/
class Own (f : PCB → A) : Prop where
  kctxt : ∀ pcb kctxt, f { pcb with kctxt := kctxt } = f pcb
  parent : ∀ pcb parent, f { pcb with parent := parent } = f pcb
  zombieQ : ∀ pcb zombieQ, f { pcb with zombieQ := zombieQ } = f pcb

instance : Own PCB.r1PageTable := ⟨fun _ _ => rfl, fun _ _ => rfl, fun _ _ => rfl⟩

/-- The idle process and the pid of `init` come from the boot. -/
def Scheduler.founders (s : Scheduler) : Addr × Int := (s.idlePCB, s.initPid)

/-- The running process `p` starts nobody and leaves the counters and this part of other PCBs as
they are, and only a tick or a delay moves sleepers. -/
structure Frames (tick : Prop) (f : PCB → A) (p : Addr) (s t : Scheduler) : Prop where
  live : t.live ⊆ s.live
  stays : ∀ a ∈ s.live, a ≠ p → a ∈ t.live
  numChildren : ∀ a ∈ t.live, (t.pcbs a).numChildren = (s.pcbs a).numChildren
  others : ∀ a ∈ s.live, a ≠ p → f (t.pcbs a) = f (s.pcbs a)
  sleeping : tick ∨ t.sleepingMap = s.sleepingMap
  founders : t.founders = s.founders

namespace Frames

variable {tick : Prop} {f : PCB → A} {p : Addr} {s t u : Scheduler}

theorem refl (s : Scheduler) : Frames tick f p s s :=
  ⟨Finset.Subset.refl _, fun _ inside _ => inside, fun _ _ => rfl, fun _ _ _ => rfl, .inr rfl, rfl⟩

theorem trans (one : Frames tick f p s t) (two : Frames tick f p t u) : Frames tick f p s u where
  live := two.live.trans one.live
  stays a inside other := two.stays a (one.stays a inside other) other
  numChildren a inside := (two.numChildren a inside).trans (one.numChildren a (two.live inside))
  others a inside other :=
    (two.others a (one.stays a inside other) other).trans (one.others a inside other)
  sleeping := by
    rcases one.sleeping with tick | first
    · exact .inl tick
    · exact two.sleeping.imp_right fun second => second.trans first
  founders := two.founders.trans one.founders

/-- A change outside of the PCBs is framed. -/
theorem pcbs (pcbs : t.pcbs = s.pcbs) (live : t.live = s.live)
    (sleeping : t.sleepingMap = s.sleepingMap) (founders : t.founders = s.founders) :
    Frames tick f p s t :=
  ⟨live.subset, fun _ inside _ => live ▸ inside, fun _ _ => by rw [pcbs],
    fun _ _ _ => by rw [pcbs], .inr sleeping, founders⟩

/-- A tick or a delay may move sleepers. -/
theorem ticked (ticks : tick) (pcbs : t.pcbs = s.pcbs) (live : t.live = s.live)
    (founders : t.founders = s.founders) : Frames tick f p s t :=
  ⟨live.subset, fun _ inside _ => live ▸ inside, fun _ _ => by rw [pcbs],
    fun _ _ _ => by rw [pcbs], .inl ticks, founders⟩

theorem updatePcb (s : Scheduler) (a : Addr) (g : PCB → PCB)
    (numChildren : (g (s.pcbs a)).numChildren = (s.pcbs a).numChildren)
    (own : a = p ∨ f (g (s.pcbs a)) = f (s.pcbs a)) : Frames tick f p s (s.updatePcb a g) := by
  refine ⟨Finset.Subset.refl _, fun _ inside _ => inside, fun b _ => ?_, fun b _ other => ?_,
    .inr rfl, rfl⟩
  · by_cases same : b = a
    · subst same
      exact (congrArg PCB.numChildren (Function.update_self b _ s.pcbs)).trans numChildren
    · exact congrArg PCB.numChildren (Function.update_of_ne same _ s.pcbs)
  · by_cases same : b = a
    · subst same
      exact (congrArg f (Function.update_self b _ s.pcbs)).trans (own.resolve_left other)
    · exact congrArg f (Function.update_of_ne same _ s.pcbs)

theorem switchBetween [Own f] (s : Scheduler) (k : Pos) (curr : Option Addr) (next : Addr) :
    Frames tick f p s (switchBetween k curr next s) := by
  have each (a : Addr) := switchBetween_pcbs k curr next a s
  refine ⟨?_, fun a inside _ => ?_, fun a _ => ?_, fun a _ _ => ?_, .inr ?_, ?_⟩
  · cases curr <;> exact Finset.Subset.refl _
  · cases curr <;> exact inside
  · obtain ⟨kctxt, same⟩ := each a
    rw [same]
  · obtain ⟨kctxt, same⟩ := each a
    exact (congrArg f same).trans (Own.kctxt _ _)
  · cases curr <;> rfl
  · cases curr <;> rfl

theorem apart {child : Addr} (apart : Apart child s t) (fresh : child ∉ s.live) :
    Frames tick f p s t where
  live := apart.live.subset
  stays a inside _ := apart.live ▸ inside
  numChildren a inside := by
    rw [apart.pcbs a]
    rintro rfl
    exact fresh (apart.live ▸ inside)
  others a inside _ := by
    rw [apart.pcbs a]
    rintro rfl
    exact fresh inside
  sleeping := .inr apart.sleepingMap
  founders := congrArg₂ Prod.mk apart.idlePCB apart.initPid

end Frames

/-- A flow is framed. -/
def Flow.Frames (tick : Prop) (f : PCB → A) (p : Addr) (s : Scheduler) : Flow Scheduler → Prop
  | .ret t _ => Yallnix.Frames tick f p s t
  | .go t => Yallnix.Frames tick f p s t

section
variable {tick : Prop} {f : PCB → A} {p : Addr} {s t : Scheduler}

theorem Flow.Frames.after {flow : Flow Scheduler} (one : Yallnix.Frames tick f p s t)
    (two : flow.Frames tick f p t) : flow.Frames tick f p s := by
  cases flow with
  | ret u code => exact Yallnix.Frames.trans one two
  | go u => exact Yallnix.Frames.trans one two

theorem Flow.Frames.finish {flow : Flow Scheduler} (frames : flow.Frames tick f p s)
    (call : Call) : Yallnix.Frames tick f p s (flow.finish call) := by
  cases flow with
  | ret t code => exact Yallnix.Frames.trans frames (.pcbs rfl rfl rfl rfl)
  | go t => exact frames

end

section
variable {tick : Prop} {f : PCB → A} [Own f] {p : Addr} {s t : Scheduler}
theorem runReady_frames (k : Pos) (s : Scheduler) : (runReady k s).Frames tick f p s := by
  unfold runReady
  cases s.readyQ with
  | nil => exact Frames.refl s
  | cons next rest =>
      have queue : Frames tick f p s { s with readyQ := rest } := .pcbs rfl rfl rfl rfl
      exact queue.trans (.switchBetween _ k _ next)

theorem blockProcess_frames {k : Pos} {flow : Flow Scheduler}
    (done : blockProcess k s = .ok flow) : flow.Frames tick f p s := by
  unfold blockProcess at done
  obtain ⟨inserted, _, done⟩ := Outcome.bind_eq_ok.mp done
  cases inserted with
  | none => exact Except.ok.inj done ▸ Frames.refl s
  | some blockedMap =>
      have queued : Frames tick f p s { s with blockedMap := blockedMap } := .pcbs rfl rfl rfl rfl
      exact Except.ok.inj done ▸ (runReady_frames k _).after queued

omit [Own f] in
theorem unblockProcess_frames {cause : Cause} {pid : Int}
    (done : unblockProcess cause pid s = .ok t) : Frames tick f p s t := by
  unfold unblockProcess at done
  obtain ⟨removed, _, done⟩ := Outcome.bind_eq_ok.mp done
  cases removed with
  | none => exact Except.ok.inj done ▸ .refl s
  | some found => exact Except.ok.inj done ▸ .pcbs rfl rfl rfl rfl

theorem sleepProcess_frames {ticks : Int} {flow : Flow Scheduler} (delays : tick)
    (curr : s.currPCB = p) (done : sleepProcess ticks s = .ok flow) : flow.Frames tick f p s := by
  unfold sleepProcess at done
  split at done
  · exact Except.ok.inj done ▸ Frames.refl s
  · have updated : Frames tick f p s (s.updatePcb s.currPCB fun pcb =>
        { pcb with numRemainingDelayTicks := ticks }) := .updatePcb s _ _ rfl (.inl curr)
    obtain ⟨inserted, _, done⟩ := Outcome.bind_eq_ok.mp done
    cases inserted with
    | none => exact Except.ok.inj done ▸ updated
    | some sleepingMap =>
        have slept : Frames tick f p s
            { s.updatePcb s.currPCB (fun pcb => { pcb with numRemainingDelayTicks := ticks }) with
              sleepingMap := sleepingMap } :=
          ⟨updated.live, updated.stays, updated.numChildren, updated.others, .inl delays,
            updated.founders⟩
        exact Except.ok.inj done ▸ Flow.Frames.after slept (runReady_frames _ _)

omit [Own f] in
theorem tickDownSleeper_frames {count result key : Int} {sleeper : Addr} (ticks : tick)
    (blind : ∀ pcb n, f { pcb with numRemainingDelayTicks := n } = f pcb)
    (done : tickDownSleeper (.ok (count, s)) key sleeper = .ok (result, t)) :
    Frames tick f p s t := by
  unfold tickDownSleeper at done
  rw [Outcome.ok_bind] at done
  dsimp only at done
  refine (Frames.updatePcb s sleeper
    (fun pcb => { pcb with numRemainingDelayTicks := pcb.numRemainingDelayTicks - 1 }) rfl
    (.inr (blind _ _))).trans ?_
  split at done
  · obtain ⟨removed, _, done⟩ := Outcome.bind_eq_ok.mp done
    cases removed with
    | none => exact (Prod.mk.inj (Except.ok.inj done)).2 ▸ .refl _
    | some found =>
        exact (Prod.mk.inj (Except.ok.inj done)).2 ▸ .ticked ticks rfl rfl rfl
  · exact (Prod.mk.inj (Except.ok.inj done)).2 ▸ .refl _

omit [Own f] in
theorem tickDownSleepers_frames {code : Int} (ticks : tick)
    (blind : ∀ pcb n, f { pcb with numRemainingDelayTicks := n } = f pcb)
    (done : tickDownSleepers s = .ok (code, t)) : Frames tick f p s t := by
  unfold tickDownSleepers at done
  obtain ⟨⟨count, u⟩, ticked, done⟩ := Outcome.bind_eq_ok.mp done
  rw [HashMap.iterate_eq_foldl] at ticked
  have frames : Frames tick f p s u := tickDownSleepers_fold
    (fun _ _ _ _ _ _ earlier once => earlier.trans (tickDownSleeper_frames ticks blind once))
    (.refl s) ticked
  dsimp only at done
  split at done
  · exact (Prod.mk.inj (Except.ok.inj done)).2 ▸ frames
  · exact (Prod.mk.inj (Except.ok.inj done)).2 ▸ frames

theorem kickProcess_frames (s : Scheduler) : (kickProcess s).Frames tick f p s := by
  unfold kickProcess
  split
  · exact Frames.refl s
  · have queued : Frames tick f p s { s with readyQ := enqQ s.readyQ s.currPCB } := .pcbs rfl rfl rfl rfl
    exact (runReady_frames _ _).after queued

theorem handleTrapClock_frames (ticks : tick)
    (blind : ∀ pcb n, f { pcb with numRemainingDelayTicks := n } = f pcb)
    (done : handleTrapClock s = .ok t) : Frames tick f p s t := by
  unfold handleTrapClock at done
  obtain ⟨⟨code, u⟩, ticked, done⟩ := Outcome.bind_eq_ok.mp done
  have woken : Frames tick f p s u := tickDownSleepers_frames ticks blind ticked
  dsimp only at done
  split at done
  · cases done
  have kick : (kickProcess u).Frames tick f p u := kickProcess_frames u
  cases kicked : kickProcess u with
  | ret v code =>
      rw [kicked] at done kick
      dsimp only at done
      split at done
      · cases done
      · exact Except.ok.inj done ▸ woken.trans kick
  | go v =>
      rw [kicked] at done kick
      exact Except.ok.inj done ▸ woken.trans kick

omit [Own f] in
theorem setMemory_frames (curr : s.currPCB = p) (memory : PageTable × FrameList) :
    Frames tick f p s (s.setMemory memory) :=
  (Frames.updatePcb s s.currPCB (fun pcb => { pcb with r1PageTable := memory.1 }) rfl
    (.inl curr)).trans (.pcbs rfl rfl rfl rfl)

omit [Own f] in
theorem handleTrapMemory_frames {addr : Nat} (curr : s.currPCB = p) (done : handleTrapMemory addr s = .ok t) :
    Frames tick f p s t := by
  unfold handleTrapMemory at done
  dsimp only at done
  split at done
  · exact Except.ok.inj done ▸ .pcbs rfl rfl rfl rfl
  obtain ⟨⟨mapped, memory⟩, _, done⟩ := Outcome.bind_eq_ok.mp done
  have grown : Frames tick f p s (s.setMemory memory) := setMemory_frames curr memory
  dsimp only at done
  split at done
  · exact Except.ok.inj done ▸ grown.trans (.pcbs rfl rfl rfl rfl)
  · exact Except.ok.inj done ▸ grown

omit [Own f] in
theorem kernelBrk_frames {addr : Nat} {code : Int} (curr : s.currPCB = p)
    (done : kernelBrk addr s = .ok (code, t)) : Frames tick f p s t := by
  unfold kernelBrk at done
  split at done
  · exact (Prod.mk.inj (Except.ok.inj done)).2 ▸ .refl s
  obtain ⟨⟨mapped, memory⟩, _, done⟩ := Outcome.bind_eq_ok.mp done
  have moved : Frames tick f p s (s.setMemory memory) := setMemory_frames curr memory
  dsimp only at done
  split at done
  · exact (Prod.mk.inj (Except.ok.inj done)).2 ▸ moved
  · exact (Prod.mk.inj (Except.ok.inj done)).2 ▸
      moved.trans (.updatePcb (s.setMemory memory) s.currPCB _ rfl (.inl curr))

theorem execTo_frames (s : Scheduler) : Frames tick f p s (execTo s) :=
  (Frames.updatePcb s s.currPCB (fun pcb => { pcb with kctxt := some .starter }) rfl
    (.inr (Own.kctxt _ _))).trans (.pcbs rfl rfl rfl rfl)

theorem kernelExec_frames {request : ExecRequest} {flow : Flow Scheduler} (curr : s.currPCB = p)
    (done : kernelExec request s = .ok flow) : flow.Frames tick f p s := by
  unfold kernelExec at done
  split at done
  · exact Except.ok.inj done ▸ Frames.refl s
  obtain ⟨⟨status, proc, frames⟩, loaded, done⟩ := Outcome.bind_eq_ok.mp done
  have same : Frames tick f p s { s.updatePcb s.currPCB fun _ => proc with frameList := frames } :=
    (Frames.updatePcb s s.currPCB (fun _ => proc) (loadProgram_same loaded).numChildren
      (.inl curr)).trans (.pcbs rfl rfl rfl rfl)
  dsimp only at done
  split at done
  · exact Except.ok.inj done ▸ same.trans (.pcbs rfl rfl rfl rfl)
  split at done
  · exact Except.ok.inj done ▸ same
  · exact Except.ok.inj done ▸ same.trans (execTo_frames _)

theorem kernelDelay_frames {clockTicks : Int} {flow : Flow Scheduler} (delays : tick)
    (curr : s.currPCB = p) (done : kernelDelay clockTicks s = .ok flow) : flow.Frames tick f p s := by
  unfold kernelDelay at done
  split at done
  · exact Except.ok.inj done ▸ Frames.refl s
  split at done
  · exact Except.ok.inj done ▸ Frames.refl s
  · exact sleepProcess_frames delays curr done

theorem kernelWaitCollect_frames {code : Int} (done : kernelWaitCollect s = (code, t)) :
    Frames tick f p s t := by
  unfold kernelWaitCollect at done
  split at done
  · exact (Prod.mk.inj done).2 ▸ .refl s
  · rename_i zombie rest _
    have updated : Frames tick f p s (s.updatePcb s.currPCB fun pcb =>
        { pcb with zombieQ := pcb.zombieQ.map fun _ => rest }) :=
      .updatePcb s _ _ rfl (.inr (Own.zombieQ _ _))
    exact (Prod.mk.inj done).2 ▸ updated.trans (.pcbs rfl rfl rfl rfl)

theorem kernelWait_frames {statusPtr : Nat} {flow : Flow Scheduler}
    (done : kernelWait statusPtr s = .ok flow) : flow.Frames tick f p s := by
  unfold kernelWait at done
  split at done
  · exact Except.ok.inj done ▸ Frames.refl s
  obtain ⟨prot, _, done⟩ := Outcome.bind_eq_ok.mp done
  split at done
  · exact Except.ok.inj done ▸ Frames.refl s
  split at done
  · exact Except.ok.inj done ▸ Frames.refl s
  split at done
  · obtain ⟨blocked, outcome, done⟩ := Outcome.bind_eq_ok.mp done
    have waits : blocked.Frames tick f p s := blockProcess_frames outcome
    cases blocked with
    | ret u code => cases done
    | go u => exact Except.ok.inj done ▸ waits
  · exact Except.ok.inj done ▸ kernelWaitCollect_frames rfl

omit [Own f] in
theorem unblockProcess_frameList {cause : Cause} {pid : Int}
    (done : unblockProcess cause pid s = .ok t) :
    t.frameList = s.frameList ∧ t.live = s.live ∧ t.currPCB = s.currPCB ∧ t.pcbs = s.pcbs := by
  unfold unblockProcess at done
  obtain ⟨removed, _, done⟩ := Outcome.bind_eq_ok.mp done
  cases removed with
  | none =>
      cases done
      exact ⟨rfl, rfl, rfl, rfl⟩
  | some found =>
      cases done
      exact ⟨rfl, rfl, rfl, rfl⟩

/-- The zombie queue of a PCB after the exit of a process. -/
def Scheduler.zombiesAfter (s : Scheduler) (status : Int) (a : Addr) : Option (Queue Zombie) :=
  if s.curr.parent = some a then
    some (enqQ ((s.pcbs a).zombieQ.getD makeQ) ⟨s.curr.pid, status⟩)
  else (s.pcbs a).zombieQ

omit [Own f] in
/-- The report of an exit changes the zombie queue of the parent and no other field of a PCB. -/
theorem reportExit_pcbs {status : Int} (done : reportExit status s = .ok t) :
    t.frameList = s.frameList ∧ t.live = s.live ∧ t.currPCB = s.currPCB ∧
      ∀ a, t.pcbs a = { s.pcbs a with zombieQ := s.zombiesAfter status a } := by
  rw [reportExit] at done
  cases isParent : s.curr.parent with
  | none =>
      rw [isParent] at done
      cases done
      refine ⟨rfl, rfl, rfl, fun a => ?_⟩
      rw [Scheduler.zombiesAfter, isParent, if_neg (by simp)]
  | some parent =>
      rw [isParent] at done
      obtain ⟨frameList, live, curr, pcbs⟩ := unblockProcess_frameList done
      refine ⟨frameList, live, curr, fun a => ?_⟩
      rw [pcbs, Scheduler.zombiesAfter, isParent]
      by_cases same : a = parent
      · subst same
        rw [if_pos rfl]
        exact Function.update_self ..
      · rw [if_neg fun equal => same (Option.some.inj equal).symm]
        exact Function.update_of_ne same ..

theorem reportExit_frames {status : Int} (done : reportExit status s = .ok t) : Frames tick f p s t := by
  unfold reportExit at done
  split at done
  · exact Except.ok.inj done ▸ .refl s
  · exact (Frames.updatePcb s _ _ rfl (.inr (Own.zombieQ _ _))).trans (unblockProcess_frames done)

theorem kernelExit_frames {status : Int} {junk : PCB} (curr : s.currPCB = p)
    (done : kernelExit status junk s = .ok t) : Frames tick f p s t := by
  obtain ⟨u, next, rest, reported, _, rfl⟩ := kernelExit_cases done
  refine (reportExit_frames reported).trans (.trans ?_ (.switchBetween _ _ _ next))
  obtain ⟨pcbs, iterated, each⟩ := removeParent_fold u.curr.childrenMap.entries u
  rw [HashMap.iterate_eq_foldl, iterated]
  obtain ⟨-, -, sameCurr, -⟩ := reportExit_pcbs reported
  have isP : u.currPCB = p := sameCurr.trans curr
  refine ⟨Finset.erase_subset _ _, fun a inside other => ?_, fun a inside => ?_,
    fun a _ other => ?_, .inr rfl, rfl⟩
  · exact Finset.mem_erase.mpr ⟨isP ▸ other, inside⟩
  · have other : a ≠ u.currPCB := Finset.ne_of_mem_erase inside
    refine (congrArg PCB.numChildren (Function.update_of_ne other _ pcbs)).trans ?_
    rw [each]
  · refine (congrArg f (Function.update_of_ne (isP ▸ other) _ pcbs)).trans ?_
    exact (congrArg f (each a)).trans (Own.parent _ _)

/-- A successful fork adds the child and counts it in its parent. -/
structure Forks (f : PCB → A) (child : Addr) (s t : Scheduler) : Prop where
  live : t.live = insert child s.live
  numChildren : ∀ a ∈ s.live, (t.pcbs a).numChildren =
    (s.pcbs a).numChildren + if a = s.currPCB then 1 else 0
  others : ∀ a ∈ s.live, a ≠ s.currPCB → f (t.pcbs a) = f (s.pcbs a)
  sleepingMap : t.sleepingMap = s.sleepingMap
  founders : t.founders = s.founders

theorem kernelFork_frames (placed : Placed s) (family : Family s.crowd) {oracle : Oracle}
    (fresh : oracle.pcb ∉ s.allocated) {flow : Flow Scheduler}
    (done : kernelFork oracle s = .ok flow) :
    flow.Frames tick f p s ∨ ∃ t, flow = .go t ∧ Forks f oracle.pcb s t := by
  have notLive : oracle.pcb ∉ s.live := fun live => fresh (placed.allocated live)
  rcases kernelFork_cases placed family fresh done with
    ⟨t, rfl, apart, _⟩ | ⟨w, childrenMap, new, _, rfl⟩
  · exact .inl (Frames.apart apart notLive)
  · have each (a : Addr) (inside : a ∈ s.live) := forkTo_pcbs (.fork s.currPCB oracle.pcb)
      oracle.pcb a (({ adopt w childrenMap with
        readyQ := enqQ (adopt w childrenMap).readyQ (adopt w childrenMap).currPCB
        live := insert oracle.pcb (adopt w childrenMap).live } : Scheduler).record
          (.forked s.curr.pid s.nextPid))
    have old (a : Addr) (inside : a ∈ s.live) : a ≠ oracle.pcb := fun same =>
      notLive (same ▸ inside)
    refine .inr ⟨_, rfl, congrArg (insert oracle.pcb) new.apart.live, fun a inside => ?_,
      fun a inside other => ?_, new.apart.sleepingMap,
      congrArg₂ Prod.mk new.apart.idlePCB new.apart.initPid⟩
    · obtain ⟨kctxt, same⟩ := each a inside
      rw [same, ← new.apart.pcbs a (old a inside), ← new.apart.currPCB]
      change ((adopt w childrenMap).pcbs a).numChildren = _
      by_cases isCurr : a = w.currPCB
      · subst isCurr
        rw [if_pos rfl]
        exact congrArg PCB.numChildren (Function.update_self _ _ w.pcbs)
      · rw [if_neg isCurr]
        exact congrArg PCB.numChildren (Function.update_of_ne isCurr _ w.pcbs)
    · obtain ⟨kctxt, same⟩ := each a inside
      rw [← new.apart.pcbs a (old a inside), ← new.adopt_apart childrenMap a other]
      exact (congrArg f same).trans (Own.kctxt _ _)

theorem waitTransmitter_frames (k : Pos) (tty : Fin numTerminals) (s : Scheduler) :
    (waitTransmitter k tty s).Frames tick f p s := by
  have queued : Frames tick f p s { s with
    currTransmitters := Function.update s.currTransmitters tty (some s.currPCB) } := .pcbs rfl rfl rfl rfl
  exact (runReady_frames k _).after queued

theorem blockTransmitter_frames (k : Pos) (tty : Fin numTerminals) (s : Scheduler) :
    (blockTransmitter k tty s).Frames tick f p s := by
  have queued : Frames tick f p s { s with
    transmittingQs := Function.update s.transmittingQs tty
      (enqQ (s.transmittingQs tty) s.currPCB) } := .pcbs rfl rfl rfl rfl
  exact (runReady_frames k _).after queued

theorem blockReader_frames (k : Pos) (tty : Fin numTerminals) (s : Scheduler) :
    (blockReader k tty s).Frames tick f p s := by
  have queued : Frames tick f p s { s with
    readingQs := Function.update s.readingQs tty (enqQ (s.readingQs tty) s.currPCB) } :=
    .pcbs rfl rfl rfl rfl
  exact (runReady_frames k _).after queued

omit [Own f] in
theorem unblockTransmitter_frames (tty : Fin numTerminals) (s : Scheduler) :
    Frames tick f p s (unblockTransmitter tty s) := by
  unfold unblockTransmitter
  dsimp only
  split <;> exact .pcbs rfl rfl rfl rfl

theorem transmitLoop_frames (tty : Fin numTerminals) (call : Call) (r0Buf : List Byte)
    (bytesTransmitted : Nat) (s : Scheduler) :
    (transmitLoop tty call r0Buf bytesTransmitted s).Frames tick f p s := by
  unfold transmitLoop
  split
  · dsimp only
    generalize sent : Scheduler.record _ _ = u
    have sends : Frames tick f p s u := sent ▸ .pcbs rfl rfl rfl rfl
    generalize Pos.ttyBatch tty call r0Buf _ = k
    have waits := (waitTransmitter_frames k tty u).after sends
    generalize waitTransmitter k tty u = flow at waits ⊢
    cases flow with
    | ret t code => exact Frames.trans waits (.pcbs rfl rfl rfl rfl)
    | go t => exact waits
  · exact unblockTransmitter_frames tty s

theorem ttyWriteLoop_frames (tty : Fin numTerminals) (call : Call) (r0Buf : List Byte)
    (s : Scheduler) : (ttyWriteLoop tty call r0Buf s).Frames tick f p s := by
  unfold ttyWriteLoop
  split
  · exact transmitLoop_frames tty call r0Buf 0 s
  · have waits : (blockTransmitter (.ttyWrite tty call r0Buf) tty s).Frames tick f p s :=
      blockTransmitter_frames _ tty s
    generalize blockTransmitter _ tty s = flow at waits ⊢
    cases flow with
    | ret t code => exact Frames.trans waits (.pcbs rfl rfl rfl rfl)
    | go t => exact waits

theorem kernelTtyWrite_frames {oracle : Oracle} {ttyId len : Int} {buf : Nat} {bytes : List Byte}
    {flow : Flow Scheduler} (done : kernelTtyWrite oracle ttyId buf len bytes s = .ok flow) :
    flow.Frames tick f p s := by
  unfold kernelTtyWrite at done
  split at done
  · exact Except.ok.inj done ▸ Frames.refl s
  split at done
  · exact Except.ok.inj done ▸ Frames.refl s
  split at done
  · exact Except.ok.inj done ▸ Frames.refl s
  split at done
  · exact Except.ok.inj done ▸ Frames.refl s
  obtain ⟨tty, _, done⟩ := Outcome.bind_eq_ok.mp done
  exact Except.ok.inj done ▸ ttyWriteLoop_frames tty _ bytes s

omit [Own f] in
theorem unblockReader_frames (tty : Fin numTerminals) (s : Scheduler) :
    Frames tick f p s (unblockReader tty s) := by
  unfold unblockReader
  split
  · exact .refl s
  · exact .pcbs rfl rfl rfl rfl

theorem handleTtyTransmit_frames {tty : Fin numTerminals}
    (done : handleTtyTransmit tty s = .ok t) : Frames tick f p s t := by
  unfold handleTtyTransmit signalTransmitter at done
  dsimp only at done
  cases writer : s.currTransmitters tty with
  | none =>
      rw [writer] at done
      dsimp only at done
      split at done
      · cases done
      · exact Except.ok.inj done ▸ .pcbs rfl rfl rfl rfl
  | some next =>
      rw [writer] at done
      have queued : Frames tick f p s { s with
          transmitting := Function.update s.transmitting tty false
          readyQ := enqQ s.readyQ s.currPCB } := .pcbs rfl rfl rfl rfl
      exact Except.ok.inj done ▸ queued.trans (.switchBetween _ _ _ next)

end

section
variable {tick : Prop} {f : PCB → A} [Own f] {p : Addr} {s t : Kernel}

omit [Own f] in
theorem writeBuffer_frames {tty : Fin numTerminals} {line : Option (List Byte)}
    (done : writeBuffer tty line s = .ok t) : Frames tick f p s.toScheduler t.toScheduler := by
  unfold writeBuffer at done
  cases line with
  | none => exact Except.ok.inj done ▸ Frames.refl s.toScheduler
  | some bytes =>
      obtain ⟨base, _, done⟩ := Outcome.bind_eq_ok.mp done
      exact Except.ok.inj done ▸ unblockReader_frames tty s.toScheduler

theorem readBufferLoop_frames {tty : Fin numTerminals} {call : Call} {len : Int}
    {flow : Flow Kernel} (done : readBufferLoop tty call len s = .ok flow) (again : Call) :
    Frames tick f p s.toScheduler (finish again flow).toScheduler := by
  unfold readBufferLoop at done
  dsimp only at done
  split at done
  · have waits : (blockReader (.ttyRead tty call len) tty s.toScheduler).Frames tick f p
        s.toScheduler := blockReader_frames _ tty s.toScheduler
    cases blocked : blockReader (.ttyRead tty call len) tty s.toScheduler with
    | ret u code =>
        rw [blocked] at done waits
        exact Except.ok.inj done ▸ Frames.trans waits (.pcbs rfl rfl rfl rfl)
    | go u =>
        rw [blocked] at done waits
        exact Except.ok.inj done ▸ waits
  split at done
  · obtain ⟨bytes, _, done⟩ := Outcome.bind_eq_ok.mp done
    obtain ⟨rest, _, done⟩ := Outcome.bind_eq_ok.mp done
    obtain ⟨base, _, done⟩ := Outcome.bind_eq_ok.mp done
    have received : Frames tick f p s.toScheduler
        (s.toScheduler.record (.received tty s.curr.pid bytes)) := .pcbs rfl rfl rfl rfl
    exact Except.ok.inj done ▸
      (received.trans (unblockReader_frames tty _)).trans (.pcbs rfl rfl rfl rfl)
  · obtain ⟨bytes, _, done⟩ := Outcome.bind_eq_ok.mp done
    exact Except.ok.inj done ▸ Frames.pcbs rfl rfl rfl rfl

theorem kernelTtyRead_frames {oracle : Oracle} {ttyId len : Int} {buf : Nat} {flow : Flow Kernel}
    (done : kernelTtyRead oracle ttyId buf len s = .ok flow) (again : Call) :
    Frames tick f p s.toScheduler (finish again flow).toScheduler := by
  unfold kernelTtyRead at done
  have rejected (code : Int) : Frames tick f p s.toScheduler (finish again (.ret s code)).toScheduler :=
    .pcbs rfl rfl rfl rfl
  split at done
  · exact Except.ok.inj done ▸ rejected _
  split at done
  · exact Except.ok.inj done ▸ rejected _
  split at done
  · exact Except.ok.inj done ▸ rejected _
  split at done
  · exact Except.ok.inj done ▸ rejected _
  obtain ⟨tty, _, done⟩ := Outcome.bind_eq_ok.mp done
  exact readBufferLoop_frames done again

omit [Own f] in
theorem unblockWaiter_frames {cause : Cause} {waiter : Addr}
    (done : unblockWaiter cause waiter s = .ok t) :
    Frames tick f p s.toScheduler t.toScheduler := by
  unfold unblockWaiter at done
  obtain ⟨scheduler, woken, done⟩ := Outcome.bind_eq_ok.mp done
  exact Except.ok.inj done ▸ unblockProcess_frames woken

theorem blockCurrent_frames {k : Pos} {flow : Flow Kernel} (done : blockCurrent k s = .ok flow)
    (call : Call) : Frames tick f p s.toScheduler (finish call flow).toScheduler := by
  unfold blockCurrent at done
  obtain ⟨blocked, outcome, done⟩ := Outcome.bind_eq_ok.mp done
  have waits : blocked.Frames tick f p s.toScheduler := blockProcess_frames outcome
  cases blocked with
  | ret u code => exact Except.ok.inj done ▸ Frames.trans waits (.pcbs rfl rfl rfl rfl)
  | go u => exact Except.ok.inj done ▸ waits

theorem acquireLoop_frames {lockp : ObjPtr} {call : Call} {flow : Flow Kernel}
    (done : acquireLoop lockp call s = .ok flow) (again : Call) :
    Frames tick f p s.toScheduler (finish again flow).toScheduler := by
  unfold acquireLoop at done
  obtain ⟨lock, _, done⟩ := Outcome.bind_eq_ok.mp done
  split at done
  · exact Frames.trans (.refl s.toScheduler) (blockCurrent_frames done again)
  · exact Except.ok.inj done ▸ .pcbs rfl rfl rfl rfl

theorem kernelAcquire_frames {call : Call} {lockId : Int} {flow : Flow Kernel}
    (done : kernelAcquire call lockId s = .ok flow) (again : Call) :
    Frames tick f p s.toScheduler (finish again flow).toScheduler := by
  unfold kernelAcquire at done
  obtain ⟨found, _, done⟩ := Outcome.bind_eq_ok.mp done
  cases found with
  | none => exact Except.ok.inj done ▸ .pcbs rfl rfl rfl rfl
  | some lockp => exact acquireLoop_frames done again

omit [Own f] in
theorem kernelRelease_frames {lockId code : Int} (done : kernelRelease lockId s = .ok (code, t)) :
    Frames tick f p s.toScheduler t.toScheduler := by
  unfold kernelRelease at done
  obtain ⟨found, _, done⟩ := Outcome.bind_eq_ok.mp done
  cases found with
  | none => exact (Prod.mk.inj (Except.ok.inj done)).2 ▸ .refl _
  | some lockp =>
      obtain ⟨lock, _, done⟩ := Outcome.bind_eq_ok.mp done
      split at done
      · exact (Prod.mk.inj (Except.ok.inj done)).2 ▸ .refl _
      · have freed : Frames tick f p s.toScheduler
            (s.toScheduler.record (.released s.curr.pid lockId)) := .pcbs rfl rfl rfl rfl
        dsimp only at done
        split at done
        · exact (Prod.mk.inj (Except.ok.inj done)).2 ▸ freed
        · obtain ⟨u, woken, done⟩ := Outcome.bind_eq_ok.mp done
          exact (Prod.mk.inj (Except.ok.inj done)).2 ▸ freed.trans (unblockWaiter_frames woken)

theorem kernelCvarWait_frames {cvarId lockId : Int} {flow : Flow Kernel}
    (done : kernelCvarWait cvarId lockId s = .ok flow) (again : Call) :
    Frames tick f p s.toScheduler (finish again flow).toScheduler := by
  unfold kernelCvarWait at done
  obtain ⟨found, _, done⟩ := Outcome.bind_eq_ok.mp done
  cases found with
  | none => exact Except.ok.inj done ▸ .pcbs rfl rfl rfl rfl
  | some cvarp =>
      obtain ⟨cvarQ, _, done⟩ := Outcome.bind_eq_ok.mp done
      obtain ⟨⟨code, u⟩, released, done⟩ := Outcome.bind_eq_ok.mp done
      have queued : Frames tick f p (s.setCvar cvarp _).toScheduler u.toScheduler :=
        kernelRelease_frames released
      exact queued.trans (blockCurrent_frames done again)

omit [Own f] in
theorem kernelCvarSignal_frames {cvarId code : Int}
    (done : kernelCvarSignal cvarId s = .ok (code, t)) :
    Frames tick f p s.toScheduler t.toScheduler := by
  unfold kernelCvarSignal at done
  obtain ⟨found, _, done⟩ := Outcome.bind_eq_ok.mp done
  cases found with
  | none => exact (Prod.mk.inj (Except.ok.inj done)).2 ▸ .refl _
  | some cvarp =>
      obtain ⟨cvarQ, _, done⟩ := Outcome.bind_eq_ok.mp done
      split at done
      · exact (Prod.mk.inj (Except.ok.inj done)).2 ▸ .refl _
      · obtain ⟨u, woken, done⟩ := Outcome.bind_eq_ok.mp done
        have wakes : Frames tick f p (s.setCvar cvarp _).toScheduler u.toScheduler :=
          unblockWaiter_frames woken
        exact (Prod.mk.inj (Except.ok.inj done)).2 ▸ wakes

omit [Own f] in
theorem broadcastLoop_frames {cvarp : ObjPtr} {cvarQ : Queue Addr}
    (done : broadcastLoop cvarp cvarQ s = .ok t) :
    Frames tick f p s.toScheduler t.toScheduler := by
  induction cvarQ generalizing s with
  | nil => exact Except.ok.inj done ▸ .refl _
  | cons waiter rest ih =>
      obtain ⟨u, woken, done⟩ := Outcome.bind_eq_ok.mp done
      have wakes : Frames tick f p (s.setCvar cvarp _).toScheduler u.toScheduler :=
        unblockWaiter_frames woken
      exact wakes.trans (ih done)

omit [Own f] in
theorem kernelCvarBroadcast_frames {cvarId code : Int}
    (done : kernelCvarBroadcast cvarId s = .ok (code, t)) :
    Frames tick f p s.toScheduler t.toScheduler := by
  unfold kernelCvarBroadcast at done
  obtain ⟨found, _, done⟩ := Outcome.bind_eq_ok.mp done
  cases found with
  | none => exact (Prod.mk.inj (Except.ok.inj done)).2 ▸ .refl _
  | some cvarp =>
      obtain ⟨cvarQ, _, done⟩ := Outcome.bind_eq_ok.mp done
      obtain ⟨u, looped, done⟩ := Outcome.bind_eq_ok.mp done
      exact (Prod.mk.inj (Except.ok.inj done)).2 ▸ broadcastLoop_frames looped

omit [Own f] in
theorem unblockHead_frames {pipep : ObjPtr} {waitingQ : Queue Addr}
    (done : unblockHead pipep waitingQ s = .ok t) :
    Frames tick f p s.toScheduler t.toScheduler := by
  unfold unblockHead at done
  split at done
  · exact Except.ok.inj done ▸ .refl _
  · exact unblockWaiter_frames done

theorem pipeReadLoop_frames {pipep : ObjPtr} {pipeId len : Int} {flow : Flow Kernel}
    (done : pipeReadLoop pipep pipeId len s = .ok flow) (again : Call) :
    Frames tick f p s.toScheduler (finish again flow).toScheduler := by
  unfold pipeReadLoop at done
  obtain ⟨pipe, _, done⟩ := Outcome.bind_eq_ok.mp done
  split at done
  · exact blockCurrent_frames done again
  split at done
  · exact Except.ok.inj done ▸ .pcbs rfl rfl rfl rfl
  · obtain ⟨bytes, _, done⟩ := Outcome.bind_eq_ok.mp done
    have taken : Frames tick f p s.toScheduler
        (s.toScheduler.record (.pipeRead pipep len bytes)) := .pcbs rfl rfl rfl rfl
    dsimp only at done
    split at done
    · obtain ⟨rest, _, done⟩ := Outcome.bind_eq_ok.mp done
      obtain ⟨buffer, _, done⟩ := Outcome.bind_eq_ok.mp done
      obtain ⟨u, woken, done⟩ := Outcome.bind_eq_ok.mp done
      exact Except.ok.inj done ▸
        (taken.trans (unblockHead_frames woken)).trans (.pcbs rfl rfl rfl rfl)
    · exact Except.ok.inj done ▸ taken.trans (.pcbs rfl rfl rfl rfl)

theorem kernelPipeRead_frames {pipeId len : Int} {flow : Flow Kernel}
    (done : kernelPipeRead pipeId len s = .ok flow) (again : Call) :
    Frames tick f p s.toScheduler (finish again flow).toScheduler := by
  unfold kernelPipeRead at done
  split at done
  · exact Except.ok.inj done ▸ .pcbs rfl rfl rfl rfl
  split at done
  · exact Except.ok.inj done ▸ .pcbs rfl rfl rfl rfl
  obtain ⟨found, _, done⟩ := Outcome.bind_eq_ok.mp done
  cases found with
  | none => exact Except.ok.inj done ▸ .pcbs rfl rfl rfl rfl
  | some pipep =>
      obtain ⟨pipe, _, done⟩ := Outcome.bind_eq_ok.mp done
      dsimp only at done
      split at done
      · exact Frames.trans (.refl s.toScheduler) (blockCurrent_frames done again)
      · exact Frames.trans (.refl s.toScheduler) (pipeReadLoop_frames done again)

omit [Own f] in
theorem kernelPipeWrite_frames {pipeId len code : Int} {bytes : List Byte}
    (done : kernelPipeWrite pipeId len bytes s = .ok (code, t)) :
    Frames tick f p s.toScheduler t.toScheduler := by
  unfold kernelPipeWrite at done
  split at done
  · exact (Prod.mk.inj (Except.ok.inj done)).2 ▸ .refl _
  split at done
  · exact (Prod.mk.inj (Except.ok.inj done)).2 ▸ .refl _
  obtain ⟨found, _, done⟩ := Outcome.bind_eq_ok.mp done
  cases found with
  | none => exact (Prod.mk.inj (Except.ok.inj done)).2 ▸ .refl _
  | some pipep =>
      obtain ⟨pipe, _, done⟩ := Outcome.bind_eq_ok.mp done
      split at done
      · exact (Prod.mk.inj (Except.ok.inj done)).2 ▸ .refl _
      · obtain ⟨buffer, _, done⟩ := Outcome.bind_eq_ok.mp done
        obtain ⟨u, woken, done⟩ := Outcome.bind_eq_ok.mp done
        have written : Frames tick f p s.toScheduler
            (s.toScheduler.record (.pipeWritten pipep bytes)) := .pcbs rfl rfl rfl rfl
        exact (Prod.mk.inj (Except.ok.inj done)).2 ▸ written.trans (unblockHead_frames woken)

omit [Own f] in
theorem kernelLockInit_frames {code : Int} (done : kernelLockInit s = .ok (code, t)) :
    Frames tick f p s.toScheduler t.toScheduler := by
  unfold kernelLockInit at done
  obtain ⟨inserted, _, done⟩ := Outcome.bind_eq_ok.mp done
  cases inserted <;> exact (Prod.mk.inj (Except.ok.inj done)).2 ▸ .pcbs rfl rfl rfl rfl

omit [Own f] in
theorem kernelCvarInit_frames {code : Int} (done : kernelCvarInit s = .ok (code, t)) :
    Frames tick f p s.toScheduler t.toScheduler := by
  unfold kernelCvarInit at done
  obtain ⟨inserted, _, done⟩ := Outcome.bind_eq_ok.mp done
  cases inserted <;> exact (Prod.mk.inj (Except.ok.inj done)).2 ▸ .pcbs rfl rfl rfl rfl

omit [Own f] in
theorem kernelPipeInit_frames {oracle : Oracle} {code : Int}
    (done : kernelPipeInit oracle s = .ok (code, t)) :
    Frames tick f p s.toScheduler t.toScheduler := by
  unfold kernelPipeInit at done
  obtain ⟨inserted, _, done⟩ := Outcome.bind_eq_ok.mp done
  cases inserted <;> exact (Prod.mk.inj (Except.ok.inj done)).2 ▸ .pcbs rfl rfl rfl rfl

omit [Own f] in
theorem deleteLock_frames {id code : Int} (done : deleteLock id s = .ok (code, t)) :
    Frames tick f p s.toScheduler t.toScheduler := by
  unfold deleteLock at done
  obtain ⟨removed, _, done⟩ := Outcome.bind_eq_ok.mp done
  cases removed with
  | none => exact (Prod.mk.inj (Except.ok.inj done)).2 ▸ .refl _
  | some found =>
      obtain ⟨object, _, done⟩ := Outcome.bind_eq_ok.mp done
      dsimp only at done
      split at done <;> exact (Prod.mk.inj (Except.ok.inj done)).2 ▸ .pcbs rfl rfl rfl rfl

omit [Own f] in
theorem deleteCvar_frames {id code : Int} (done : deleteCvar id s = .ok (code, t)) :
    Frames tick f p s.toScheduler t.toScheduler := by
  unfold deleteCvar at done
  obtain ⟨removed, _, done⟩ := Outcome.bind_eq_ok.mp done
  cases removed with
  | none => exact (Prod.mk.inj (Except.ok.inj done)).2 ▸ .refl _
  | some found =>
      obtain ⟨object, _, done⟩ := Outcome.bind_eq_ok.mp done
      dsimp only at done
      split at done <;> exact (Prod.mk.inj (Except.ok.inj done)).2 ▸ .pcbs rfl rfl rfl rfl

omit [Own f] in
theorem deletePipe_frames {id code : Int} (done : deletePipe id s = .ok (code, t)) :
    Frames tick f p s.toScheduler t.toScheduler := by
  unfold deletePipe at done
  obtain ⟨removed, _, done⟩ := Outcome.bind_eq_ok.mp done
  cases removed with
  | none => exact (Prod.mk.inj (Except.ok.inj done)).2 ▸ .refl _
  | some found =>
      obtain ⟨object, _, done⟩ := Outcome.bind_eq_ok.mp done
      dsimp only at done
      split at done <;> exact (Prod.mk.inj (Except.ok.inj done)).2 ▸ .pcbs rfl rfl rfl rfl

omit [Own f] in
theorem kernelReclaim_frames {id code : Int} (done : kernelReclaim id s = .ok (code, t)) :
    Frames tick f p s.toScheduler t.toScheduler := by
  unfold kernelReclaim at done
  obtain ⟨lock, _, done⟩ := Outcome.bind_eq_ok.mp done
  split at done
  · exact deleteLock_frames done
  obtain ⟨cvar, _, done⟩ := Outcome.bind_eq_ok.mp done
  split at done
  · exact deleteCvar_frames done
  obtain ⟨pipe, _, done⟩ := Outcome.bind_eq_ok.mp done
  split at done
  · exact deletePipe_frames done
  · exact (Prod.mk.inj (Except.ok.inj done)).2 ▸ .refl _

end

/-- Only the running process changes its part of its PCB, no counter falls, a process with a new
child has counted it, and only a tick or a delay moves sleepers. -/
structure Framed (tick : Prop) (f : PCB → A) (s t : Scheduler) : Prop where
  stays : ∀ a ∈ s.live, a ≠ s.currPCB → a ∈ t.live
  others : ∀ a ∈ s.live, a ≠ s.currPCB → f (t.pcbs a) = f (s.pcbs a)
  sleeping : tick ∨ t.sleepingMap = s.sleepingMap
  counts : ∀ a ∈ s.live, a ∈ t.live → (s.pcbs a).numChildren ≤ (t.pcbs a).numChildren
  born : t.live ⊆ s.live ∨ 0 < (t.pcbs s.currPCB).numChildren
  founders : t.founders = s.founders

section
variable {tick : Prop} {f : PCB → A}

theorem Frames.framed {s t : Scheduler} (frames : Frames tick f s.currPCB s t) :
    Framed tick f s t :=
  ⟨frames.stays, frames.others, frames.sleeping, fun a _ inside => (frames.numChildren a inside).ge,
    .inl frames.live, frames.founders⟩

theorem Flow.Frames.framed {s : Scheduler} {flow : Flow Scheduler}
    (frames : flow.Frames tick f s.currPCB s) (call : Call) : Framed tick f s (flow.finish call) :=
  (frames.finish call).framed

theorem Forks.framed {s t : Scheduler} {child : Addr} (forks : Forks f child s t)
    (running : s.currPCB ∈ s.live) : Framed tick f s t := by
  refine ⟨fun a inside _ => ?_, forks.others, .inr forks.sleepingMap, fun a inside _ => ?_,
    .inr ?_, forks.founders⟩
  · rw [forks.live]
    exact Finset.mem_insert_of_mem inside
  · rw [forks.numChildren a inside]
    exact Nat.le_add_right _ _
  · rw [forks.numChildren _ running, if_pos rfl]
    exact Nat.succ_pos _

variable {s t : Kernel}

theorem Frames.sysReturn (u : Kernel) (frames : Frames tick f s.currPCB s.toScheduler u.toScheduler)
    (call : Call) (code : Int) :
    Framed tick f s.toScheduler (u.sysReturn call code).toScheduler := by
  have returns : Frames tick f s.currPCB u.toScheduler (u.sysReturn call code).toScheduler :=
    .pcbs rfl rfl rfl rfl
  exact (frames.trans returns).framed

variable [Own f]

theorem handleTrapKernel_framed (placed : Placed s.toScheduler) (family : Family s.crowd)
    {oracle : Oracle} (fresh : oracle.pcb ∉ s.allocated) {call : Call}
    (delays : ∀ clockTicks, call = .delay clockTicks → tick)
    (done : handleTrapKernel oracle call s = .ok t) :
    Framed tick f s.toScheduler t.toScheduler := by
  cases call with
  | fork =>
      obtain ⟨flow, forked, done⟩ := Outcome.bind_eq_ok.mp done
      cases done
      rw [finishScheduler_eq]
      have forks : flow.Frames tick f s.currPCB s.toScheduler ∨
          ∃ t, flow = .go t ∧ Forks f oracle.pcb s.toScheduler t :=
        kernelFork_frames placed family fresh forked
      rcases forks with frames | ⟨u, rfl, forks⟩
      · exact frames.framed _
      · exact forks.framed placed.live
  | exec request =>
      obtain ⟨flow, loaded, done⟩ := Outcome.bind_eq_ok.mp done
      cases done
      rw [finishScheduler_eq]
      exact (kernelExec_frames rfl loaded).framed _
  | exit status =>
      cases done
      exact Frames.framed (.pcbs rfl rfl rfl rfl)
  | wait statusPtr =>
      obtain ⟨flow, waited, done⟩ := Outcome.bind_eq_ok.mp done
      cases done
      rw [finishScheduler_eq]
      exact (kernelWait_frames waited).framed _
  | getPid =>
      cases done
      exact Frames.framed (.pcbs rfl rfl rfl rfl)
  | brk addr =>
      obtain ⟨⟨code, u⟩, moved, done⟩ := Outcome.bind_eq_ok.mp done
      cases done
      have moves : Frames tick f s.currPCB s.toScheduler u := kernelBrk_frames rfl moved
      exact moves.sysReturn (s.withScheduler u) _ _
  | delay clockTicks =>
      obtain ⟨flow, slept, done⟩ := Outcome.bind_eq_ok.mp done
      cases done
      rw [finishScheduler_eq]
      exact (kernelDelay_frames (delays _ rfl) rfl slept).framed _
  | reclaim id =>
      obtain ⟨⟨code, u⟩, called, done⟩ := Outcome.bind_eq_ok.mp done
      cases done
      exact (kernelReclaim_frames called).sysReturn u _ _
  | ttyRead ttyId buf len =>
      obtain ⟨flow, read, done⟩ := Outcome.bind_eq_ok.mp done
      cases done
      exact (kernelTtyRead_frames read _).framed
  | ttyWrite ttyId buf len bytes =>
      obtain ⟨flow, written, done⟩ := Outcome.bind_eq_ok.mp done
      cases done
      rw [finishScheduler_eq]
      exact (kernelTtyWrite_frames written).framed _
  | lockInit =>
      obtain ⟨⟨code, u⟩, called, done⟩ := Outcome.bind_eq_ok.mp done
      cases done
      exact (kernelLockInit_frames called).sysReturn u _ _
  | acquire lockId =>
      obtain ⟨flow, called, done⟩ := Outcome.bind_eq_ok.mp done
      cases done
      exact (kernelAcquire_frames called _).framed
  | release lockId =>
      obtain ⟨⟨code, u⟩, called, done⟩ := Outcome.bind_eq_ok.mp done
      cases done
      exact (kernelRelease_frames called).sysReturn u _ _
  | cvarInit =>
      obtain ⟨⟨code, u⟩, called, done⟩ := Outcome.bind_eq_ok.mp done
      cases done
      exact (kernelCvarInit_frames called).sysReturn u _ _
  | cvarSignal cvarId =>
      obtain ⟨⟨code, u⟩, called, done⟩ := Outcome.bind_eq_ok.mp done
      cases done
      exact (kernelCvarSignal_frames called).sysReturn u _ _
  | cvarBroadcast cvarId =>
      obtain ⟨⟨code, u⟩, called, done⟩ := Outcome.bind_eq_ok.mp done
      cases done
      exact (kernelCvarBroadcast_frames called).sysReturn u _ _
  | cvarWait cvarId lockId =>
      obtain ⟨flow, called, done⟩ := Outcome.bind_eq_ok.mp done
      cases done
      exact (kernelCvarWait_frames called _).framed
  | pipeInit =>
      obtain ⟨⟨code, u⟩, called, done⟩ := Outcome.bind_eq_ok.mp done
      cases done
      exact (kernelPipeInit_frames called).sysReturn u _ _
  | pipeRead pipeId len =>
      obtain ⟨flow, called, done⟩ := Outcome.bind_eq_ok.mp done
      cases done
      exact (kernelPipeRead_frames called _).framed
  | pipeWrite pipeId len bytes =>
      obtain ⟨⟨code, u⟩, called, done⟩ := Outcome.bind_eq_ok.mp done
      cases done
      exact (kernelPipeWrite_frames called).sysReturn u _ _
  | unknown => cases done

theorem resumeKernel_framed {junk : PCB} (done : resumeKernel junk s = .ok t) :
    Framed tick f s.toScheduler t.toScheduler := by
  refine Frames.framed ?_
  unfold resumeKernel at done
  split at done
  · cases done
  · exact Except.ok.inj done ▸ .pcbs rfl rfl rfl rfl
  · exact Except.ok.inj done ▸ .pcbs rfl rfl rfl rfl
  · obtain ⟨u, exited, done⟩ := Outcome.bind_eq_ok.mp done
    exact Except.ok.inj done ▸ kernelExit_frames rfl exited
  · exact Except.ok.inj done ▸ .pcbs rfl rfl rfl rfl
  · exact Except.ok.inj done ▸ .pcbs rfl rfl rfl rfl
  · cases collected : kernelWaitCollect s.toScheduler with
    | mk code u =>
        rw [collected] at done
        exact Except.ok.inj done ▸ (kernelWaitCollect_frames collected).trans (.pcbs rfl rfl rfl rfl)
  · obtain ⟨flow, called, done⟩ := Outcome.bind_eq_ok.mp done
    exact Except.ok.inj done ▸ acquireLoop_frames called _
  · obtain ⟨flow, called, done⟩ := Outcome.bind_eq_ok.mp done
    exact Except.ok.inj done ▸ kernelAcquire_frames called _
  · obtain ⟨flow, called, done⟩ := Outcome.bind_eq_ok.mp done
    exact Except.ok.inj done ▸ pipeReadLoop_frames called _
  · rename_i tty call r0Buf _
    cases done
    rw [finishScheduler_eq]
    exact (ttyWriteLoop_frames tty call r0Buf s.toScheduler).finish call
  · rename_i tty call r0Buf sent _
    cases done
    rw [finishScheduler_eq]
    exact (transmitLoop_frames tty call r0Buf sent s.toScheduler).finish call
  · obtain ⟨flow, read, done⟩ := Outcome.bind_eq_ok.mp done
    exact Except.ok.inj done ▸ readBufferLoop_frames read _

/-- A tick and a delay move sleepers. -/
def Input.movesSleepers : Input → Bool
  | .clock => true
  | .kernelCall (.delay _) _ => true
  | _ => false

/-- Each step of the machine is framed when the part ignores the ticks of a tick. -/
theorem handle_framed (placed : Placed s.toScheduler) (family : Family s.crowd) {i : Input}
    (ready : enabled s i = true)
    (blind : i = .clock → ∀ pcb n, f { pcb with numRemainingDelayTicks := n } = f pcb)
    (done : handle s i = .ok t) :
    Framed (i.movesSleepers = true) f s.toScheduler t.toScheduler := by
  cases i with
  | kernelCall call oracle =>
      simp only [enabled, Bool.and_eq_true, decide_eq_true_eq] at ready
      refine handleTrapKernel_framed placed family ready.1.2 ?_ done
      rintro clockTicks rfl
      rfl
  | clock =>
      obtain ⟨u, ticked, done⟩ := Outcome.bind_eq_ok.mp done
      exact Except.ok.inj done ▸ (handleTrapClock_frames rfl (blind rfl) ticked).framed
  | illegal => exact Except.ok.inj done ▸ Frames.framed (.pcbs rfl rfl rfl rfl)
  | math => exact Except.ok.inj done ▸ Frames.framed (.pcbs rfl rfl rfl rfl)
  | memory addr =>
      obtain ⟨u, handled, done⟩ := Outcome.bind_eq_ok.mp done
      exact Except.ok.inj done ▸ (handleTrapMemory_frames rfl handled).framed
  | ttyReceive tty line => exact (writeBuffer_frames done).framed
  | ttyTransmit tty =>
      obtain ⟨u, handled, done⟩ := Outcome.bind_eq_ok.mp done
      exact Except.ok.inj done ▸ (handleTtyTransmit_frames handled).framed
  | disk => cases done
  | resume junk => exact resumeKernel_framed done

end

end

end Yallnix

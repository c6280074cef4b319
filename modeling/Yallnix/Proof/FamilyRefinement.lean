import Yallnix.Proof.ProcessRefinement

namespace Yallnix

section
variable [Hardware]

/-- The links between parents and children and the pids of live processes. -/
structure Family (c : Crowd) : Prop where
  pidUsed : ∀ a ∈ c.live, (c.proc a).pid < c.nextPid
  pidDistinct : ∀ a ∈ c.live, ∀ b ∈ c.live, (c.proc a).pid = (c.proc b).pid → a = b
  parentLive : ∀ a ∈ c.live, ∀ q, (c.proc a).parent = some q →
    q ∈ c.live ∧ ((c.proc a).pid, a) ∈ (c.proc q).children
  childPid : ∀ a ∈ c.live, ∀ node ∈ (c.proc a).children, node.1 < c.nextPid

/-- A new PCB, the frames and the pid counter change, and nothing else does. -/
structure Apart (child : Addr) (s t : Scheduler) : Prop where
  currPCB : t.currPCB = s.currPCB
  cpu : t.cpu = s.cpu
  idlePCB : t.idlePCB = s.idlePCB
  initPid : t.initPid = s.initPid
  readyQ : t.readyQ = s.readyQ
  blockedMap : t.blockedMap = s.blockedMap
  sleepingMap : t.sleepingMap = s.sleepingMap
  currTransmitters : t.currTransmitters = s.currTransmitters
  transmittingQs : t.transmittingQs = s.transmittingQs
  readingQs : t.readingQs = s.readingQs
  transmitting : t.transmitting = s.transmitting
  live : t.live = s.live
  log : t.log = s.log
  nextPid : s.nextPid ≤ t.nextPid
  allocated : s.allocated ⊆ t.allocated
  pcbs : ∀ a, a ≠ child → t.pcbs a = s.pcbs a

theorem Apart.refl (child : Addr) (s : Scheduler) : Apart child s s :=
  ⟨rfl, rfl, rfl, rfl, rfl, rfl, rfl, rfl, rfl, rfl, rfl, rfl, rfl, le_refl _, Finset.Subset.refl _,
    fun _ _ => rfl⟩

theorem Apart.trans {child : Addr} {s t u : Scheduler} (one : Apart child s t)
    (two : Apart child t u) : Apart child s u where
  currPCB := two.currPCB.trans one.currPCB
  cpu := two.cpu.trans one.cpu
  idlePCB := two.idlePCB.trans one.idlePCB
  initPid := two.initPid.trans one.initPid
  readyQ := two.readyQ.trans one.readyQ
  blockedMap := two.blockedMap.trans one.blockedMap
  sleepingMap := two.sleepingMap.trans one.sleepingMap
  currTransmitters := two.currTransmitters.trans one.currTransmitters
  transmittingQs := two.transmittingQs.trans one.transmittingQs
  readingQs := two.readingQs.trans one.readingQs
  transmitting := two.transmitting.trans one.transmitting
  live := two.live.trans one.live
  log := two.log.trans one.log
  nextPid := one.nextPid.trans two.nextPid
  allocated := one.allocated.trans two.allocated
  pcbs a other := (two.pcbs a other).trans (one.pcbs a other)

theorem apart_updatePcb (child : Addr) (f : PCB → PCB) (s : Scheduler) (frames : FrameList)
    (r0PageTable : PageTable) :
    Apart child s { s.updatePcb child f with frameList := frames, r0PageTable := r0PageTable } :=
  ⟨rfl, rfl, rfl, rfl, rfl, rfl, rfl, rfl, rfl, rfl, rfl, rfl, rfl, le_refl _, Finset.Subset.refl _,
    fun _ other => Function.update_of_ne other _ _⟩

theorem Apart.pos {child : Addr} {s t : Scheduler} (apart : Apart child s t)
    {a : Addr} (other : a ≠ child) : t.pos a = s.pos a := by
  simp only [Scheduler.pos, apart.currPCB, apart.cpu, apart.pcbs a other]

theorem Apart.settled {child : Addr} {s t : Scheduler} (apart : Apart child s t)
    (placed : Placed s) (fresh : child ∉ s.live) : Settled t s.pos {t.currPCB} := by
  rw [apart.currPCB]
  refine Settled.frame placed ⟨apart.live, apart.allocated, ?_, apart.nextPid,
    apart.currTransmitters, apart.transmitting, apart.idlePCB⟩ ?_ ?_ ?_
  · intro a live
    rw [apart.pcbs a (fun same => fresh (same ▸ live))]
  · intro place a
    cases place <;> simp only [Scheduler.occurs, apart.readyQ, apart.blockedMap,
      apart.sleepingMap, apart.transmittingQs, apart.readingQs]
  · rw [apart.blockedMap]
    exact List.Subset.refl _
  · rw [apart.sleepingMap]
    exact List.Subset.refl _

theorem Apart.placed {child : Addr} {s t : Scheduler} (apart : Apart child s t)
    (placed : Placed s) (fresh : child ∉ s.live) : Placed t :=
  (apart.settled placed fresh).congr fun _ live =>
    apart.pos fun same => fresh (same ▸ apart.live ▸ live)

theorem Apart.proc {child a : Addr} {s t : Scheduler} (apart : Apart child s t)
    (other : a ≠ child) : t.proc a = s.proc a := by
  simp only [Scheduler.proc, apart.pos other, apart.pcbs a other]

theorem Apart.crowd {child : Addr} {s t : Scheduler} (apart : Apart child s t) :
    t.crowd = { s.crowd.update child (fun _ => t.proc child) with nextPid := t.nextPid } := by
  have proc (a : Addr) :
      t.proc a = (s.crowd.update child fun _ => t.proc child).proc a := by
    rw [Crowd.update_proc]
    by_cases same : a = child
    · subst same
      rw [Function.update_self]
    · rw [Function.update_of_ne same]
      exact apart.proc same
  simp only [Scheduler.crowd, Crowd.update, Crowd.mk.injEq, apart.live, apart.blockedMap,
    apart.log, true_and, and_true]
  exact funext proc

/-- The loop of `initPCB` fills the stack slots of the new PCB only. -/
theorem takeStackFrames_apart {newPCB : Addr} {slots : List (Fin kernelStackPages)}
    {s t : Scheduler} {taken : Bool} (done : takeStackFrames newPCB slots s = (taken, t)) :
    Apart newPCB s t ∧ t.nextPid = s.nextPid ∧ t.allocated = s.allocated ∧
      t.r0PageTable = s.r0PageTable ∧
      ∃ stackPfns, t.pcbs newPCB = { s.pcbs newPCB with stackPfns := stackPfns } := by
  induction slots generalizing s with
  | nil =>
      obtain ⟨_, rfl⟩ := Prod.mk.inj done
      exact ⟨.refl _ _, rfl, rfl, rfl, _, rfl⟩
  | cons i rest ih =>
      simp only [takeStackFrames] at done
      split at done
      · obtain ⟨_, rfl⟩ := Prod.mk.inj done
        exact ⟨⟨rfl, rfl, rfl, rfl, rfl, rfl, rfl, rfl, rfl, rfl, rfl, rfl, rfl, le_refl _,
          Finset.Subset.refl _, fun _ _ => rfl⟩, rfl, rfl, rfl, _, rfl⟩
      · obtain ⟨apart, nextPid, allocated, r0PageTable, stackPfns, pcb⟩ := ih done
        refine ⟨Apart.trans ?_ apart, nextPid, allocated,
          r0PageTable, stackPfns, ?_⟩
        · exact ⟨rfl, rfl, rfl, rfl, rfl, rfl, rfl, rfl, rfl, rfl, rfl, rfl, rfl, le_refl _,
            Finset.Subset.refl _, fun _ other => Function.update_of_ne other _ _⟩
        · rw [pcb]
          simp only [Scheduler.updatePcb, Function.update_self]

/-- The deletion of a new PCB gives its address back. -/
theorem deleteProcess_apart {newPCB : Addr} {junk : PCB} {s t : Scheduler}
    (fresh : newPCB ∉ s.allocated) (apart : Apart newPCB s t)
    (allocated : t.allocated = insert newPCB s.allocated) :
    Apart newPCB s (deleteProcess newPCB junk t) :=
  { apart with
    allocated := by
      change s.allocated ⊆ t.allocated.erase newPCB
      rw [allocated, Finset.erase_insert fresh]
    pcbs := fun a other => (Function.update_of_ne other _ _).trans (apart.pcbs a other) }

/-- `initPCB` makes an empty process under the next pid or gives up. -/
theorem initPCB_apart {newPCB : Addr} {junk : PCB} {s t : Scheduler} {code : Int}
    (fresh : newPCB ∉ s.allocated) (done : initPCB newPCB junk s = (code, t)) :
    Apart newPCB s t ∧ t.nextPid = s.nextPid + 1 ∧ t.r0PageTable = s.r0PageTable ∧
      (code = errorCode ∨ code = successCode ∧ newPCB ∈ t.allocated ∧
        (t.pcbs newPCB).pid = s.nextPid ∧ (t.pcbs newPCB).zombieQ = none ∧
        (t.pcbs newPCB).childrenMap.entries = [] ∧ (t.pcbs newPCB).parent = none ∧
        (t.pcbs newPCB).kctxt = none) := by
  unfold initPCB at done
  dsimp only at done
  generalize start : ({ s.updatePcb newPCB fun pcb =>
      { pcb with
        pid := s.nextPid
        childrenMap := hashMapNew childrenMapHashBuckets childrenMapHashBuckets_pos
        kctxt := none
        parent := none
        zombieQ := none
        r1PageTable := initializeRegionPageTable
        numRemainingDelayTicks := 0
        numChildren := 0 } with
    nextPid := s.nextPid + 1
    allocated := insert newPCB s.allocated } : Scheduler) = u at done
  have begun : Apart newPCB s u := by
    rw [← start]
    exact ⟨rfl, rfl, rfl, rfl, rfl, rfl, rfl, rfl, rfl, rfl, rfl, rfl, rfl,
      Int.le_add_one (le_refl s.nextPid),
      Finset.subset_insert _ _, fun _ other => Function.update_of_ne other _ _⟩
  have nextPid : u.nextPid = s.nextPid + 1 := by rw [← start]
  have allocated : u.allocated = insert newPCB s.allocated := by rw [← start]
  have r0PageTable : u.r0PageTable = s.r0PageTable := by rw [← start]; rfl
  cases loop : takeStackFrames newPCB (List.finRange kernelStackPages) u with
  | mk taken v =>
      obtain ⟨apart, samePid, sameAllocated, sameR0, stackPfns, pcb⟩ := takeStackFrames_apart loop
      rw [loop] at done
      cases taken with
      | true =>
          obtain ⟨rfl, rfl⟩ := Prod.mk.inj done
          refine ⟨begun.trans apart, samePid.trans nextPid, sameR0.trans r0PageTable,
            .inr ⟨rfl, ?_, ?_, ?_, ?_, ?_, ?_⟩⟩
          · rw [sameAllocated, allocated]
            exact Finset.mem_insert_self _ _
          all_goals
            rw [pcb, ← start]
            simp [Scheduler.updatePcb]
      | false =>
          obtain ⟨rfl, rfl⟩ := Prod.mk.inj done
          refine ⟨?_, samePid.trans nextPid, sameR0.trans r0PageTable, .inl rfl⟩
          exact deleteProcess_apart fresh (begun.trans apart) (sameAllocated.trans allocated)

theorem forkTo_pcbs (k : Pos) (child a : Addr) (s : Scheduler) :
    ∃ kctxt, (forkTo k child s).pcbs a = { s.pcbs a with kctxt := kctxt } := by
  simp only [forkTo, Scheduler.updatePcb]
  by_cases isChild : a = child
  · subst isChild
    by_cases isCurr : a = s.currPCB
    · subst isCurr
      exact ⟨_, by rw [Function.update_self, Function.update_self]⟩
    · exact ⟨_, by rw [Function.update_self, Function.update_of_ne isCurr]⟩
  · by_cases isCurr : a = s.currPCB
    · subst isCurr
      exact ⟨_, by rw [Function.update_of_ne isChild, Function.update_self]⟩
    · exact ⟨_, by rw [Function.update_of_ne isChild, Function.update_of_ne isCurr]⟩

/-- The parent and the child resume at the same point of `KernelFork`. -/
theorem forkTo_pos (k : Pos) (child a : Addr) (s : Scheduler) :
    (forkTo k child s).pos a = if a = child ∨ a = s.currPCB then k else s.pos a := by
  simp only [forkTo, Scheduler.pos, Scheduler.updatePcb]
  by_cases isChild : a = child
  · simp [isChild]
  · by_cases isCurr : a = s.currPCB
    · subst isCurr
      simp [isChild]
    · simp [isChild, isCurr]

/-- A new child has the next pid and its parent, and no children and no zombies. -/
structure NewChild (s w : Scheduler) (child : Addr) : Prop where
  apart : Apart child s w
  nextPid : w.nextPid = s.nextPid + 1
  allocated : child ∈ w.allocated
  pid : (w.pcbs child).pid = s.nextPid
  zombieQ : (w.pcbs child).zombieQ = none
  children : (w.pcbs child).childrenMap.entries = []
  parent : (w.pcbs child).parent = some s.currPCB

/-- `KernelFork` puts the child into the map of its parent. -/
def adopt (s : Scheduler) (childrenMap : HashMap Addr) : Scheduler :=
  s.updatePcb s.currPCB fun pcb =>
    { pcb with childrenMap := childrenMap, numChildren := pcb.numChildren + 1 }

section
variable {s w : Scheduler} {child : Addr} {childrenMap : HashMap Addr}

theorem NewChild.adopt_apart (new : NewChild s w child) (childrenMap : HashMap Addr) (a : Addr)
    (notCurr : a ≠ s.currPCB) :
    (adopt w childrenMap).pcbs a = w.pcbs a := by
  rw [← new.apart.currPCB] at notCurr
  exact Function.update_of_ne notCurr _ _

theorem NewChild.adopt_curr (new : NewChild s w child) (differs : s.currPCB ≠ child) :
    (adopt w childrenMap).pcbs s.currPCB = { s.curr with
      childrenMap := childrenMap
      numChildren := s.curr.numChildren + 1 } := by
  rw [← new.apart.currPCB]
  simp only [adopt, Scheduler.updatePcb, Function.update_self]
  rw [new.apart.currPCB, new.apart.pcbs _ differs]
  rfl

theorem NewChild.adopt_pid (new : NewChild s w child) (differs : s.currPCB ≠ child) (a : Addr)
    (other : a ≠ child) : ((adopt w childrenMap).pcbs a).pid = (s.pcbs a).pid := by
  by_cases isCurr : a = s.currPCB
  · subst isCurr
    rw [new.adopt_curr differs]
    rfl
  · rw [new.adopt_apart childrenMap a isCurr, new.apart.pcbs a other]

/-- The new PCB and the map of the parent are not visible to the containers. -/
theorem NewChild.adopted (new : NewChild s w child) (placed : Placed s) (fresh : child ∉ s.live) :
    Settled (adopt w childrenMap) s.pos {s.currPCB} := by
  have differs : s.currPCB ≠ child := fun same => fresh (same ▸ placed.live)
  have before := new.apart.settled placed fresh
  rw [new.apart.currPCB] at before
  refine before.frame ⟨rfl, Finset.Subset.refl _, fun a aLive => ?_, le_refl _, rfl, rfl, rfl⟩
    (by intro place a; cases place <;> rfl) (List.Subset.refl _) (List.Subset.refl _)
  have other : a ≠ child := fun same => fresh (same ▸ new.apart.live ▸ aLive)
  rw [new.adopt_pid differs a other, new.apart.pcbs a other]

/-- The parent goes to `readyQ` and the child runs. -/
theorem NewChild.placed (new : NewChild s w child) (placed : Placed s) (family : Family s.crowd)
    (user : s.cpu = .user) (notIdle : s.currPCB ≠ s.idlePCB) (fresh : child ∉ s.live)
    (event : Event) :
    Placed (forkTo (.fork s.currPCB child) child (({ adopt w childrenMap with
      readyQ := enqQ (adopt w childrenMap).readyQ (adopt w childrenMap).currPCB
      live := insert child (adopt w childrenMap).live } : Scheduler).record event)) := by
  have differs : s.currPCB ≠ child := fun same => fresh (same ▸ placed.live)
  have apart := new.apart
  have curr : (adopt w childrenMap).currPCB = s.currPCB := apart.currPCB
  have live : (adopt w childrenMap).live = s.live := apart.live
  have adopted : Settled (adopt w childrenMap) s.pos {s.currPCB} := new.adopted placed fresh
  have childPid : ((adopt w childrenMap).pcbs child).pid = s.nextPid := by
    rw [new.adopt_apart childrenMap child (Ne.symm differs)]
    exact new.pid
  have joined := adopted.join (k := .fork s.currPCB child) (by rwa [live]) new.allocated
    (by
      rw [childPid]
      have used := (placed.pidUsed _ placed.live)
      refine ⟨by omega, ?_⟩
      change s.nextPid < w.nextPid
      rw [new.nextPid]
      omega)
    (by
      intro b bLive
      rw [live] at bLive
      rw [childPid, new.adopt_pid differs b (fun same => fresh (same ▸ bLive))]
      have used : (s.pcbs b).pid < s.nextPid := family.pidUsed b bLive
      omega) rfl
  have parked := joined.park (a := s.currPCB) (k := .fork s.currPCB child)
    (t := { adopt w childrenMap with
      live := insert child (adopt w childrenMap).live
      readyQ := enqQ (adopt w childrenMap).readyQ s.currPCB })
    ⟨rfl, Finset.Subset.refl _, fun _ _ => rfl, le_refl _, rfl, rfl, rfl⟩
    (gains_ready _ s.currPCB) (Finset.mem_insert_of_mem (Finset.mem_singleton_self _))
    (fun _ => Or.inl) (fun _ => Or.inl)
    (by
      rw [Function.update_of_ne differs, Scheduler.pos_curr, user]
      rfl) rfl trivial (fun same => absurd (same.trans apart.idlePCB) notIdle)
  have out : (insert child {s.currPCB} : Finset Addr).erase s.currPCB = {child} := by
    rw [Finset.pair_comm, Finset.erase_insert]
    rw [Finset.mem_singleton]
    exact differs
  rw [out] at parked
  refine Placed.of (Function.update (Function.update s.pos child (.fork s.currPCB child))
    s.currPCB (.fork s.currPCB child)) ?_ ?_
  · refine parked.frame ⟨rfl, Finset.Subset.refl _, fun a _ => ?_, le_refl _, rfl, rfl, rfl⟩ ?_
      (List.Subset.refl _) (List.Subset.refl _)
    · obtain ⟨kctxt, same⟩ := forkTo_pcbs (.fork s.currPCB child) child a
        (({ adopt w childrenMap with
          readyQ := enqQ (adopt w childrenMap).readyQ (adopt w childrenMap).currPCB
          live := insert child (adopt w childrenMap).live } : Scheduler).record event)
      rw [same]
      rfl
    · intro place a
      rw [← curr]
      cases place <;> rfl
  · intro a
    rw [forkTo_pos]
    change (if a = child ∨ a = (adopt w childrenMap).currPCB then _ else
      (adopt w childrenMap).pos a) = _
    rw [curr]
    by_cases isCurr : a = s.currPCB
    · simp [isCurr]
    · by_cases isChild : a = child
      · simp [isChild, Ne.symm differs]
      · simp only [isCurr, isChild, or_self, if_false, Function.update_of_ne, ne_eq,
          not_false_eq_true]
        rw [← apart.pos isChild]
        simp only [Scheduler.pos, curr, apart.currPCB, new.adopt_apart childrenMap a isCurr]
        rfl

/-- The abstract scheduler sees the new child and its parent. -/
theorem NewChild.crowd (new : NewChild s w child) (differs : s.currPCB ≠ child)
    (added : ∀ node, node ∈ childrenMap.entries ↔
      node = (s.nextPid, child) ∨ node ∈ s.curr.childrenMap.entries) :
    (forkTo (.fork s.currPCB child) child (({ adopt w childrenMap with
      readyQ := enqQ (adopt w childrenMap).readyQ (adopt w childrenMap).currPCB
      live := insert child (adopt w childrenMap).live } : Scheduler).record
        (.forked s.curr.pid s.nextPid))).crowd = s.crowd.fork s.currPCB child := by
  have apart := new.apart
  have curr : (adopt w childrenMap).currPCB = s.currPCB := apart.currPCB
  generalize state : (({ adopt w childrenMap with
      readyQ := enqQ (adopt w childrenMap).readyQ (adopt w childrenMap).currPCB
      live := insert child (adopt w childrenMap).live } : Scheduler).record
        (.forked s.curr.pid s.nextPid)) = u
  have pcbs : u.pcbs = (adopt w childrenMap).pcbs := by rw [← state]; rfl
  have sameCurr : u.currPCB = s.currPCB := by rw [← state]; exact curr
  have proc (a : Addr) : (forkTo (.fork s.currPCB child) child u).proc a =
      (s.crowd.fork s.currPCB child).proc a := by
    obtain ⟨kctxt, same⟩ := forkTo_pcbs (.fork s.currPCB child) child a u
    have pos := forkTo_pos (.fork s.currPCB child) child a u
    rw [sameCurr] at pos
    simp only [Crowd.fork, Crowd.update_proc]
    by_cases isChild : a = child
    · subst isChild
      rw [Function.update_self]
      have point : (forkTo (.fork s.currPCB a) a u).pos a = .fork s.currPCB a := by
        rw [pos, if_pos (.inl rfl)]
      simp only [Scheduler.proc, point]
      simp only [same, pcbs, new.adopt_apart childrenMap a (Ne.symm differs), new.pid, new.parent,
        new.zombieQ, new.children, List.not_mem_nil]
      rfl
    · rw [Function.update_of_ne isChild]
      by_cases isCurr : a = s.currPCB
      · subst isCurr
        rw [Function.update_self]
        have point : (forkTo (.fork s.currPCB child) child u).pos s.currPCB =
            .fork s.currPCB child := by
          rw [pos, if_pos (.inr rfl)]
        have children : {node | node ∈ childrenMap.entries} =
            insert (s.nextPid, child) {node | node ∈ s.curr.childrenMap.entries} :=
          Set.ext added
        simp only [Scheduler.proc, point]
        simp only [same, pcbs, new.adopt_curr differs, children]
        rfl
      · rw [Function.update_of_ne isCurr]
        have before : u.pos a = s.pos a := by
          rw [← apart.pos isChild]
          simp only [Scheduler.pos, sameCurr, pcbs, apart.currPCB, new.adopt_apart childrenMap a isCurr, isCurr,
            if_false]
        rw [if_neg (by simp [isChild, isCurr]), before] at pos
        refine Scheduler.proc_congr ?_ ?_ ?_ ?_ _ pos
        all_goals rw [same, pcbs, new.adopt_apart childrenMap a isCurr, apart.pcbs a isChild]
  have live : u.live = insert child s.live := by
    rw [← state]
    exact congrArg (insert child) apart.live
  have blocked : u.blockedMap = s.blockedMap := by
    rw [← state]
    exact apart.blockedMap
  have nextPid : u.nextPid = s.nextPid + 1 := by
    rw [← state]
    exact new.nextPid
  have log : u.log = .forked s.curr.pid s.nextPid :: s.log := by
    rw [← state]
    exact congrArg _ apart.log
  have result : (forkTo (.fork s.currPCB child) child u).crowd =
      ⟨u.live, {a | a ∈ u.blockedMap.items}, (forkTo (.fork s.currPCB child) child u).proc,
        u.nextPid, u.log⟩ := rfl
  rw [result, funext proc, live, blocked, nextPid, log]
  rfl

end

/-- A fork that runs out of frames leaves only the PCB that it began. -/
theorem forkFailed_refines {s t : Scheduler} {child : Addr} (placed : Placed s)
    (user : s.cpu = .user) (fresh : child ∉ s.live) (apart : Apart child s t)
    (nextPid : t.nextPid = s.nextPid + 1) :
    Placed ((Flow.ret t errorCode).finish .fork) ∧
      s.crowd.Step s.currPCB t.currPCB ((Flow.ret t errorCode).finish .fork).crowd := by
  obtain ⟨result, crowd⟩ := sysReturn_refines (apart.placed placed fresh) .fork errorCode
    (by rw [apart.cpu, user]; rfl)
  refine ⟨result, ?_⟩
  change s.crowd.Step s.currPCB t.currPCB (t.sysReturn .fork errorCode).crowd
  rw [crowd, apart.crowd, nextPid, apart.currPCB]
  exact .forkFailed (s.pos_curr.trans user) fresh

theorem forkProcess_go {s w : Scheduler} {child : Addr} {childrenMap : HashMap Addr}
    (new : NewChild s w child) (differs : s.currPCB ≠ child) :
    forkProcess (.fork s.currPCB child) child (adopt w childrenMap) =
      .go (forkTo (.fork s.currPCB child) child (({ adopt w childrenMap with
        readyQ := enqQ (adopt w childrenMap).readyQ (adopt w childrenMap).currPCB
        live := insert child (adopt w childrenMap).live } : Scheduler).record
          (.forked s.curr.pid s.nextPid))) := by
  have curr : (adopt w childrenMap).currPCB = s.currPCB := new.apart.currPCB
  have childPcb := new.adopt_apart childrenMap child (Ne.symm differs)
  have currPid : (adopt w childrenMap).curr.pid = s.curr.pid := by
    rw [Scheduler.curr, curr]
    exact new.adopt_pid differs s.currPCB differs
  have parentPid : ((adopt w childrenMap).pcbs s.currPCB).pid = s.curr.pid :=
    new.adopt_pid differs s.currPCB differs
  simp only [forkProcess, childPcb, new.parent, parentPid, currPid, ne_eq, not_true_eq_false,
    if_false]
  have sameLog : (({ adopt w childrenMap with
      readyQ := enqQ (adopt w childrenMap).readyQ (adopt w childrenMap).currPCB
      live := insert child (adopt w childrenMap).live } : Scheduler).curr).pid = s.curr.pid :=
    currPid
  rw [sameLog, new.pid]

/-- `KernelFork` fills the PCB that `initPCB` made and gives it a parent. -/
theorem NewChild.built {s u : Scheduler} {child : Addr} (apart : Apart child s u)
    (nextPid : u.nextPid = s.nextPid + 1) (allocated : child ∈ u.allocated)
    (pid : (u.pcbs child).pid = s.nextPid) (zombieQ : (u.pcbs child).zombieQ = none)
    (children : (u.pcbs child).childrenMap.entries = []) (uctxt : UserContext) (brk : Nat)
    (table : PageTable) (frames : FrameList) (r0PageTable : PageTable) :
    NewChild s (Scheduler.updatePcb
      { u.updatePcb child fun pcb =>
          { pcb with uctxt := uctxt, brk := brk, r1PageTable := table } with
        frameList := frames
        r0PageTable := r0PageTable }
      child fun pcb => { pcb with parent := some s.currPCB }) child := by
  refine ⟨apart.trans ?_, nextPid, allocated, ?_, ?_, ?_, ?_⟩
  · exact ⟨rfl, rfl, rfl, rfl, rfl, rfl, rfl, rfl, rfl, rfl, rfl, rfl, rfl, le_refl _,
      Finset.Subset.refl _, fun a other =>
        (Function.update_of_ne other _ _).trans (Function.update_of_ne other _ _)⟩
  · simpa [Scheduler.updatePcb] using pid
  · simpa [Scheduler.updatePcb] using zombieQ
  · simpa [Scheduler.updatePcb] using children
  · simp [Scheduler.updatePcb]

theorem NewChild.sameMap {s w : Scheduler} {child : Addr} (new : NewChild s w child)
    (differs : s.currPCB ≠ child) : (w.pcbs s.currPCB).childrenMap = s.curr.childrenMap := by
  rw [new.apart.pcbs _ differs]
  rfl

/-- The pid of the child is new, so the insertion into the map of its parent adds it. -/
theorem NewChild.inserts {s w : Scheduler} {child : Addr} (new : NewChild s w child)
    (differs : s.currPCB ≠ child) (placed : Placed s) (family : Family s.crowd)
    {inserted : Option (HashMap Addr)}
    (outcome : hashMapInsert (w.pcbs s.currPCB).childrenMap (w.pcbs child).pid child =
      .ok inserted) :
    ∃ childrenMap, inserted = some childrenMap ∧
      childrenMap.entries.Perm ((s.nextPid, child) :: s.curr.childrenMap.entries) := by
  rw [new.sameMap differs, new.pid] at outcome
  cases inserted with
  | none =>
      obtain ⟨a, entry⟩ := HashMap.mem_keys.mp (HashMap.insert_eq_none outcome)
      have used : s.nextPid < s.nextPid := family.childPid s.currPCB placed.live _ entry
      omega
  | some childrenMap =>
      obtain ⟨_, perm, _⟩ := HashMap.insert_eq_some outcome
      exact ⟨childrenMap, rfl, perm⟩

theorem NewChild.adopt_eq {s w : Scheduler} {child : Addr} (new : NewChild s w child)
    (differs : s.currPCB ≠ child) (inserted : Option (HashMap Addr)) :
    (w.updatePcb s.currPCB fun pcb =>
      { pcb with
        childrenMap := inserted.getD pcb.childrenMap
        numChildren := pcb.numChildren + 1 }) =
      adopt w (inserted.getD s.curr.childrenMap) := by
  rw [adopt, new.apart.currPCB, ← new.sameMap differs]
  rfl

/-- `KernelFork` gives up, or it runs a new child in the map of its parent. -/
theorem kernelFork_cases {s : Scheduler} (placed : Placed s) (family : Family s.crowd)
    {oracle : Oracle} (fresh : oracle.pcb ∉ s.allocated) {flow : Flow Scheduler}
    (done : kernelFork oracle s = .ok flow) :
    (∃ t, flow = .ret t errorCode ∧ Apart oracle.pcb s t ∧ t.nextPid = s.nextPid + 1) ∨
      ∃ w childrenMap, NewChild s w oracle.pcb ∧
        childrenMap.entries.Perm ((s.nextPid, oracle.pcb) :: s.curr.childrenMap.entries) ∧
        flow = .go (forkTo (.fork s.currPCB oracle.pcb) oracle.pcb
          (({ adopt w childrenMap with
            readyQ := enqQ (adopt w childrenMap).readyQ (adopt w childrenMap).currPCB
            live := insert oracle.pcb (adopt w childrenMap).live } : Scheduler).record
              (.forked s.curr.pid s.nextPid))) := by
  have notLive : oracle.pcb ∉ s.live := fun live => fresh (placed.allocated live)
  have differs : s.currPCB ≠ oracle.pcb := fun same => notLive (same ▸ placed.live)
  unfold kernelFork at done
  dsimp only at done
  cases begun : initPCB oracle.pcb oracle.junk s with
  | mk code u =>
  obtain ⟨apart, nextPid, _, made⟩ := initPCB_apart fresh begun
  rw [begun] at done
  dsimp only at done
  split at done
  · exact .inl ⟨u, (Except.ok.inj done).symm, apart, nextPid⟩
  rename_i succeeded
  obtain ⟨_, allocated, pid, zombieQ, children, _⟩ := made.resolve_left succeeded
  cases copy : copyPages (u.pcbs s.currPCB).r1PageTable u.frameList
      (u.r0PageTable.getD tempIndex ⟨false, protNone, 0⟩) with
  | mk copied memory =>
  obtain ⟨table, frames, temp⟩ := memory
  rw [copy] at done
  dsimp only at done
  split at done
  · exact .inl ⟨_, (Except.ok.inj done).symm,
      apart.trans (apart_updatePcb oracle.pcb _ u frames _), nextPid⟩
  obtain ⟨inserted, outcome, done⟩ := Outcome.bind_eq_ok.mp done
  have new := NewChild.built apart nextPid allocated pid zombieQ children
    (u.pcbs s.currPCB).uctxt (u.pcbs s.currPCB).brk table frames
    ((u.r0PageTable.set tempIndex temp).set tempIndex ⟨false, protNone, 0⟩)
  obtain ⟨childrenMap, rfl, perm⟩ := new.inserts differs placed family outcome
  rw [new.adopt_eq differs, Option.getD_some, forkProcess_go new differs] at done
  exact .inr ⟨_, childrenMap, new, perm, (Except.ok.inj done).symm⟩

/-- The new child runs in the next state. -/
theorem NewChild.refines {s w : Scheduler} {child : Addr} {childrenMap : HashMap Addr}
    (new : NewChild s w child) (placed : Placed s) (family : Family s.crowd)
    (user : s.cpu = .user) (notIdle : s.currPCB ≠ s.idlePCB) (fresh : child ∉ s.live)
    (perm : childrenMap.entries.Perm ((s.nextPid, child) :: s.curr.childrenMap.entries))
    {t : Scheduler}
    (result : t = forkTo (.fork s.currPCB child) child (({ adopt w childrenMap with
      readyQ := enqQ (adopt w childrenMap).readyQ (adopt w childrenMap).currPCB
      live := insert child (adopt w childrenMap).live } : Scheduler).record
        (.forked s.curr.pid s.nextPid))) :
    Placed t ∧ s.crowd.Step s.currPCB t.currPCB t.crowd := by
  have differs : s.currPCB ≠ child := fun same => fresh (same ▸ placed.live)
  subst result
  refine ⟨new.placed placed family user notIdle fresh _, ?_⟩
  have step : s.crowd.Step s.currPCB child (s.crowd.fork s.currPCB child) :=
    .fork (s.pos_curr.trans user) fresh rfl
  rw [← new.crowd differs (fun node => by rw [perm.mem_iff, List.mem_cons])] at step
  exact step

theorem kernelFork_refines {s : Scheduler} (placed : Placed s) (family : Family s.crowd)
    (user : s.cpu = .user) (notIdle : s.currPCB ≠ s.idlePCB) {oracle : Oracle}
    (fresh : oracle.pcb ∉ s.allocated) {flow : Flow Scheduler}
    (done : kernelFork oracle s = .ok flow) :
    Placed (flow.finish .fork) ∧
      s.crowd.Step s.currPCB (flow.finish .fork).currPCB (flow.finish .fork).crowd := by
  have notLive : oracle.pcb ∉ s.live := fun live => fresh (placed.allocated live)
  rcases kernelFork_cases placed family fresh done with
    ⟨t, rfl, apart, nextPid⟩ | ⟨w, childrenMap, new, perm, rfl⟩
  · exact forkFailed_refines placed user notLive apart nextPid
  · exact new.refines placed family user notIdle notLive perm rfl

/-- `KernelFork` blocks and wakes nobody. -/
theorem kernelFork_blockedMap {s : Scheduler} (placed : Placed s) (family : Family s.crowd)
    {oracle : Oracle} (fresh : oracle.pcb ∉ s.allocated) {flow : Flow Scheduler}
    (done : kernelFork oracle s = .ok flow) :
    (flow.finish .fork).blockedMap = s.blockedMap := by
  rcases kernelFork_cases placed family fresh done with
    ⟨t, rfl, apart, _⟩ | ⟨w, childrenMap, new, _, rfl⟩
  · exact apart.blockedMap
  · exact new.apart.blockedMap

/-- The iteration clears the parent field at every stored address. -/
theorem removeParent_fold (entries : List (Int × Addr)) (s : Scheduler) :
    ∃ pcbs, entries.foldl (fun state node => removeParent state node.1 node.2) s =
        { s with pcbs := pcbs } ∧
      ∀ a, pcbs a = { s.pcbs a with
        parent := if a ∈ entries.map Prod.snd then none else (s.pcbs a).parent } := by
  induction entries generalizing s with
  | nil => exact ⟨s.pcbs, rfl, fun a => by simp⟩
  | cons node rest ih =>
      obtain ⟨pcbs, result, each⟩ := ih (removeParent s node.1 node.2)
      refine ⟨pcbs, ?_, ?_⟩
      · rw [List.foldl_cons, result]
        rfl
      · intro a
        rw [each]
        simp only [removeParent, Scheduler.updatePcb, List.map_cons, List.mem_cons]
        by_cases same : a = node.2
        · subst same
          simp
        · rw [Function.update_of_ne same, if_congr (or_iff_right same) rfl rfl]

/-- The report to the parent changes its zombie queue and wakes it by pid. -/
theorem report_refines {s t : Scheduler} (placed : Placed s) (family : Family s.crowd)
    {status : Int} {parent : Addr} (isParent : s.curr.parent = some parent)
    (done : unblockProcess (.childExit s.currPCB)
      ((s.updatePcb parent fun pcb => { pcb with
        zombieQ := some (enqQ (pcb.zombieQ.getD makeQ) ⟨s.curr.pid, status⟩) }).pcbs parent).pid
      (s.updatePcb parent fun pcb => { pcb with
        zombieQ := some (enqQ (pcb.zombieQ.getD makeQ) ⟨s.curr.pid, status⟩) }) = .ok t) :
    Placed t ∧ s.crowd.Reports s.currPCB status t.crowd ∧ t.currPCB = s.currPCB ∧
      t.cpu = s.cpu ∧ t.idlePCB = s.idlePCB ∧ t.live = s.live ∧
      t.curr.childrenMap = s.curr.childrenMap := by
  obtain ⟨parentLive, _⟩ := family.parentLive s.currPCB placed.live parent isParent
  generalize state : (s.updatePcb parent fun pcb => { pcb with
    zombieQ := some (enqQ (pcb.zombieQ.getD makeQ) ⟨s.curr.pid, status⟩) }) = u at done
  have field {A : Type} (f : PCB → A)
      (keeps : ∀ (pcb : PCB) zombieQ, f { pcb with zombieQ := zombieQ } = f pcb) (a : Addr) :
      f (u.pcbs a) = f (s.pcbs a) := by
    rw [← state]
    simp only [Scheduler.updatePcb]
    by_cases same : a = parent
    · subst same
      rw [Function.update_self, keeps]
    · rw [Function.update_of_ne same]
  have curr : u.currPCB = s.currPCB := by rw [← state]; rfl
  have cpu : u.cpu = s.cpu := by rw [← state]; rfl
  have pos (a : Addr) : u.pos a = s.pos a := by
    have kctxt := field PCB.kctxt (fun _ _ => rfl) a
    simp only [Scheduler.pos, curr, cpu, kctxt]
  have reported : Placed u := by
    refine Placed.of s.pos ?_ pos
    rw [curr]
    refine Settled.frame placed ⟨?_, ?_, fun a _ => field PCB.pid (fun _ _ => rfl) a, ?_, ?_, ?_,
      ?_⟩ ?_ ?_ ?_
    all_goals subst state
    · rfl
    · exact Finset.Subset.refl _
    · exact le_refl _
    · rfl
    · rfl
    · rfl
    · intro place a
      cases place <;> rfl
    · exact List.Subset.refl _
    · exact List.Subset.refl _
  have proc (a : Addr) : u.proc a = (s.crowd.update parent fun proc =>
      { proc with zombies := enqQ proc.zombies ⟨s.curr.pid, status⟩ }).proc a := by
    rw [Crowd.update_proc]
    by_cases same : a = parent
    · subst same
      rw [Function.update_self]
      simp only [Scheduler.proc, pos]
      subst state
      simp only [Scheduler.updatePcb, Function.update_self]
      rfl
    · rw [Function.update_of_ne same]
      refine Scheduler.proc_congr (field PCB.pid (fun _ _ => rfl) a)
        (field PCB.parent (fun _ _ => rfl) a) (field PCB.childrenMap (fun _ _ => rfl) a) ?_ _
        (pos a)
      subst state
      simp only [Scheduler.updatePcb, Function.update_of_ne same]
  have crowd : u.crowd = s.crowd.update parent fun proc =>
      { proc with zombies := enqQ proc.zombies ⟨s.curr.pid, status⟩ } := by
    rw [Scheduler.crowd, funext proc]
    subst state
    rfl
  have samePid : (u.pcbs parent).pid = (s.pcbs parent).pid :=
    field PCB.pid (fun _ _ => rfl) parent
  obtain ⟨result, woken, sameCurr, sameCpu, sameIdle, samePcbs, sameLive⟩ :=
    unblockProcess_refines reported done
  rw [samePid, crowd] at woken
  refine ⟨result, .child isParent woken, sameCurr.trans curr, sameCpu.trans cpu,
    sameIdle.trans ?_, sameLive.trans ?_, ?_⟩
  · subst state
    rfl
  · subst state
    rfl
  · rw [Scheduler.curr, sameCurr, samePcbs, curr]
    exact field PCB.childrenMap (fun _ _ => rfl) s.currPCB

/-- After the report the exiting process disowns its children and goes away. -/
theorem depart_refines {s : Scheduler} (placed : Placed s) (point : s.cpu.isBatch = false)
    (notIdle : s.currPCB ≠ s.idlePCB) (junk : PCB) (pid status : Int) {next : Addr}
    {rest : Queue Addr} (queue : s.readyQ = next :: rest) :
    Placed (switchBetween .user none next
      { ({ deleteProcess s.currPCB junk (hashMapIterate s.curr.childrenMap removeParent s) with
          live := (hashMapIterate s.curr.childrenMap removeParent s).live.erase s.currPCB } :
            Scheduler).record (.exited pid status) with readyQ := rest }) ∧
      ∃ gone, (switchBetween .user none next
        { ({ deleteProcess s.currPCB junk (hashMapIterate s.curr.childrenMap removeParent s) with
          live := (hashMapIterate s.curr.childrenMap removeParent s).live.erase s.currPCB } :
            Scheduler).record (.exited pid status) with readyQ := rest }).crowd =
        ((s.crowd.disown (s.crowd.proc s.currPCB).children).remove s.currPCB gone).record
          (.exited pid status) := by
  obtain ⟨pcbs, iterated, each⟩ := removeParent_fold s.curr.childrenMap.entries s
  rw [HashMap.iterate_eq_foldl, iterated]
  generalize state : (({ deleteProcess s.currPCB junk { s with pcbs := pcbs } with
      live := ({ s with pcbs := pcbs } : Scheduler).live.erase s.currPCB } : Scheduler).record
        (.exited pid status)) = u
  have queued : u.readyQ = next :: rest := by rw [← state]; exact queue
  have remaining (a : Addr) (other : a ≠ s.currPCB) : u.pcbs a = pcbs a := by
    rw [← state]
    exact Function.update_of_ne other _ _
  have samePid (a : Addr) : (pcbs a).pid = (s.pcbs a).pid := by rw [each a]
  have disowned : Settled { s with pcbs := pcbs } s.pos {s.currPCB} :=
    Settled.frame placed ⟨rfl, Finset.Subset.refl _, fun a _ => samePid a, le_refl _, rfl,
      rfl, rfl⟩ (by intro place a; cases place <;> rfl) (List.Subset.refl _)
      (List.Subset.refl _)
  have left := disowned.leave junk (Finset.mem_singleton_self _)
    (by rwa [Scheduler.pos_curr]) notIdle
  rw [Finset.erase_singleton] at left
  have settled : Settled u s.pos ∅ := by
    rw [← state]
    exact left.frame ⟨rfl, Finset.Subset.refl _, fun _ _ => rfl, le_refl _, rfl, rfl, rfl⟩
      (by intro place a; cases place <;> rfl) (List.Subset.refl _) (List.Subset.refl _)
  have live : u.live = s.live.erase s.currPCB := by rw [← state]; rfl
  obtain ⟨dispatched, _, _⟩ := settled.dispatch queued
  have pos (a : Addr) (other : a ≠ s.currPCB) :
      (switchBetween .user none next { u with readyQ := rest }).pos a = s.pos a := by
    have kctxt : (u.pcbs a).kctxt = (s.pcbs a).kctxt := by
      rw [remaining a other, each]
    have same : u.currPCB = s.currPCB := by rw [← state]; rfl
    rw [switchBetween_none_pos (by rw [same]; exact other), Scheduler.pos_of_ne other, ← kctxt,
      Scheduler.pos_of_ne (by rw [same]; exact other)]
  constructor
  · refine Settled.congr (switchBetween_settled dispatched .user none next) fun a aLive => ?_
    have member : a ∈ u.live := aLive
    rw [live] at member
    exact pos a (Finset.ne_of_mem_erase member)
  · refine ⟨(switchBetween .user none next { u with readyQ := rest }).proc s.currPCB, ?_⟩
    have proc (a : Addr) : (switchBetween .user none next { u with readyQ := rest }).proc a =
        (((s.crowd.disown (s.crowd.proc s.currPCB).children).remove s.currPCB
          ((switchBetween .user none next { u with readyQ := rest }).proc s.currPCB)).record
            (.exited pid status)).proc a := by
      rw [Crowd.record_proc]
      simp only [Crowd.remove, Crowd.update_proc]
      by_cases same : a = s.currPCB
      · subst same
        rw [Function.update_self]
      · rw [Function.update_of_ne same]
        obtain ⟨kctxt, switched⟩ := switchBetween_pcbs .user none next a { u with readyQ := rest }
        have parent : (pcbs a).parent =
            open Classical in if ∃ key, (key, a) ∈ (s.crowd.proc s.currPCB).children then none
              else (s.crowd.proc a).parent := by
          rw [each]
          have inside : a ∈ s.curr.childrenMap.entries.map Prod.snd ↔
              ∃ key, (key, a) ∈ (s.crowd.proc s.currPCB).children := by
            rw [List.mem_map]
            constructor
            · rintro ⟨⟨key, b⟩, entry, rfl⟩
              exact ⟨key, entry⟩
            · rintro ⟨key, entry⟩
              exact ⟨_, entry, rfl⟩
          by_cases member : a ∈ s.curr.childrenMap.entries.map Prod.snd
          · exact (if_pos member).trans (if_pos (inside.mp member)).symm
          · exact (if_neg member).trans (if_neg fun found => member (inside.mpr found)).symm
        simp only [Scheduler.proc, pos a same, Crowd.disown, switched, remaining a same]
        rw [parent]
        simp only [each]
        rfl
    have result : (switchBetween .user none next { u with readyQ := rest }).crowd =
        ⟨u.live, {a | a ∈ u.blockedMap.items},
          (switchBetween .user none next { u with readyQ := rest }).proc, u.nextPid, u.log⟩ := rfl
    have blocked : u.blockedMap = s.blockedMap := by rw [← state]; rfl
    have nextPid : u.nextPid = s.nextPid := by rw [← state]; rfl
    have log : u.log = .exited pid status :: s.log := by rw [← state]; rfl
    rw [result, live, blocked, nextPid, log]
    exact congrArg (fun proc => (⟨s.live.erase s.currPCB, {a | a ∈ s.blockedMap.items}, proc,
      s.nextPid, .exited pid status :: s.log⟩ : Crowd)) (funext proc)

/-- An exit reports to the parent and switches to the head of `readyQ`. -/
theorem kernelExit_cases {s t : Scheduler} {status : Int} {junk : PCB}
    (done : kernelExit status junk s = .ok t) :
    ∃ u next rest, reportExit status s = .ok u ∧ u.readyQ = next :: rest ∧
      t = switchBetween .user none next
        { ({ deleteProcess u.currPCB junk (hashMapIterate u.curr.childrenMap removeParent u) with
            live := (hashMapIterate u.curr.childrenMap removeParent u).live.erase u.currPCB } :
              Scheduler).record (.exited s.curr.pid status) with readyQ := rest } := by
  unfold kernelExit at done
  split at done
  · cases done
  obtain ⟨flow, exited, done⟩ := Outcome.bind_eq_ok.mp done
  unfold exitProcess at exited
  dsimp only at exited
  obtain ⟨u, reported, exited⟩ := Outcome.bind_eq_ok.mp exited
  obtain ⟨pcbs, iterated, _⟩ := removeParent_fold u.curr.childrenMap.entries u
  rw [HashMap.iterate_eq_foldl, iterated] at exited
  simp only [deleteProcess, Scheduler.record, Scheduler.updatePcb] at exited
  cases queue : u.readyQ with
  | nil =>
      rw [queue] at exited
      obtain rfl := Except.ok.inj exited
      cases done
  | cons next rest =>
      rw [queue] at exited
      obtain rfl := Except.ok.inj exited
      refine ⟨u, next, rest, reported, queue, ?_⟩
      rw [HashMap.iterate_eq_foldl, iterated]
      exact (Except.ok.inj done).symm

theorem kernelExit_refines {s t : Scheduler} (placed : Placed s) (family : Family s.crowd)
    {status : Int} (point : s.cpu = .exit status) {junk : PCB}
    (done : kernelExit status junk s = .ok t) :
    Placed t ∧ s.crowd.Step s.currPCB t.currPCB t.crowd := by
  have notIdle : s.currPCB ≠ s.idlePCB := placed.not_idle (by rw [point]; rfl)
  obtain ⟨u, next, rest, reported, queue, rfl⟩ := kernelExit_cases done
  have report : Placed u ∧ s.crowd.Reports s.currPCB status u.crowd ∧ u.currPCB = s.currPCB ∧
      u.cpu = s.cpu ∧ u.idlePCB = s.idlePCB ∧ u.live = s.live ∧
      u.curr.childrenMap = s.curr.childrenMap := by
    unfold reportExit at reported
    split at reported
    · rename_i isParent
      cases reported
      exact ⟨placed, .orphan isParent, rfl, rfl, rfl, rfl, rfl⟩
    · rename_i parent isParent
      exact report_refines placed family isParent reported
  obtain ⟨settled, reports, curr, cpu, idlePCB, _, children⟩ := report
  obtain ⟨result, gone, crowd⟩ := depart_refines settled (by rw [cpu, point]; rfl)
    (by rw [curr, idlePCB]; exact notIdle) junk s.curr.pid status queue
  refine ⟨result, ?_⟩
  have step : s.crowd.Step s.currPCB next (((u.crowd.disown
      (s.crowd.proc s.currPCB).children).remove s.currPCB gone).record
        (.exited (s.crowd.proc s.currPCB).pid status)) :=
    .exit (s.pos_curr.trans point) reports
  have sameChildren : (u.crowd.proc u.currPCB).children = (s.crowd.proc s.currPCB).children :=
    congrArg (fun map : HashMap Addr => {node | node ∈ map.entries}) children
  rw [crowd, sameChildren, curr]
  exact step

end

end Yallnix

import Yallnix.Proof.FamilyRefinement

namespace Yallnix

section
variable [Hardware]

/-- These events change the family of a process. -/
def Event.isFamily : Event → Bool
  | .forked .. | .exited .. | .waited .. => true
  | _ => false

def Pos.isExit : Pos → Bool
  | .exit _ => true
  | _ => false

/-- The new events of a log are of one kind. -/
def Crowd.Writes (kind : Event → Prop) (c d : Crowd) : Prop :=
  ∃ events, d.log = events ++ c.log ∧ ∀ event ∈ events, kind event

namespace Crowd.Writes

variable {kind : Event → Prop} {c d e : Crowd}

theorem same (log : d.log = c.log) : Crowd.Writes kind c d := ⟨[], log, by simp⟩

theorem trans (one : Crowd.Writes kind c d) (two : Crowd.Writes kind d e) :
    Crowd.Writes kind c e := by
  obtain ⟨first, before, early⟩ := one
  obtain ⟨second, after, late⟩ := two
  refine ⟨second ++ first, by rw [after, before, List.append_assoc], ?_⟩
  intro event member
  exact (List.mem_append.mp member).elim (late event) (early event)

theorem record {event : Event} (allowed : kind event) (log : d.log = event :: c.log) :
    Crowd.Writes kind c d :=
  ⟨[event], log, by simpa using allowed⟩

theorem wake {cause : Cause} {pid : Int} (woken : Crowd.Wake cause pid c d)
    (allowed : ∀ a, kind (.unblocked cause a)) : Crowd.Writes kind c d := by
  cases woken with
  | nobody _ => exact same rfl
  | somebody _ _ => exact record (allowed _) rfl

end Crowd.Writes

/-- A step keeps the families, moves at most the running process and blocks nobody else. -/
structure Crowd.Keeps (p : Addr) (c d : Crowd) : Prop where
  live : d.live = c.live
  nextPid : d.nextPid = c.nextPid
  pid : ∀ a, (d.proc a).pid = (c.proc a).pid
  parent : ∀ a, (d.proc a).parent = (c.proc a).parent
  children : ∀ a, (d.proc a).children = (c.proc a).children
  zombies : ∀ a, (d.proc a).zombies = (c.proc a).zombies
  pos : ∀ a, a ≠ p → (d.proc a).pos = (c.proc a).pos
  blocked : d.blocked ⊆ insert p c.blocked
  log : Crowd.Writes (fun event => event.isFamily = false) c d

namespace Crowd.Keeps

variable {p : Addr} {c d e : Crowd}

/-- A change of the blocked set and the log keeps all processes. -/
theorem of (proc : d.proc = c.proc) (live : d.live = c.live) (nextPid : d.nextPid = c.nextPid)
    (blocked : d.blocked ⊆ insert p c.blocked)
    (log : Crowd.Writes (fun event => event.isFamily = false) c d) : Crowd.Keeps p c d where
  live := live
  nextPid := nextPid
  pid a := by rw [proc]
  parent a := by rw [proc]
  children a := by rw [proc]
  zombies a := by rw [proc]
  pos a _ := by rw [proc]
  blocked := blocked
  log := log

theorem refl (p : Addr) (c : Crowd) : Crowd.Keeps p c c :=
  of rfl rfl rfl (Set.subset_insert p _) (.same rfl)

theorem trans (one : Crowd.Keeps p c d) (two : Crowd.Keeps p d e) : Crowd.Keeps p c e where
  live := two.live.trans one.live
  nextPid := two.nextPid.trans one.nextPid
  pid a := (two.pid a).trans (one.pid a)
  parent a := (two.parent a).trans (one.parent a)
  children a := (two.children a).trans (one.children a)
  zombies a := (two.zombies a).trans (one.zombies a)
  pos a other := (two.pos a other).trans (one.pos a other)
  blocked a inside := (two.blocked inside).elim Or.inl fun before => one.blocked before
  log := one.log.trans two.log

theorem move (p : Addr) (c : Crowd) (k : Pos) : Crowd.Keeps p c (c.move p k) where
  live := rfl
  nextPid := rfl
  pid a := by simp
  parent a := by simp
  children a := by simp
  zombies a := by simp
  pos a other := by simp [other]
  blocked := Set.subset_insert p _
  log := .same rfl

theorem block (p : Addr) (c : Crowd) : Crowd.Keeps p c (c.block p) :=
  of rfl rfl rfl (fun _ inside => inside) (.same rfl)

theorem records (p : Addr) (c : Crowd) {events : List Event}
    (silent : ∀ event ∈ events, event.isFamily = false) :
    Crowd.Keeps p c { c with log := events ++ c.log } :=
  of rfl rfl rfl (Set.subset_insert p _) ⟨events, rfl, silent⟩

theorem record (p : Addr) (c : Crowd) {event : Event} (silent : event.isFamily = false) :
    Crowd.Keeps p c (c.record event) :=
  of rfl rfl rfl (Set.subset_insert p _) (.record silent rfl)

theorem finish (p : Addr) (c : Crowd) (call : Call) (code : Int) :
    Crowd.Keeps p c (c.finish p call code) :=
  (record p c rfl).trans (move p _ .user)

theorem suspend (p : Addr) (c : Crowd) (k : Pos) : Crowd.Keeps p c ((c.move p k).block p) :=
  (move p c k).trans (block p _)

theorem wake (p : Addr) {cause : Cause} {pid : Int} (woken : Crowd.Wake cause pid c d) :
    Crowd.Keeps p c d := by
  have log : Crowd.Writes (fun event => event.isFamily = false) c d := .wake woken fun _ => rfl
  cases woken with
  | nobody _ => exact refl p c
  | somebody _ _ =>
      exact of rfl rfl rfl (fun _ inside => Set.mem_insert_of_mem _ inside.1) log

end Crowd.Keeps

/-- A silent event is no event of a family. -/
theorem Event.isQuiet_isFamily {event : Event} (quiet : event.isQuiet = true) :
    event.isFamily = false := by
  cases event <;> first | rfl | cases quiet

namespace View

variable {p next : Addr} {act : Option Call} {v w : View}

theorem keeps_wake (p : Addr) {cause : Cause} {pid : Int} (woken : v.Wake cause pid w) :
    v.toCrowd.Keeps p w.toCrowd := by
  cases woken with
  | mk woken => exact .wake p woken

theorem keeps_wakesHead (p : Addr) {pipep : ObjPtr} {waitingQ : Queue Addr}
    (wakes : v.WakesHead pipep waitingQ w) : v.toCrowd.Keeps p w.toCrowd := by
  cases wakes with
  | empty => exact .refl p _
  | head woken => exact keeps_wake p woken

theorem keeps_releases {l : ObjPtr} (releases : v.Releases p l w) :
    v.toCrowd.Keeps p w.toCrowd := by
  cases releases with
  | alone _ _ _ _ => exact .record p _ rfl
  | waiter _ _ _ _ woken =>
      exact (Crowd.Keeps.record p v.toCrowd rfl).trans (keeps_wake p woken)

theorem keeps_dequeues (p : Addr) {cause : Cause} {c : ObjPtr} (dequeues : v.Dequeues cause c w) :
    v.toCrowd.Keeps p w.toCrowd := by
  cases dequeues with
  | mk _ woken => exact keeps_wake (v := v.setCvar c _) p woken

theorem keeps_dequeuesAll (p : Addr) {cause : Cause} {c : ObjPtr}
    (dequeues : Relation.ReflTransGen (Dequeues cause c) v w) :
    v.toCrowd.Keeps p w.toCrowd := by
  induction dequeues with
  | refl => exact .refl p _
  | tail _ last ih => exact ih.trans (keeps_dequeues p last)

theorem keeps_reads {pipep : ObjPtr} {pipeId len : Int} {pipe : Pipe}
    (reads : v.Reads p act pipep len pipeId pipe w) : w.toCrowd = v.toCrowd := by
  cases reads <;> rfl

/-- Every step of a sync call keeps the families. -/
theorem Step.keeps_or_crowd (step : v.Step p next act w) :
    v.toCrowd.Keeps p w.toCrowd ∨
      ∃ c, v.toCrowd.Step p next c ∧ w = { v with toCrowd := c } := by
  cases step with
  | crowd step => exact .inr ⟨_, step, rfl⟩
  | lockInit _ => exact .inl ((Crowd.Keeps.record p v.toCrowd rfl).trans (.finish p _ _ _))
  | cvarInit _ => exact .inl ((Crowd.Keeps.record p v.toCrowd rfl).trans (.finish p _ _ _))
  | pipeInit _ _ => exact .inl ((Crowd.Keeps.record p v.toCrowd rfl).trans (.finish p _ _ _))
  | acquireTake _ _ _ => exact .inl (.finish p _ _ _)
  | acquireBlock _ _ _ => exact .inl (.suspend p v.toCrowd _)
  | acquireFailed _ _ => exact .inl (.finish p _ _ _)
  | release _ _ releases => exact .inl ((keeps_releases releases).trans (.finish p _ _ _))
  | cvarWait _ _ _ _ releases =>
      rcases releases with rfl | releases
      · exact .inl (.suspend p v.toCrowd _)
      · exact .inl ((keeps_releases releases).trans (.suspend p _ _))
  | signal _ _ _ dequeues =>
      rcases dequeues with ⟨_, rfl⟩ | dequeues
      · exact .inl (.finish p _ _ _)
      · exact .inl ((keeps_dequeues p dequeues).trans (.finish p _ _ _))
  | broadcast _ _ _ dequeues _ =>
      exact .inl ((keeps_dequeuesAll p dequeues).trans (.finish p _ _ _))
  | pipeBlock reads _ =>
      refine .inl ?_
      rw [← keeps_reads reads]
      exact .suspend p _ _
  | @pipeTake pipep _ len pipe _ rest w x reads _ _ _ wakes =>
      refine .inl ?_
      rw [← keeps_reads reads]
      have taken : w.toCrowd.Keeps p
          (w.toCrowd.record (.pipeRead pipep len (pipe.buffer.take len.toNat))) :=
        .record p w.toCrowd rfl
      split at wakes
      · exact (taken.trans (keeps_wakesHead p wakes)).trans (.finish p _ _ _)
      · subst wakes
        exact taken.trans (.finish p _ _ _)
  | pipeDry reads _ _ =>
      refine .inl ?_
      rw [← keeps_reads reads]
      exact .finish p _ _ _
  | pipeWrite _ _ _ _ _ _ _ _ wakes =>
      exact .inl (((Crowd.Keeps.record p v.toCrowd rfl).trans (keeps_wakesHead p wakes)).trans
        (.finish p _ _ _))
  | reclaimLock _ _ _ _ _ => exact .inl (.finish p _ _ _)
  | reclaimOwned _ _ _ _ _ => exact .inl (.finish p _ _ _)
  | reclaimCvar _ _ _ _ => exact .inl (.finish p _ _ _)
  | reclaimWaited _ _ _ _ _ => exact .inl (.finish p _ _ _)
  | reclaimPipe _ _ _ _ _ => exact .inl (.finish p _ _ _)
  | reclaimRead _ _ _ _ _ => exact .inl (.finish p _ _ _)

end View

/-- A step either keeps the families or is one of four process calls. -/
inductive Crowd.FamilyStep (p next : Addr) (c : Crowd) : Crowd → Prop where
  | keeps {d : Crowd} (keeps : c.Keeps p d) : FamilyStep p next c d
  | forkFailed {child : Addr} {junk : Proc} (fresh : child ∉ c.live) :
      FamilyStep p next c ({ c.update child fun _ => junk with nextPid := c.nextPid + 1 }.finish p
        .fork errorCode)
  | fork {child : Addr} (user : (c.proc p).pos = .user) (fresh : child ∉ c.live)
      (first : next = child) : FamilyStep p next c (c.fork p child)
  | exit {status : Int} {d : Crowd} {junk : Proc} (point : (c.proc p).pos = .exit status)
      (reports : c.Reports p status d) :
      FamilyStep p next c (((d.disown (c.proc p).children).remove p junk).record
        (.exited (c.proc p).pid status))
  | collect {statusPtr : Nat} {zombie : Zombie} {rest : Queue Zombie}
      (zombies : (c.proc p).zombies = zombie :: rest) :
      FamilyStep p next c (((c.update p fun proc => { proc with zombies := rest }).record
        (.waited (c.proc p).pid zombie.pid zombie.exitStatus)).finish p (.wait statusPtr)
          zombie.pid)

theorem Crowd.Step.family {p next : Addr} {c d : Crowd} (step : c.Step p next d) :
    c.FamilyStep p next d := by
  cases step with
  | quiet _ _ silent =>
      exact .keeps ((Crowd.Keeps.records p c fun event member =>
        Event.isQuiet_isFamily (silent event member)).trans (.move p _ _))
  | forkFailed _ fresh => exact .forkFailed fresh
  | fork user fresh first => exact .fork user fresh first
  | forkReturn _ => exact .keeps (.finish p c _ _)
  | exit point reports => exact .exit point reports
  | waitBlock _ _ => exact .keeps (.suspend p c _)
  | waitCollect _ zombies => exact .collect zombies
  | waitEmpty _ _ => exact .keeps (.finish p c _ _)

theorem View.Step.family {p next : Addr} {act : Option Call} {v w : View}
    (step : v.Step p next act w) : v.toCrowd.FamilyStep p next w.toCrowd := by
  rcases step.keeps_or_crowd with keeps | ⟨c, inner, rfl⟩
  · exact .keeps keeps
  · exact inner.family

/-- A report gives the parent one more zombie. -/
theorem Crowd.Reports.proc {p : Addr} {status : Int} {c d : Crowd}
    (reports : c.Reports p status d) (a : Addr) :
    d.proc a = if (c.proc p).parent = some a then
      { c.proc a with zombies := enqQ (c.proc a).zombies ⟨(c.proc p).pid, status⟩ }
    else c.proc a := by
  cases reports with
  | orphan alone => rw [alone, if_neg (by simp)]
  | @child q d parent woken =>
      have kept : d.proc = (c.update q fun proc =>
          { proc with zombies := enqQ proc.zombies ⟨(c.proc p).pid, status⟩ }).proc := by
        cases woken <;> rfl
      rw [kept, Crowd.update_proc, parent]
      by_cases same : a = q
      · subst same
        rw [Function.update_self, if_pos rfl]
      · rw [Function.update_of_ne same, if_neg (by simpa using Ne.symm same)]

theorem Crowd.Reports.keeps {p : Addr} {status : Int} {c d : Crowd}
    (reports : c.Reports p status d) : d.live = c.live ∧ d.nextPid = c.nextPid := by
  cases reports with
  | orphan _ => exact ⟨rfl, rfl⟩
  | child _ woken => cases woken <;> exact ⟨rfl, rfl⟩

/-- A report writes at most the wake-up of the parent. -/
theorem Crowd.Reports.writes {p : Addr} {status : Int} {c d : Crowd} {kind : Event → Prop}
    (reports : c.Reports p status d) (allowed : ∀ a, kind (.unblocked (.childExit p) a)) :
    Crowd.Writes kind c d := by
  cases reports with
  | orphan _ => exact .same rfl
  | child _ woken =>
      have writes : Crowd.Writes kind _ d := .wake woken allowed
      exact writes

/-- The processes that stay after an exit lose at most their parent. -/
theorem Crowd.exit_proc {p a : Addr} {status : Int} {c d : Crowd} {junk : Proc}
    (reports : c.Reports p status d) (other : a ≠ p) :
    ((((d.disown (c.proc p).children).remove p junk).record
      (.exited (c.proc p).pid status)).proc a) = { c.proc a with
        parent := open Classical in
          if ∃ key, (key, a) ∈ (c.proc p).children then none else (c.proc a).parent
        zombies := if (c.proc p).parent = some a then
            enqQ (c.proc a).zombies ⟨(c.proc p).pid, status⟩
          else (c.proc a).zombies } := by
  rw [Crowd.record_proc]
  simp only [Crowd.remove, Crowd.update_proc, Crowd.disown, Function.update_of_ne other]
  rw [reports.proc a]
  split <;> rfl

/-- A change of a fresh address keeps the live processes. -/
theorem Crowd.update_fresh {c : Crowd} {child a : Addr} (fresh : child ∉ c.live) (junk : Proc)
    (inside : a ∈ c.live) : Function.update c.proc child junk a = c.proc a := by
  refine Function.update_of_ne ?_ _ _
  rintro rfl
  exact fresh inside

/-- A change of the zombies of one process keeps the rest of all processes. -/
theorem Crowd.update_zombies (c : Crowd) (p a : Addr) (rest : Queue Zombie) :
    Function.update c.proc p { c.proc p with zombies := rest } a =
      { c.proc a with zombies := if a = p then rest else (c.proc a).zombies } := by
  by_cases same : a = p
  · subst same
    simp
  · simp [same]

namespace Family

variable {p next : Addr} {c d : Crowd}

theorem keeps (family : Family c) (keeps : c.Keeps p d) : Family d where
  pidUsed a live := by
    rw [keeps.pid, keeps.nextPid]
    exact family.pidUsed a (keeps.live ▸ live)
  pidDistinct a liveA b liveB same := by
    rw [keeps.pid, keeps.pid] at same
    exact family.pidDistinct a (keeps.live ▸ liveA) b (keeps.live ▸ liveB) same
  parentLive a live q parent := by
    rw [keeps.parent] at parent
    rw [keeps.live, keeps.pid, keeps.children]
    exact family.parentLive a (keeps.live ▸ live) q parent
  childPid a live node member := by
    rw [keeps.children] at member
    rw [keeps.nextPid]
    exact family.childPid a (keeps.live ▸ live) node member

theorem record (family : Family c) (event : Event) : Family (c.record event) :=
  ⟨family.pidUsed, family.pidDistinct, family.parentLive, family.childPid⟩

theorem forkFailed (family : Family c) {child : Addr} {junk : Proc} (fresh : child ∉ c.live) :
    Family { c.update child fun _ => junk with nextPid := c.nextPid + 1 } := by
  have proc (a : Addr) (live : a ∈ c.live) := Crowd.update_fresh fresh junk live
  constructor
  · intro a live
    change (Function.update c.proc child junk a).pid < c.nextPid + 1
    rw [proc a live]
    have used := family.pidUsed a live
    omega
  · intro a liveA b liveB same
    change (Function.update c.proc child junk a).pid =
      (Function.update c.proc child junk b).pid at same
    rw [proc a liveA, proc b liveB] at same
    exact family.pidDistinct a liveA b liveB same
  · intro a live q parent
    change (Function.update c.proc child junk a).parent = some q at parent
    change q ∈ c.live ∧ ((Function.update c.proc child junk a).pid, a) ∈
      (Function.update c.proc child junk q).children
    rw [proc a live] at parent ⊢
    obtain ⟨liveQ, member⟩ := family.parentLive a live q parent
    rw [proc q liveQ]
    exact ⟨liveQ, member⟩
  · intro a live node member
    change node ∈ (Function.update c.proc child junk a).children at member
    change node.1 < c.nextPid + 1
    rw [proc a live] at member
    have used := family.childPid a live node member
    omega

/-- The parent of a new child is the forking process. -/
theorem fork_proc (p : Addr) {child a : Addr} (other : a ≠ child) :
    (c.fork p child).proc a = { c.proc a with
      children := if a = p then insert (c.nextPid, child) (c.proc a).children
        else (c.proc a).children
      pos := if a = p then .fork p child else (c.proc a).pos } := by
  simp only [Crowd.fork, Crowd.update_proc, Function.update_of_ne other]
  by_cases same : a = p
  · subst same
    simp
  · simp [same]

theorem fork_child (p child : Addr) (c : Crowd) :
    (c.fork p child).proc child = ⟨c.nextPid, some p, ∅, makeQ, .fork p child⟩ := by
  simp [Crowd.fork]

theorem fork (family : Family c) (live : p ∈ c.live) {child : Addr} (fresh : child ∉ c.live) :
    Family (c.fork p child) := by
  have differs : p ≠ child := by
    rintro rfl
    exact fresh live
  have old (a : Addr) (inside : a ∈ c.live) : a ≠ child := fun same => fresh (same ▸ inside)
  have members (a : Addr) : a ∈ (c.fork p child).live ↔ a = child ∨ a ∈ c.live :=
    Finset.mem_insert
  have next : (c.fork p child).nextPid = c.nextPid + 1 := rfl
  constructor
  · intro a inside
    rw [next]
    rcases (members a).mp inside with rfl | inside
    · rw [fork_child]
      exact Int.lt_succ _
    · rw [fork_proc p (old a inside)]
      have used := family.pidUsed a inside
      change (c.proc a).pid < _
      omega
  · intro a insideA b insideB same
    rcases (members a).mp insideA with rfl | oldA <;>
      rcases (members b).mp insideB with rfl | oldB
    · rfl
    · rw [fork_child, fork_proc p (old b oldB)] at same
      have used := family.pidUsed b oldB
      change c.nextPid = (c.proc b).pid at same
      omega
    · rw [fork_child, fork_proc p (old a oldA)] at same
      have used := family.pidUsed a oldA
      change (c.proc a).pid = c.nextPid at same
      omega
    · rw [fork_proc p (old a oldA), fork_proc p (old b oldB)] at same
      exact family.pidDistinct a oldA b oldB same
  · intro a inside q parent
    rcases (members a).mp inside with rfl | inside
    · rw [fork_child] at parent ⊢
      cases parent
      refine ⟨Finset.mem_insert_of_mem live, ?_⟩
      rw [fork_proc p differs]
      simp
    · rw [fork_proc p (old a inside)] at parent ⊢
      obtain ⟨liveQ, member⟩ := family.parentLive a inside q parent
      refine ⟨Finset.mem_insert_of_mem liveQ, ?_⟩
      rw [fork_proc p (old q liveQ)]
      dsimp only
      split
      · exact Set.mem_insert_of_mem _ member
      · exact member
  · intro a inside node member
    rw [next]
    rcases (members a).mp inside with rfl | inside
    · rw [fork_child] at member
      exact absurd member (Set.notMem_empty node)
    · rw [fork_proc p (old a inside)] at member
      dsimp only at member
      split at member
      · rcases Set.mem_insert_iff.mp member with rfl | member
        · exact Int.lt_succ _
        · have used := family.childPid a inside node member
          omega
      · have used := family.childPid a inside node member
        omega

theorem exit (family : Family c) {status : Int} {junk : Proc} (reports : c.Reports p status d) :
    Family (((d.disown (c.proc p).children).remove p junk).record
      (.exited (c.proc p).pid status)) := by
  obtain ⟨sameLive, samePid⟩ := reports.keeps
  have members (a : Addr) : a ∈ d.live.erase p ↔ a ≠ p ∧ a ∈ c.live := by
    rw [sameLive]
    exact Finset.mem_erase
  constructor
  · intro a inside
    obtain ⟨other, live⟩ := (members a).mp inside
    rw [Crowd.exit_proc reports other]
    change (c.proc a).pid < d.nextPid
    rw [samePid]
    exact family.pidUsed a live
  · intro a insideA b insideB same
    obtain ⟨otherA, liveA⟩ := (members a).mp insideA
    obtain ⟨otherB, liveB⟩ := (members b).mp insideB
    rw [Crowd.exit_proc reports otherA, Crowd.exit_proc reports otherB] at same
    exact family.pidDistinct a liveA b liveB same
  · intro a inside q parent
    obtain ⟨other, live⟩ := (members a).mp inside
    rw [Crowd.exit_proc reports other] at parent ⊢
    dsimp only at parent
    split at parent
    · cases parent
    · rename_i stays
      obtain ⟨liveQ, member⟩ := family.parentLive a live q parent
      have otherQ : q ≠ p := fun same => stays ⟨_, same ▸ member⟩
      refine ⟨(members q).mpr ⟨otherQ, liveQ⟩, ?_⟩
      rw [Crowd.exit_proc reports otherQ]
      exact member
  · intro a inside node member
    obtain ⟨other, live⟩ := (members a).mp inside
    rw [Crowd.exit_proc reports other] at member
    change node.1 < d.nextPid
    rw [samePid]
    exact family.childPid a live node member

theorem collect (family : Family c) (rest : Queue Zombie) :
    Family (c.update p fun proc => { proc with zombies := rest }) := by
  have proc (a : Addr) := c.update_zombies p a rest
  constructor
  · intro a live
    rw [Crowd.update_proc, proc]
    exact family.pidUsed a live
  · intro a liveA b liveB same
    rw [Crowd.update_proc, proc, proc] at same
    exact family.pidDistinct a liveA b liveB same
  · intro a live q parent
    rw [Crowd.update_proc, proc] at parent
    rw [Crowd.update_proc, proc, proc]
    exact family.parentLive a live q parent
  · intro a live node member
    rw [Crowd.update_proc, proc] at member
    exact family.childPid a live node member

/-- Every step keeps the links between parents and children. -/
theorem step (family : Family c) (live : p ∈ c.live) (step : c.FamilyStep p next d) :
    Family d := by
  cases step with
  | keeps keeps => exact family.keeps keeps
  | forkFailed fresh => exact (family.forkFailed fresh).keeps (.finish p _ _ _)
  | fork _ fresh _ => exact family.fork live fresh
  | exit _ reports => exact family.exit reports
  | collect _ => exact ((family.collect _).record _).keeps (.finish p _ _ _)

end Family

namespace Crowd.FamilyStep

variable {p next a : Addr} {c d : Crowd}

/-- A live process is an old one or the child that runs next. -/
theorem live (step : c.FamilyStep p next d) (inside : a ∈ d.live) :
    a ∈ c.live ∨ a ∉ c.live ∧ a = next ∧ (d.proc a).pos = .fork p a := by
  cases step with
  | keeps keeps => exact .inl (keeps.live ▸ inside)
  | forkFailed _ => exact .inl inside
  | fork _ fresh first =>
      rcases Finset.mem_insert.mp inside with rfl | old
      · exact .inr ⟨fresh, first.symm, congrArg Proc.pos (Family.fork_child p a c)⟩
      · exact .inl old
  | exit _ reports => exact .inl (reports.keeps.1 ▸ Finset.mem_of_mem_erase inside)
  | collect _ => exact .inl inside

/-- Every other process stays live at its program point and keeps its pid. -/
theorem other (step : c.FamilyStep p next d) (old : a ∈ c.live) (differs : a ≠ p) :
    a ∈ d.live ∧ (d.proc a).pos = (c.proc a).pos ∧ (d.proc a).pid = (c.proc a).pid := by
  cases step with
  | keeps keeps => exact ⟨keeps.live ▸ old, keeps.pos a differs, keeps.pid a⟩
  | @forkFailed child junk fresh =>
      have distinct : a ≠ child := by
        rintro rfl
        exact fresh old
      refine ⟨old, ?_, ?_⟩
      · rw [Crowd.finish_pos, if_neg differs]
        change (Function.update c.proc child junk a).pos = _
        rw [Function.update_of_ne distinct]
      · rw [Crowd.finish_pid]
        change (Function.update c.proc child junk a).pid = _
        rw [Function.update_of_ne distinct]
  | @fork child _ fresh _ =>
      have distinct : a ≠ child := by
        rintro rfl
        exact fresh old
      rw [Family.fork_proc p distinct]
      exact ⟨Finset.mem_insert_of_mem old, if_neg differs, rfl⟩
  | exit _ reports =>
      rw [Crowd.exit_proc reports differs]
      exact ⟨Finset.mem_erase.mpr ⟨differs, reports.keeps.1.symm ▸ old⟩, rfl, rfl⟩
  | collect _ =>
      rw [Crowd.finish_pos, if_neg differs, Crowd.finish_pid, Crowd.record_proc,
        Crowd.update_proc, Function.update_of_ne differs]
      exact ⟨old, rfl, rfl⟩

/-- The running process stays live with its pid unless it exits. -/
theorem self (step : c.FamilyStep p next d) (old : p ∈ c.live) :
    p ∈ d.live ∧ (d.proc p).pid = (c.proc p).pid ∨
      p ∉ d.live ∧ ∃ status, (c.proc p).pos = .exit status := by
  cases step with
  | keeps keeps => exact .inl ⟨keeps.live ▸ old, keeps.pid p⟩
  | @forkFailed child junk fresh =>
      refine .inl ⟨old, ?_⟩
      rw [Crowd.finish_pid]
      change (Function.update c.proc child junk p).pid = _
      rw [Function.update_of_ne (by rintro rfl; exact fresh old)]
  | fork _ fresh _ =>
      refine .inl ⟨Finset.mem_insert_of_mem old, ?_⟩
      rw [Family.fork_proc p (by rintro rfl; exact fresh old)]
  | exit point reports =>
      refine .inr ⟨?_, _, point⟩
      change p ∉ Finset.erase _ p
      exact Finset.notMem_erase _ _
  | collect _ =>
      refine .inl ⟨old, ?_⟩
      rw [Crowd.finish_pid, Crowd.record_proc, Crowd.update_proc, Function.update_self]

/-- The log only grows. -/
theorem written (step : c.FamilyStep p next d) : Crowd.Writes (fun _ => True) c d := by
  cases step with
  | keeps keeps =>
      obtain ⟨events, log, -⟩ := keeps.log
      exact ⟨events, log, fun _ _ => trivial⟩
  | forkFailed _ => exact .record trivial rfl
  | fork _ _ _ => exact .record trivial rfl
  | exit _ reports =>
      have reported : Crowd.Writes (fun _ => True) c _ := reports.writes fun _ => trivial
      exact reported.trans (.record trivial rfl)
  | collect _ => exact ⟨[_, _], rfl, fun _ _ => trivial⟩

end Crowd.FamilyStep

/-- A loop of `KernelAcquire` carries a call that names its lock. -/
theorem View.Acquires.carries {v : View} {p : Addr} {l : ObjPtr} {call : Call}
    (acquires : v.Acquires p l call) (before : (v.proc p).pos.carriesCall = true) :
    (Pos.acquire l call).carriesCall = true := by
  cases acquires with
  | call _ _ => simp [Pos.carriesCall]
  | again point => rwa [point] at before
  | woken _ _ => simp [Pos.carriesCall]

/-- The running process goes to a program point that carries its call. -/
theorem View.Step.carries {p next : Addr} {act : Option Call} {v w : View}
    (step : v.Step p next act w) (live : p ∈ v.live)
    (before : (v.proc p).pos.carriesCall = true) :
    p ∉ w.live ∨ (w.proc p).pos.carriesCall = true := by
  have finished (c : Crowd) (call : Call) (code : Int) :
      ((c.finish p call code).proc p).pos.carriesCall = true := by
    rw [Crowd.finish_pos, if_pos rfl]
    rfl
  have suspended (c : Crowd) {k : Pos} (carries : k.carriesCall = true) :
      (((c.move p k).block p).proc p).pos.carriesCall = true := by
    rw [Crowd.block_proc, Crowd.move_pos, if_pos rfl]
    exact carries
  cases step with
  | crowd step =>
      cases step with
      | quiet _ after _ =>
          right
          rw [Crowd.move_pos, if_pos rfl]
          exact Pos.isPlain_carriesCall after
      | forkFailed _ _ => exact .inr (finished _ _ _)
      | fork _ fresh _ =>
          right
          change ((v.toCrowd.fork p _).proc p).pos.carriesCall = true
          rw [Family.fork_proc p (by rintro rfl; exact fresh live)]
          dsimp only
          rw [if_pos rfl]
          rfl
      | forkReturn _ => exact .inr (finished _ _ _)
      | exit _ _ =>
          left
          change p ∉ Finset.erase _ p
          exact Finset.notMem_erase _ _
      | waitBlock _ _ => exact .inr (suspended _ rfl)
      | waitCollect _ _ => exact .inr (finished _ _ _)
      | waitEmpty _ _ => exact .inr (finished _ _ _)
  | acquireBlock acquires _ _ => exact .inr (suspended _ (acquires.carries before))
  | cvarWait _ _ _ _ _ => exact .inr (suspended _ rfl)
  | pipeBlock _ _ => exact .inr (suspended _ rfl)
  | _ => exact .inr (finished _ _ _)

end

end Yallnix

import Yallnix.Proof.SetIteration
import Yallnix.Proof.PcbFrame
import Yallnix.Proof.ReadyQueue

namespace Yallnix

section
variable [Hardware]

/-- Every sleeper is stored under its own pid. -/
def Scheduler.SleepersNamed (s : Scheduler) : Prop :=
  ∀ node ∈ s.sleepingMap.entries, (s.pcbs node.2).pid = node.1

/-- Every sleeper has one tick less, and the sleepers whose last tick this was are ready. -/
structure Ticked (s t : Scheduler) : Prop where
  pcbs : ∀ a, t.pcbs a =
    if a ∈ s.sleepingMap.items then (s.pcbs a).tickDown else s.pcbs a
  sleeping : t.sleepingMap.entries.Perm
    (s.sleepingMap.entries.filter fun node => !(s.pcbs node.2).expires)
  ready : t.readyQ = s.readyQ ++
    (s.sleepingMap.entries.filter fun node => (s.pcbs node.2).expires).map Prod.snd
  others : t = { s with
    pcbs := t.pcbs
    sleepingMap := t.sleepingMap
    readyQ := t.readyQ }

omit [Hardware] in
/-- A stored sleeper is removed under its pid. -/
theorem removeSleeper {hm : HashMap Addr} {kept rest : List (Int × Addr)} {node : Int × Addr}
    (perm : hm.entries.Perm (kept ++ node :: rest)) :
    ∃ result, hashMapRemove hm node.1 = .ok (some (node.2, result)) ∧
      result.entries.Perm (kept ++ rest) := by
  have entry : node ∈ hm.entries :=
    perm.mem_iff.mpr (List.mem_append_right _ List.mem_cons_self)
  have known : node.1 ∈ hm.keys := HashMap.mem_keys.mpr ⟨node.2, entry⟩
  obtain ⟨removed, outcome⟩ := HashMap.remove_of_fits (HashMap.fits_of_mem known)
  cases removed with
  | none => exact absurd known (HashMap.remove_eq_none outcome)
  | some found =>
      obtain ⟨item, result⟩ := found
      obtain ⟨taken, -⟩ := HashMap.remove_eq_some outcome
      have same : item = node.2 :=
        HashMap.entries_unique (taken.mem_iff.mpr List.mem_cons_self) entry
      subst same
      refine ⟨result, outcome, List.Perm.cons_inv (a := node) ?_⟩
      exact (taken.symm.trans perm).trans List.perm_middle

/-- The visits of the sleepers in a list. -/
theorem tickDownSleepers_visits {rest kept : List (Int × Addr)} {s : Scheduler} (count : Int)
    (perm : s.sleepingMap.entries.Perm (kept ++ rest))
    (named : ∀ node ∈ rest, (s.pcbs node.2).pid = node.1)
    (distinct : (rest.map Prod.snd).Nodup) :
    ∃ t, rest.foldl (fun state node => tickDownSleeper state node.1 node.2) (.ok (count, s)) =
        .ok (count, t) ∧
      (∀ a, t.pcbs a = if a ∈ rest.map Prod.snd then (s.pcbs a).tickDown else s.pcbs a) ∧
      t.sleepingMap.entries.Perm (kept ++ rest.filter fun node => !(s.pcbs node.2).expires) ∧
      t.readyQ = s.readyQ ++ (rest.filter fun node => (s.pcbs node.2).expires).map Prod.snd ∧
      t = { s with pcbs := t.pcbs, sleepingMap := t.sleepingMap, readyQ := t.readyQ } := by
  induction rest generalizing s kept with
  | nil =>
      exact ⟨s, rfl, fun a => by simp, by simpa using perm, by simp, rfl⟩
  | cons node rest ih =>
      obtain ⟨notAgain, distinct⟩ := List.nodup_cons.mp distinct
      have key := named node List.mem_cons_self
      -- The visit of this sleeper leaves the ticks of the later ones.
      have other {a : Addr} (later : a ∈ rest.map Prod.snd) :
          (s.tickDown node.2).pcbs a = s.pcbs a := by
        have differs : a ≠ node.2 := by
          rintro rfl
          exact notAgain later
        rw [Scheduler.tickDown_pcbs, if_neg differs]
      have alike (test : Bool → Bool) : rest.filter
            (fun entry => test ((s.tickDown node.2).pcbs entry.2).expires) =
          rest.filter fun entry => test (s.pcbs entry.2).expires :=
        List.filter_congr fun entry member => by rw [other (List.mem_map_of_mem member)]
      have expired : rest.filter (fun entry => ((s.tickDown node.2).pcbs entry.2).expires) =
          rest.filter fun entry => (s.pcbs entry.2).expires := alike id
      have stillNamed : ∀ entry ∈ rest, ((s.tickDown node.2).pcbs entry.2).pid = entry.1 :=
        fun entry member => by
          rw [Scheduler.tickDown_pid]
          exact named entry (List.mem_cons_of_mem _ member)
      have visited {t : Scheduler} (each : ∀ a, t.pcbs a = if a ∈ rest.map Prod.snd then
            ((s.tickDown node.2).pcbs a).tickDown else (s.tickDown node.2).pcbs a) (a : Addr) :
          t.pcbs a =
            if a ∈ (node :: rest).map Prod.snd then (s.pcbs a).tickDown else s.pcbs a := by
        rw [each, List.map_cons]
        by_cases later : a ∈ rest.map Prod.snd
        · rw [if_pos later, if_pos (List.mem_cons_of_mem _ later), other later]
        · rw [if_neg later, Scheduler.tickDown_pcbs]
          simp only [List.mem_cons, later, or_false]
      cases expires : (s.pcbs node.2).expires with
      | true =>
          obtain ⟨result, removed, left⟩ := removeSleeper perm
          obtain ⟨t, folded, pcbs, sleeping, ready, others⟩ :=
            ih (s := { s.tickDown node.2 with
              sleepingMap := result, readyQ := enqQ s.readyQ node.2 }) left stillNamed distinct
          rw [alike not] at sleeping
          rw [expired] at ready
          refine ⟨t, ?_, visited pcbs, ?_, ?_, others⟩
          · rw [List.foldl_cons, tickDownSleeper_wakes _ expires (by rw [key]; exact removed)]
            exact folded
          · rw [List.filter_cons_of_neg (by simp [expires])]
            exact sleeping
          · rw [List.filter_cons_of_pos (by simp [expires]), ready]
            simp [enqQ]
      | false =>
          have moved : s.sleepingMap.entries.Perm ((kept ++ [node]) ++ rest) := by
            rwa [List.append_assoc]
          obtain ⟨t, folded, pcbs, sleeping, ready, others⟩ :=
            ih (s := s.tickDown node.2) moved stillNamed distinct
          rw [alike not] at sleeping
          rw [expired] at ready
          refine ⟨t, ?_, visited pcbs, ?_, ?_, others⟩
          · rw [List.foldl_cons, tickDownSleeper_sleeps _ expires]
            exact folded
          · rw [List.filter_cons_of_pos (by simp [expires])]
            rwa [List.append_assoc] at sleeping
          · rw [List.filter_cons_of_neg (by simp [expires])]
            exact ready

/-- A sleeper is stored once. -/
theorem Scheduler.SleepersNamed.items_nodup {s : Scheduler} (named : s.SleepersNamed) :
    s.sleepingMap.items.Nodup := by
  have entries : s.sleepingMap.entries.Nodup := s.sleepingMap.keys_nodup.of_map
  refine entries.map_on fun one first two second same => Prod.ext ?_ same
  rw [← named one first, ← named two second, same]

/-- A tick visits every sleeper once and succeeds. -/
theorem tickDownSleepers_ticked {s : Scheduler} (named : s.SleepersNamed) :
    ∃ t, tickDownSleepers s = .ok (successCode, t) ∧ Ticked s t := by
  have none : s.sleepingMap.entries.Perm ([] ++ s.sleepingMap.entries) := List.Perm.refl _
  obtain ⟨t, folded, pcbs, sleeping, ready, others⟩ :=
    tickDownSleepers_visits 0 none named named.items_nodup
  refine ⟨t, ?_, pcbs, sleeping, ready, others⟩
  rw [tickDownSleepers, HashMap.iterate_eq_foldl, folded]
  rfl

instance : Own PCB.numRemainingDelayTicks := ⟨fun _ _ => rfl, fun _ _ => rfl, fun _ _ => rfl⟩

/-- A switch to the next process moves no sleeper and takes no tick. -/
theorem runReady_ticks {s t : Scheduler} {k : Pos} (ran : runReady k s = .go t) :
    t.sleepingMap = s.sleepingMap ∧ t.live ⊆ s.live ∧ s.live ⊆ t.live ∧
      ∀ a ∈ s.live, (t.pcbs a).numRemainingDelayTicks = (s.pcbs a).numRemainingDelayTicks := by
  have frames (p : Addr) : Frames False PCB.numRemainingDelayTicks p s t := by
    have flow : (runReady k s).Frames False PCB.numRemainingDelayTicks p s := runReady_frames k s
    rwa [ran] at flow
  refine ⟨(frames 0).sleeping.resolve_left id, (frames 0).live, fun a inside => ?_,
    fun a inside => ?_⟩
  · exact (frames (a + 1)).stays a inside (Nat.ne_of_lt (Nat.lt_succ_self a))
  · exact (frames (a + 1)).others a inside (Nat.ne_of_lt (Nat.lt_succ_self a))

/-- `KernelDelay` puts its process to sleep with the ticks that it asks for. -/
theorem kernelDelay_sleeps {s : Scheduler} (placed : Placed s) (notIdle : s.currPCB ≠ s.idlePCB)
    {clockTicks : Int} (positive : 0 < clockTicks) {flow : Flow Scheduler}
    (done : kernelDelay clockTicks s = .ok flow) :
    ∃ t, flow = .go t ∧
      t.sleepingMap.entries.Perm ((s.curr.pid, s.currPCB) :: s.sleepingMap.entries) ∧
      s.live ⊆ t.live ∧
      ∀ a ∈ s.live, (t.pcbs a).numRemainingDelayTicks =
        if a = s.currPCB then clockTicks else (s.pcbs a).numRemainingDelayTicks := by
  have same := sameProcesses_updatePcb s s.currPCB
    (fun pcb => { pcb with numRemainingDelayTicks := clockTicks }) rfl rfl rfl rfl rfl rfl
  obtain ⟨sleepingMap, t, inserted, ran, -, -⟩ :=
    insertSleeping_serves (placed.sameProcesses same) notIdle (.delay clockTicks)
  have slept : sleepProcess clockTicks s = .ok (.go t) := by
    rw [sleepProcess, if_neg (by omega)]
    dsimp only
    rw [inserted, Outcome.ok_bind]
    exact congrArg Except.ok ran
  rw [kernelDelay, if_neg (by omega), if_neg (by omega), slept] at done
  obtain ⟨-, perm, -⟩ := HashMap.insert_eq_some inserted
  obtain ⟨map, -, stays, ticks⟩ := runReady_ticks ran
  refine ⟨t, (Except.ok.inj done).symm, ?_, stays, fun a inside => (ticks a inside).trans ?_⟩
  · have pid : (s.updatePcb s.currPCB
        (fun pcb => { pcb with numRemainingDelayTicks := clockTicks })).curr.pid =
          s.curr.pid := by
      simp only [Scheduler.curr, Scheduler.updatePcb, Function.update_self]
    rw [pid] at perm
    rw [map]
    exact perm
  · by_cases isCurr : a = s.currPCB
    · simp only [Scheduler.updatePcb, isCurr, Function.update_self, if_true]
    · simp only [Scheduler.updatePcb, Function.update_of_ne isCurr, if_neg isCurr]

/-- A live process waits in `sleepingMap` for this number of ticks. -/
structure Scheduler.Sleeps (s : Scheduler) (a : Addr) (ticks : Int) : Prop where
  live : a ∈ s.live
  asleep : a ∈ s.sleepingMap.items
  remaining : (s.pcbs a).numRemainingDelayTicks = ticks

/-- A sleeper does not run and is not ready. -/
theorem Scheduler.Sleeps.apart {s : Scheduler} {a : Addr} {ticks : Int} (sleeps : s.Sleeps a ticks)
    (placed : Placed s) : a ≠ s.currPCB ∧ a ∉ s.readyQ := by
  have occurs : 0 < s.occurs .sleeping a := List.count_pos_iff.mpr sleeps.asleep
  obtain ⟨live, notOut, batch⟩ := placed.of_occurs occurs
  refine ⟨fun same => notOut (Finset.mem_singleton.mpr same), fun ready => ?_⟩
  have queued : 0 < s.occurs .ready a := List.count_pos_iff.mpr ready
  obtain ⟨home, only⟩ := placed.resident a live notOut batch
  rw [only] at occurs queued
  split at occurs
  · rename_i here
    have differs : Place.ready ≠ home := by
      rw [← here]
      intro same
      cases same
    rw [if_neg differs] at queued
    exact Nat.lt_irrefl 0 queued
  · exact Nat.lt_irrefl 0 occurs

theorem Placed.sleepersNamed {s : Scheduler} (placed : Placed s) : s.SleepersNamed :=
  fun node member => (placed.sleepingKey node member).symm

/-- A delay call with a positive number of ticks puts its process to sleep for so many ticks. -/
theorem delayCall_sleeps {s t : Kernel} (sound : Sound s) {clockTicks : Int} {oracle : Oracle}
    (next : yallnix.step s (.kernelCall (.delay clockTicks) oracle) t) (positive : 0 < clockTicks) :
    t.toScheduler.Sleeps s.currPCB clockTicks ∧
      ∀ a, a ∈ t.sleepingMap.items ↔ a = s.currPCB ∨ a ∈ s.sleepingMap.items := by
  obtain ⟨ready, done⟩ := next
  simp only [enabled, Bool.and_eq_true, decide_eq_true_eq] at ready
  obtain ⟨flow, slept, done⟩ := Outcome.bind_eq_ok.mp done
  cases done
  rw [finishScheduler_eq]
  obtain ⟨u, rfl, perm, stays, ticks⟩ :=
    kernelDelay_sleeps sound.placed ready.1.1.2 positive slept
  refine ⟨⟨stays sound.placed.live, ?_, ?_⟩, fun a => ?_⟩
  · exact (HashMap.mem_items_iff perm _).mpr (.inl rfl)
  · exact (ticks _ sound.placed.live).trans (if_pos rfl)
  · exact HashMap.mem_items_iff perm a

/-- A delay call without a positive number of ticks puts no process to sleep. -/
theorem delayCall_rests {s t : Kernel} {clockTicks : Int} {oracle : Oracle}
    (next : yallnix.step s (.kernelCall (.delay clockTicks) oracle) t) (none : ¬0 < clockTicks) :
    t.sleepingMap = s.sleepingMap := by
  obtain ⟨flow, slept, done⟩ := Outcome.bind_eq_ok.mp next.2
  cases done
  by_cases zero : clockTicks = 0
  · rw [kernelDelay, if_pos zero] at slept
    cases slept
    rfl
  · rw [kernelDelay, if_neg zero, if_pos (by omega)] at slept
    cases slept
    rfl

/-- No input but a tick changes the ticks of a sleeper or wakes it. -/
theorem Scheduler.Sleeps.stays {s t : Kernel} {a : Addr} {ticks : Int}
    (sleeps : s.toScheduler.Sleeps a ticks) (sound : Sound s) {i : Input}
    (next : yallnix.step s i t) (noTick : i ≠ .clock) : t.toScheduler.Sleeps a ticks := by
  have other := (sleeps.apart sound.placed).1
  have framed := handle_framed (f := PCB.numRemainingDelayTicks) sound.placed sound.family next.1
    (fun tick => absurd tick noTick) next.2
  refine ⟨framed.stays a sleeps.live other, ?_,
    (framed.others a sleeps.live other).trans sleeps.remaining⟩
  rcases framed.sleeping with moves | same
  · cases i with
    | clock => exact absurd rfl noTick
    | kernelCall call oracle =>
        cases call with
        | delay clockTicks =>
            by_cases positive : 0 < clockTicks
            · exact ((delayCall_sleeps sound next positive).2 a).mpr (.inr sleeps.asleep)
            · rw [delayCall_rests next positive]
              exact sleeps.asleep
        | _ => cases moves
    | _ => cases moves
  · rw [same]
    exact sleeps.asleep

/-- A kick runs the head of `readyQ` and queues the running process. -/
theorem kickProcess_ready (s : Scheduler) :
    s.readyQ = [] ∧ kickProcess s = .ret s successCode ∨
      ∃ t, kickProcess s = .go t ∧ s.readyQ ++ [s.currPCB] = t.currPCB :: t.readyQ := by
  unfold kickProcess
  cases queue : s.readyQ with
  | nil => exact .inl ⟨rfl, if_pos rfl⟩
  | cons head rest =>
      refine .inr ⟨_, if_neg (fun none => by cases none), ?_⟩
      rfl

/-- A clock interrupt ticks the sleepers and may switch to another process. -/
theorem clock_ticks {s t : Kernel} (sound : Sound s) (next : yallnix.step s .clock t) :
    ∃ u, tickDownSleepers s.toScheduler = .ok (successCode, u) ∧ Ticked s.toScheduler u ∧
      (∀ a ∈ u.readyQ, a = t.currPCB ∨ a ∈ t.readyQ) ∧ t.sleepingMap = u.sleepingMap ∧
      s.live ⊆ t.live ∧
      ∀ a ∈ s.live, (t.pcbs a).numRemainingDelayTicks = (u.pcbs a).numRemainingDelayTicks := by
  obtain ⟨u, ticks, ticked⟩ := tickDownSleepers_ticked sound.placed.sleepersNamed
  have live : u.live = s.live := by rw [ticked.others]
  refine ⟨u, ticks, ticked, ?_⟩
  obtain ⟨v, handled, done⟩ := Outcome.bind_eq_ok.mp next.2
  cases done
  rw [handleTrapClock, ticks, Outcome.ok_bind] at handled
  rcases kickProcess_ready u with ⟨empty, kick⟩ | ⟨w, kick, queue⟩
  · dsimp only at handled
    rw [kick] at handled
    cases handled
    refine ⟨fun a ready => .inr ready, rfl, live.symm.subset, fun _ _ => rfl⟩
  · dsimp only at handled
    rw [kick] at handled
    obtain rfl := Except.ok.inj handled
    have ran : runReady .trapReturn { u with readyQ := enqQ u.readyQ u.currPCB } = .go w := by
      unfold kickProcess at kick
      split at kick
      · cases kick
      · exact kick
    obtain ⟨map, -, stays, remaining⟩ := runReady_ticks ran
    refine ⟨fun a ready => ?_, map, ?_, ?_⟩
    · have queued : a ∈ w.currPCB :: w.readyQ := queue ▸ List.mem_append_left _ ready
      exact List.mem_cons.mp queued
    · rw [← live]
      exact stays
    · rw [← live]
      exact remaining

/-- A tick takes one of several remaining ticks. -/
theorem Scheduler.Sleeps.ticks {s t : Kernel} {a : Addr} {ticks : Int}
    (sleeps : s.toScheduler.Sleeps a ticks) (sound : Sound s) (next : yallnix.step s .clock t)
    (more : 1 < ticks) : t.toScheduler.Sleeps a (ticks - 1) := by
  obtain ⟨u, -, ticked, -, map, stays, same⟩ := clock_ticks sound next
  refine ⟨stays sleeps.live, ?_, ?_⟩
  · obtain ⟨key, entry⟩ := HashMap.mem_items.mp sleeps.asleep
    rw [map]
    refine HashMap.mem_items.mpr ⟨key, ticked.sleeping.mem_iff.mpr (List.mem_filter.mpr ⟨entry, ?_⟩)⟩
    rw [Bool.not_eq_true', PCB.expires, decide_eq_false_iff_not, sleeps.remaining]
    omega
  · rw [same a sleeps.live, ticked.pcbs, if_pos sleeps.asleep]
    exact congrArg (· - 1) sleeps.remaining

/-- The last tick puts a sleeper behind `readyQ`. -/
theorem Ticked.wakes {s t : Scheduler} {a : Addr} (ticked : Ticked s t) (sleeps : s.Sleeps a 1) :
    a ∈ t.readyQ ∧ a ∉ t.sleepingMap.items := by
  have expires : (s.pcbs a).expires = true := by
    rw [PCB.expires, sleeps.remaining]
    rfl
  obtain ⟨key, entry⟩ := HashMap.mem_items.mp sleeps.asleep
  constructor
  · rw [ticked.ready]
    refine List.mem_append_right _ (List.mem_map.mpr ⟨(key, a), ?_, rfl⟩)
    exact List.mem_filter.mpr ⟨entry, expires⟩
  · intro again
    obtain ⟨other, left⟩ := HashMap.mem_items.mp again
    have later := (List.mem_filter.mp (ticked.sleeping.mem_iff.mp left)).2
    rw [expires] at later
    cases later

def Input.isClock : Input → Bool
  | .clock => true
  | _ => false

/-- The clock interrupts in a list of inputs. -/
def clockTicksIn (inputs : List Input) : Nat := inputs.countP Input.isClock

/-- A process sleeps through every event until its last tick. -/
theorem Scheduler.Sleeps.trace {s t : Kernel} {a : Addr} {ticks : Int}
    (sleeps : s.toScheduler.Sleeps a ticks) (reachable : yallnix.Reachable s)
    {inputs : List Input} (trace : yallnix.Trace s inputs t) (early : clockTicksIn inputs < ticks) :
    t.toScheduler.Sleeps a (ticks - clockTicksIn inputs) := by
  induction trace with
  | nil =>
      change s.toScheduler.Sleeps a (ticks - 0)
      rwa [sub_zero]
  | @snoc inputs i t u earlier next ih =>
      have sound := reachable_sound (earlier.reachable reachable)
      have count : clockTicksIn (inputs ++ [i]) =
          clockTicksIn inputs + if i.isClock = true then 1 else 0 := by
        simp [clockTicksIn, List.countP_append, List.countP_singleton]
      rw [count] at early ⊢
      by_cases tick : i.isClock = true
      · rw [if_pos tick] at early ⊢
        have clock : i = .clock := by cases i <;> first | rfl | cases tick
        subst clock
        have slept := (ih (by omega)).ticks sound next (by omega)
        have same : ticks - ((clockTicksIn inputs + 1 : Nat) : Int) =
            ticks - clockTicksIn inputs - 1 := by omega
        rwa [same]
      · rw [if_neg tick] at early ⊢
        refine (ih early).stays sound next ?_
        rintro rfl
        exact tick rfl

/-- Every sleeper waits for a positive number of ticks. -/
def Kernel.SleepersPositive (s : Kernel) : Prop :=
  ∀ a ∈ s.sleepingMap.items, 0 < (s.pcbs a).numRemainingDelayTicks

/-- A live sleeper sleeps for the ticks in its process control block. -/
theorem Placed.sleeps {s : Scheduler} (placed : Placed s) {a : Addr}
    (asleep : a ∈ s.sleepingMap.items) : s.Sleeps a (s.pcbs a).numRemainingDelayTicks := by
  have occurs : 0 < s.occurs .sleeping a := List.count_pos_iff.mpr asleep
  exact ⟨(placed.of_occurs occurs).1, asleep, rfl⟩

/-- A tick wakes the sleepers whose ticks end, and a delay call asks for a positive number. -/
theorem Kernel.SleepersPositive.step {s t : Kernel} (sound : Sound s)
    (positive : s.SleepersPositive) {i : Input} (next : yallnix.step s i t) :
    t.SleepersPositive := by
  intro a asleep
  by_cases tick : i = .clock
  · subst tick
    obtain ⟨u, -, ticked, -, map, -, same⟩ := clock_ticks sound next
    rw [map] at asleep
    obtain ⟨key, entry⟩ := HashMap.mem_items.mp asleep
    obtain ⟨before, late⟩ := List.mem_filter.mp (ticked.sleeping.mem_iff.mp entry)
    rw [Bool.not_eq_true', PCB.expires, decide_eq_false_iff_not] at late
    have slept : a ∈ s.sleepingMap.items := HashMap.mem_items.mpr ⟨key, before⟩
    rw [same a (sound.placed.sleeps slept).live, ticked.pcbs, if_pos slept]
    exact Int.sub_pos_of_lt (not_le.mp late)
  · have kept (old : a ∈ s.sleepingMap.items) : 0 < (t.pcbs a).numRemainingDelayTicks := by
      rw [((sound.placed.sleeps old).stays sound next tick).remaining]
      exact positive a old
    have framed := handle_framed (f := PCB.numRemainingDelayTicks) sound.placed sound.family
      next.1 (fun clock => absurd clock tick) next.2
    rcases framed.sleeping with moves | same
    · cases i with
      | clock => exact absurd rfl tick
      | kernelCall call oracle =>
          cases call with
          | delay clockTicks =>
              by_cases asks : 0 < clockTicks
              · obtain ⟨sleeps, only⟩ := delayCall_sleeps sound next asks
                rcases (only a).mp asleep with rfl | old
                · rw [sleeps.remaining]
                  exact asks
                · exact kept old
              · exact kept (delayCall_rests next asks ▸ asleep)
          | _ => cases moves
      | _ => cases moves
    · rw [same] at asleep
      exact kept asleep

end

section
attribute [local instance] smallHardware

end

end Yallnix

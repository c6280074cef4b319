import Yallnix.Proof.Reachability
import Yallnix.Construction.SmallMachine

namespace Yallnix

/-- The kernel selects elements of these arrays with values from a user. -/
inductive KernelArray where
  | currTransmitters
  | transmittingQs
  | readingQs
  | buffers
  | lockSets
  | cvarSets
  | pipeSets
  deriving DecidableEq

/-- A selection names an array and the index that the kernel computes. -/
structure Selection where
  array : KernelArray
  index : Int

/-- C indexes the array of sets with this remainder. -/
def HashMap.slot {A : Type} (hm : HashMap A) (key : Int) : Int := key.tmod hm.sets.length

theorem HashMap.find_of_not_fits {A : Type} {hm : HashMap A} {key : Int} (outside : ¬hm.Fits key) :
    hashMapFind hm key = .error .fault := by
  have failed : hm.bucket key = .error .fault := by
    unfold HashMap.bucket
    exact dif_neg outside
  simp only [hashMapFind, failed]

section
variable [Hardware] {s t : Kernel} {call : Call} {oracle : Oracle}

def Kernel.arraySize (s : Kernel) : KernelArray → Nat
  | .currTransmitters | .transmittingQs | .readingQs | .buffers => numTerminals
  | .lockSets => s.lockMap.sets.length
  | .cvarSets => s.cvarMap.sets.length
  | .pipeSets => s.pipeMap.sets.length

/-- The selected element lies inside its array. -/
def Selection.Inside (s : Kernel) (selection : Selection) : Prop :=
  0 ≤ selection.index ∧ selection.index < s.arraySize selection.array

instance (selection : Selection) : Decidable (selection.Inside s) :=
  inferInstanceAs (Decidable (_ ∧ _))

/-- A terminal call makes these checks before it uses the number of the terminal. -/
def passesChecks (oracle : Oracle) (access : Prot) (buf : Nat) (len : Int) (s : Scheduler) : Bool :=
  decide (vmem1Base ≤ buf) && decide (0 < len) &&
    isValidBuffer (fun index => s.r0PageTable.getD index (oracle.pastTable index))
      (r1Memory oracle s) buf len access

/-- Both arrays of a terminal call have one element for each terminal. -/
def writeSelections (ttyId : Int) : List Selection :=
  [⟨.currTransmitters, ttyId⟩, ⟨.transmittingQs, ttyId⟩]

def readSelections (ttyId : Int) : List Selection := [⟨.buffers, ttyId⟩, ⟨.readingQs, ttyId⟩]

def Kernel.lockSlot (s : Kernel) (id : Int) : Selection := ⟨.lockSets, s.lockMap.slot id⟩

def Kernel.cvarSlot (s : Kernel) (id : Int) : Selection := ⟨.cvarSets, s.cvarMap.slot id⟩

def Kernel.pipeSlot (s : Kernel) (id : Int) : Selection := ⟨.pipeSets, s.pipeMap.slot id⟩

/-- A kernel call selects these elements with its values, in the order of the code. -/
def Call.selections (oracle : Oracle) (s : Kernel) : Call → List Selection
  | .ttyRead ttyId buf len =>
      if passesChecks oracle ⟨false, true, false⟩ buf len s.toScheduler then readSelections ttyId
      else []
  | .ttyWrite ttyId buf len _ =>
      if passesChecks oracle ⟨true, false, false⟩ buf len s.toScheduler then writeSelections ttyId
      else []
  | .acquire lockId | .release lockId => [s.lockSlot lockId]
  | .cvarSignal cvarId | .cvarBroadcast cvarId => [s.cvarSlot cvarId]
  | .cvarWait cvarId lockId =>
      s.cvarSlot cvarId :: if cvarId ∈ s.cvarMap.keys then [s.lockSlot lockId] else []
  | .pipeRead pipeId len | .pipeWrite pipeId len _ => if 0 < len then [s.pipeSlot pipeId] else []
  | .reclaim id =>
      s.lockSlot id :: if id ∈ s.lockMap.keys then [] else
        s.cvarSlot id :: if id ∈ s.cvarMap.keys then [] else [s.pipeSlot id]
  | _ => []

/-- Kernel code that goes on selects these elements with the values of its call. -/
def Pos.selections (s : Kernel) : Pos → List Selection
  | .ttyRead tty _ _ => readSelections tty.val
  | .ttyWrite tty _ _ | .ttyBatch tty _ _ _ => writeSelections tty.val
  | .cvarWoken _ lockId => [s.lockSlot lockId]
  | _ => []

def Input.selections (s : Kernel) : Input → List Selection
  | .kernelCall call oracle => call.selections oracle s
  | .resume _ => s.cpu.selections s
  | _ => []

/-- The remainder of an id is an index of the sets if the id is not negative or divisible. -/
def GoodId (id : Int) : Prop := 0 ≤ id ∨ (syncMapHashBuckets : Int) ∣ id

def GoodTty (ttyId : Int) : Prop := 0 ≤ ttyId ∧ ttyId < numTerminals

/-- The values of a call are good unless the call returns before it uses them. -/
def Call.InRange (oracle : Oracle) (s : Kernel) : Call → Prop
  | .ttyRead ttyId buf len =>
      passesChecks oracle ⟨false, true, false⟩ buf len s.toScheduler = true → GoodTty ttyId
  | .ttyWrite ttyId buf len _ =>
      passesChecks oracle ⟨true, false, false⟩ buf len s.toScheduler = true → GoodTty ttyId
  | .acquire id | .release id | .cvarSignal id | .cvarBroadcast id | .reclaim id => GoodId id
  | .cvarWait cvarId lockId => GoodId cvarId ∧ (cvarId ∈ s.cvarMap.keys → GoodId lockId)
  | .pipeRead pipeId len | .pipeWrite pipeId len _ => 0 < len → GoodId pipeId
  | _ => True

def Input.InRange (s : Kernel) : Input → Prop
  | .kernelCall call oracle => call.InRange oracle s
  | _ => True

omit [Hardware] in
theorem slot_nonneg {A : Type} {hm : HashMap A} (size : hm.sets.length = syncMapHashBuckets)
    (id : Int) : hm.Fits id ↔ GoodId id := by
  unfold HashMap.Fits GoodId
  rw [size, Int.tmod_eq_emod]
  unfold syncMapHashBuckets
  split <;> omega

/-- The remainder of C is always less than the size, so only its sign matters. -/
theorem setSlot_inside {A : Type} {hm : HashMap A} {array : KernelArray}
    (sets : s.arraySize array = hm.sets.length) (size : hm.sets.length = syncMapHashBuckets)
    (id : Int) : (⟨array, hm.slot id⟩ : Selection).Inside s ↔ GoodId id := by
  rw [← slot_nonneg size]
  have below : id.tmod hm.sets.length < hm.sets.length :=
    Int.tmod_lt_of_pos id (by exact_mod_cast hm.positive)
  unfold Selection.Inside
  rw [sets]
  exact and_iff_left below

theorem lockSlot_inside (sound : Sound s) (id : Int) : (s.lockSlot id).Inside s ↔ GoodId id :=
  setSlot_inside rfl sound.named.lock.size id

theorem cvarSlot_inside (sound : Sound s) (id : Int) : (s.cvarSlot id).Inside s ↔ GoodId id :=
  setSlot_inside rfl sound.named.cvar.size id

theorem pipeSlot_inside (sound : Sound s) (id : Int) : (s.pipeSlot id).Inside s ↔ GoodId id :=
  setSlot_inside rfl sound.named.pipe.size id

theorem readSelections_inside (ttyId : Int) :
    (∀ x ∈ readSelections ttyId, x.Inside s) ↔ GoodTty ttyId := by
  rw [readSelections, List.forall_mem_cons, List.forall_mem_singleton]
  exact and_self_iff

theorem writeSelections_inside (ttyId : Int) :
    (∀ x ∈ writeSelections ttyId, x.Inside s) ↔ GoodTty ttyId := by
  rw [writeSelections, List.forall_mem_cons, List.forall_mem_singleton]
  exact and_self_iff

omit [Hardware] in
/-- A selection that is made on a condition lies inside if it lies inside on this condition. -/
theorem forall_mem_ite {A : Type} {condition : Prop} [Decidable condition] {list : List A}
    {inside : A → Prop} :
    (∀ x ∈ if condition then list else [], inside x) ↔ (condition → ∀ x ∈ list, inside x) := by
  split
  · rename_i holds
    exact ⟨fun all _ => all, fun all => all holds⟩
  · rename_i fails
    exact iff_of_true (fun _ member => nomatch member) (fun holds => absurd holds fails)

/-- The selections of a call lie inside their arrays exactly for values in range. -/
theorem Call.selections_inside (sound : Sound s) (call : Call) (oracle : Oracle) :
    (∀ x ∈ call.selections oracle s, x.Inside s) ↔ call.InRange oracle s := by
  have one {x : Selection} : (∀ y ∈ [x], y.Inside s) ↔ x.Inside s := List.forall_mem_singleton
  cases call with
  | ttyRead ttyId buf len =>
      exact forall_mem_ite.trans (imp_congr_right fun _ => readSelections_inside ttyId)
  | ttyWrite ttyId buf len bytes =>
      exact forall_mem_ite.trans (imp_congr_right fun _ => writeSelections_inside ttyId)
  | acquire id => exact one.trans (lockSlot_inside sound id)
  | release id => exact one.trans (lockSlot_inside sound id)
  | cvarSignal id => exact one.trans (cvarSlot_inside sound id)
  | cvarBroadcast id => exact one.trans (cvarSlot_inside sound id)
  | cvarWait cvarId lockId =>
      refine List.forall_mem_cons.trans (and_congr (cvarSlot_inside sound cvarId) ?_)
      exact forall_mem_ite.trans (imp_congr_right fun _ => one.trans (lockSlot_inside sound lockId))
  | pipeRead id len =>
      exact forall_mem_ite.trans (imp_congr_right fun _ => one.trans (pipeSlot_inside sound id))
  | pipeWrite id len bytes =>
      exact forall_mem_ite.trans (imp_congr_right fun _ => one.trans (pipeSlot_inside sound id))
  | reclaim id =>
      rw [Call.InRange, Call.selections, List.forall_mem_cons, lockSlot_inside sound]
      refine and_iff_left_of_imp fun good => ?_
      split
      · exact fun _ member => nomatch member
      · refine List.forall_mem_cons.mpr ⟨(cvarSlot_inside sound id).mpr good, ?_⟩
        split
        · exact fun _ member => nomatch member
        · exact one.mpr ((pipeSlot_inside sound id).mpr good)
  | _ => exact iff_of_true (fun _ member => nomatch member) trivial

/-- Only a call of `KernelCvarWait` with a known id leaves a process at the second acquire. -/
theorem View.Step.cvarWoken {p next : Addr} {act : Option Call} {v w : View}
    (step : v.Step p next act w) (live : p ∈ v.live) {cvarId lockId : Int}
    (point : (w.proc p).pos = .cvarWoken cvarId lockId) (stays : p ∈ w.live) :
    act = some (.cvarWait cvarId lockId) ∧ cvarId ∈ v.cvarIds := by
  have finished (c : Crowd) (call : Call) (code : Int) :
      ((c.finish p call code).proc p).pos ≠ .cvarWoken cvarId lockId := by
    rw [Crowd.finish_pos, if_pos rfl]
    exact fun same => nomatch same
  have suspended (c : Crowd) {k : Pos} (other : k ≠ .cvarWoken cvarId lockId) :
      (((c.move p k).block p).proc p).pos ≠ .cvarWoken cvarId lockId := by
    rw [Crowd.block_proc, Crowd.move_pos, if_pos rfl]
    exact other
  cases step with
  | crowd step =>
      cases step with
      | quiet _ after _ =>
          rw [Crowd.move_pos, if_pos rfl] at point
          subst point
          cases after
      | forkFailed _ _ => exact absurd point (finished _ _ _)
      | fork _ fresh _ =>
          change ((v.toCrowd.fork p _).proc p).pos = _ at point
          rw [Family.fork_proc p (by rintro rfl; exact fresh live)] at point
          dsimp only at point
          rw [if_pos rfl] at point
          cases point
      | forkReturn _ => exact absurd point (finished _ _ _)
      | exit _ _ => exact absurd stays (Finset.notMem_erase _ _)
      | waitBlock _ _ => exact absurd point (suspended _ fun same => nomatch same)
      | waitCollect _ _ => exact absurd point (finished _ _ _)
      | waitEmpty _ _ => exact absurd point (finished _ _ _)
  | acquireBlock _ _ _ => exact absurd point (suspended _ fun same => nomatch same)
  | cvarWait called _ known _ _ =>
      change (((_ : Crowd).block p).proc p).pos = _ at point
      rw [Crowd.block_proc, Crowd.move_pos, if_pos rfl] at point
      cases point
      exact ⟨called, known⟩
  | pipeBlock _ _ => exact absurd point (suspended _ fun same => nomatch same)
  | _ => exact absurd point (finished _ _ _)

/-- A wait that finds its condition variable has looked up its lock. -/
theorem kernelCvarWait_fits {cvarId lockId : Int} {flow : Flow Kernel}
    (known : cvarId ∈ s.cvarMap.keys) (done : kernelCvarWait cvarId lockId s = .ok flow) :
    s.lockMap.Fits lockId := by
  obtain ⟨cvarp, found⟩ := HashMap.find_of_mem known
  rw [kernelCvarWait, found, Outcome.ok_bind] at done
  obtain ⟨cvarQ, -, done⟩ := Outcome.bind_eq_ok.mp done
  obtain ⟨released, release, -⟩ := Outcome.bind_eq_ok.mp done
  obtain ⟨lock, looked, -⟩ := Outcome.bind_eq_ok.mp release
  exact HashMap.fits_of_find looked

/-- Each process that waits on a condition variable goes on with a good lock id. -/
def Kernel.WaitersGood (s : Kernel) : Prop :=
  ∀ a ∈ s.live, ∀ cvarId lockId, s.pos a = .cvarWoken cvarId lockId → GoodId lockId

theorem Sound.waitersGood_step {i : Input} (sound : Sound s) (good : s.WaitersGood)
    (next : yallnix.step s i t) : t.WaitersGood := by
  obtain ⟨after, step⟩ := sound.step next
  have live := sound.placed.live
  intro a inside cvarId lockId point
  by_cases same : a = s.currPCB
  · subst same
    obtain ⟨called, known⟩ := step.cvarWoken live point inside
    obtain ⟨-, done⟩ := next
    cases i with
    | kernelCall call oracle =>
        cases called
        obtain ⟨flow, waited, -⟩ := Outcome.bind_eq_ok.mp done
        exact (slot_nonneg sound.named.lock.size lockId).mp (kernelCvarWait_fits known waited)
    | _ => cases called
  · rcases step.family.live inside with old | ⟨_, _, forked⟩
    · have kept := (step.family.other old same).2.1
      exact good a old cvarId lockId (kept.symm.trans point)
    · have other := point.symm.trans forked
      cases other

theorem reachable_waitersGood (reachable : yallnix.Reachable s) : s.WaitersGood := by
  refine reachable.invariant_of_reachable (fun _ => reachable_sound) ?_
    fun _ _ _ sound good _ next => sound.waitersGood_step good next
  rintro s ⟨boot, done⟩ a live cvarId lockId point
  have plain := (kernelStart_fresh done).2.1.plain a live
  change (s.pos a).isPlain = true at plain
  rw [point] at plain
  cases plain

theorem Sound.selectsInside (sound : Sound s) (good : s.WaitersGood) (i : Input) :
    (∀ x ∈ i.selections s, x.Inside s) ↔ i.InRange s := by
  cases i with
  | kernelCall call oracle => exact call.selections_inside sound oracle
  | resume junk =>
      refine iff_of_true ?_ trivial
      change ∀ x ∈ s.cpu.selections s, x.Inside s
      cases point : s.cpu with
      | ttyRead tty call len =>
          exact (readSelections_inside _).mpr ⟨by omega, by exact_mod_cast tty.isLt⟩
      | ttyWrite tty call bytes =>
          exact (writeSelections_inside _).mpr ⟨by omega, by exact_mod_cast tty.isLt⟩
      | ttyBatch tty call bytes n =>
          exact (writeSelections_inside _).mpr ⟨by omega, by exact_mod_cast tty.isLt⟩
      | cvarWoken cvarId lockId =>
          refine List.forall_mem_singleton.mpr ((lockSlot_inside sound lockId).mpr ?_)
          exact good s.currPCB sound.placed.live cvarId lockId (s.pos_curr.trans point)
      | _ => exact fun _ member => nomatch member
  | _ => exact iff_of_true (fun _ member => nomatch member) trivial

/-- Every element that a user value selects lies in its array exactly for values in range. -/
theorem reachable_selectsInside (reachable : yallnix.Reachable s) (i : Input) :
    (∀ x ∈ i.selections s, x.Inside s) ↔ i.InRange s :=
  (reachable_sound reachable).selectsInside (reachable_waitersGood reachable) i

theorem ttyIndex_outside {ttyId : Int} (outside : ¬GoodTty ttyId) :
    ttyIndex ttyId = .error .fault := by
  unfold ttyIndex
  exact dif_neg outside

omit [Hardware] in
theorem find_outside {A : Type} {hm : HashMap A} {id : Int}
    (size : hm.sets.length = syncMapHashBuckets) (outside : ¬GoodId id) :
    hashMapFind hm id = .error .fault :=
  HashMap.find_of_not_fits fun fits => outside ((slot_nonneg size id).mp fits)

theorem kernelTtyRead_eq {ttyId len : Int} {buf : Nat}
    (passes : passesChecks oracle ⟨false, true, false⟩ buf len s.toScheduler = true) :
    kernelTtyRead oracle ttyId buf len s =
      ttyIndex ttyId >>= fun tty => readBufferLoop tty (.ttyRead ttyId buf len) len s := by
  rw [passesChecks, Bool.and_eq_true, Bool.and_eq_true, decide_eq_true_eq, decide_eq_true_eq]
    at passes
  obtain ⟨⟨user, positive⟩, valid⟩ := passes
  rw [kernelTtyRead, if_neg (Nat.not_lt.mpr user), if_neg (by omega), if_neg (by omega), valid]
  rfl

theorem kernelTtyWrite_eq {ttyId len : Int} {buf : Nat} {bytes : List Byte}
    (passes : passesChecks oracle ⟨true, false, false⟩ buf len s.toScheduler = true) :
    kernelTtyWrite oracle ttyId buf len bytes s.toScheduler =
      ttyIndex ttyId >>= fun tty =>
        return ttyWriteLoop tty (.ttyWrite ttyId buf len bytes) bytes s.toScheduler := by
  rw [passesChecks, Bool.and_eq_true, Bool.and_eq_true, decide_eq_true_eq, decide_eq_true_eq]
    at passes
  obtain ⟨⟨user, positive⟩, valid⟩ := passes
  rw [kernelTtyWrite, if_neg (Nat.not_lt.mpr user), if_neg (by omega), if_neg (by omega), valid]
  rfl

theorem handleTrapKernel_outside (sound : Sound s) (outside : ¬call.InRange oracle s) :
    handleTrapKernel oracle call s = .error .fault := by
  have size := sound.named.lock.size
  cases call with
  | ttyRead ttyId buf len =>
      obtain ⟨passes, bad⟩ := Classical.not_imp.mp outside
      rw [handleTrapKernel, kernelTtyRead_eq passes, ttyIndex_outside bad]
      rfl
  | ttyWrite ttyId buf len bytes =>
      obtain ⟨passes, bad⟩ := Classical.not_imp.mp outside
      rw [handleTrapKernel, kernelTtyWrite_eq passes, ttyIndex_outside bad]
      rfl
  | acquire id =>
      rw [handleTrapKernel, kernelAcquire, find_outside size outside]
      rfl
  | release id =>
      rw [handleTrapKernel, kernelRelease, find_outside size outside]
      rfl
  | cvarSignal id =>
      rw [handleTrapKernel, kernelCvarSignal, find_outside sound.named.cvar.size outside]
      rfl
  | cvarBroadcast id =>
      rw [handleTrapKernel, kernelCvarBroadcast, find_outside sound.named.cvar.size outside]
      rfl
  | cvarWait cvarId lockId =>
      by_cases good : GoodId cvarId
      · obtain ⟨known, bad⟩ := Classical.not_imp.mp fun all => outside ⟨good, all⟩
        obtain ⟨cvarp, found⟩ := HashMap.find_of_mem known
        rw [handleTrapKernel, kernelCvarWait, found, Outcome.ok_bind]
        cases object : s.cvars cvarp with
        | none =>
            dsimp only
            rw [object]
            rfl
        | some cvarQ =>
            dsimp only
            rw [object]
            have looked : hashMapFind
                (s.setCvar cvarp (some (enqQ cvarQ s.currPCB))).lockMap lockId =
              .error .fault := find_outside size bad
            rw [deref, Outcome.ok_bind, kernelRelease, looked]
            rfl
      · rw [handleTrapKernel, kernelCvarWait, find_outside sound.named.cvar.size good]
        rfl
  | pipeRead id len =>
      obtain ⟨positive, bad⟩ := Classical.not_imp.mp outside
      rw [handleTrapKernel, kernelPipeRead, if_neg (by omega), if_neg (by omega),
        find_outside sound.named.pipe.size bad]
      rfl
  | pipeWrite id len bytes =>
      obtain ⟨positive, bad⟩ := Classical.not_imp.mp outside
      rw [handleTrapKernel, kernelPipeWrite, if_neg (by omega), if_neg (by omega),
        find_outside sound.named.pipe.size bad]
      rfl
  | reclaim id =>
      rw [handleTrapKernel, kernelReclaim, find_outside size outside]
      rfl
  | _ => exact absurd trivial outside

/-- An input that selects an element outside an array has no defined result. -/
theorem handle_outside (reachable : yallnix.Reachable s) {i : Input} {x : Selection}
    (selects : x ∈ i.selections s) (outside : ¬x.Inside s) : handle s i = .error .fault := by
  have sound := reachable_sound reachable
  have bad : ¬i.InRange s := fun good =>
    outside ((sound.selectsInside (reachable_waitersGood reachable) i).mpr good x selects)
  cases i with
  | kernelCall call oracle => exact handleTrapKernel_outside sound bad
  | _ => exact absurd trivial bad

end

section
attribute [local instance] smallHardware

/-- A lock with a good id is looked up in its own array. -/
theorem smallRun_selectsInside :
    ∃ s : Kernel, yallnix.Reachable s ∧ ∀ x ∈ (asks (.acquire 0)).selections s, x.Inside s := by
  obtain ⟨s, reachable, -⟩ := exists_reachable (fun _ => true) [asks .lockInit] (by decide +kernel)
  exact ⟨s, reachable, (reachable_selectsInside reachable _).mpr (.inl (by decide))⟩

/-- The id `-1` selects the element before the first set of `lockMap`. -/
theorem selectsInside_false :
    ¬∀ (s : Kernel) (i : Input), yallnix.Reachable s → enabled s i = true →
      ∀ x ∈ i.selections s, x.Inside s := by
  intro all
  obtain ⟨s, reachable, tested⟩ := exists_reachable
    (fun s => enabled s (asks (.acquire (-1))) && !decide ((s.lockSlot (-1)).Inside s)) []
    (by decide +kernel)
  rw [Bool.and_eq_true, Bool.not_eq_true', decide_eq_false_iff_not] at tested
  exact tested.2 (all s _ reachable tested.1 _ List.mem_cons_self)

end

end Yallnix

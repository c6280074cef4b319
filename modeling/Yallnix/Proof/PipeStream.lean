import Yallnix.Construction.SmallMachine
import Yallnix.Proof.WakeStep
import Yallnix.Proof.PipeStep
import Mathlib.Data.Finset.Card

namespace Yallnix

section
variable [Hardware]

/-- The bytes that reads took from a pipe, in the order of the reads. -/
def bytesRead (pipep : ObjPtr) : List Event → List Byte
  | [] => []
  | .pipeRead q _ bytes :: log =>
      if q = pipep then bytesRead pipep log ++ bytes else bytesRead pipep log
  | _ :: log => bytesRead pipep log

/-- The bytes that accepted writes brought to a pipe, in the order of the writes. -/
def bytesWritten (pipep : ObjPtr) : List Event → List Byte
  | [] => []
  | .pipeWritten q bytes :: log =>
      if q = pipep then bytesWritten pipep log ++ bytes else bytesWritten pipep log
  | _ :: log => bytesWritten pipep log

theorem bytes_silent (pipep : ObjPtr) {events log : List Event}
    (silent : ∀ event ∈ events, event.isPipe = false) :
    bytesRead pipep (events ++ log) = bytesRead pipep log ∧
      bytesWritten pipep (events ++ log) = bytesWritten pipep log := by
  induction events with
  | nil => exact ⟨rfl, rfl⟩
  | cons event events ih =>
      obtain ⟨read, written⟩ := ih fun e member => silent e (List.mem_cons_of_mem _ member)
      have quiet := silent event List.mem_cons_self
      cases event <;> first | exact ⟨read, written⟩ | cases quiet

/-- The buffer has its full size and the number of bytes is in its range. -/
structure Pipe.Fits (pipe : Pipe) : Prop where
  size : pipe.buffer.length = pipeMaxBytes
  nonneg : 0 ≤ pipe.numBytesWritten
  bound : pipe.numBytesWritten ≤ pipeMaxBytes

/-- These bytes of the buffer are written and not yet read. -/
def Pipe.content (pipe : Pipe) : List Byte := pipe.buffer.take pipe.numBytesWritten.toNat

namespace Pipe.Fits

variable {pipe : Pipe} {len : Int}

theorem taken (fits : pipe.Fits) (enough : len ≤ pipe.numBytesWritten) :
    (pipe.buffer.take len.toNat).length = len.toNat := by
  have size := fits.size
  have bound := fits.bound
  rw [List.length_take]
  omega

/-- A read leaves the bytes behind the ones that it takes. -/
theorem consumed (fits : pipe.Fits) (positive : 0 < len) (enough : len ≤ pipe.numBytesWritten)
    (rest : Queue Addr) :
    (pipe.consumed len rest).Fits ∧
      pipe.content = pipe.buffer.take len.toNat ++ (pipe.consumed len rest).content := by
  have size := fits.size
  have bound := fits.bound
  have left : (pipe.numBytesWritten - len).toNat = pipe.numBytesWritten.toNat - len.toNat := by
    omega
  have split : pipe.content = pipe.buffer.take len.toNat ++
      (pipe.buffer.drop len.toNat).take (pipe.numBytesWritten - len).toNat := by
    rw [left, Pipe.content, ← List.take_add]
    congr 1
    omega
  have moved : ((pipe.buffer.drop len.toNat).take (pipe.numBytesWritten - len).toNat).length =
      (pipe.numBytesWritten - len).toNat := by
    rw [List.length_take, List.length_drop]
    omega
  by_cases remain : 0 < pipe.numBytesWritten - len
  · refine ⟨⟨?_, by simp only [Pipe.consumed]; omega, by simp only [Pipe.consumed]; omega⟩, ?_⟩
    · simp only [Pipe.consumed, if_pos remain]
      rw [List.length_append, moved, List.length_drop]
      omega
    · rw [split, Pipe.content]
      simp only [Pipe.consumed, if_pos remain]
      rw [List.take_append_of_le_length (by omega), List.take_take, min_self]
  · refine ⟨⟨?_, by simp only [Pipe.consumed]; omega, by simp only [Pipe.consumed]; omega⟩, ?_⟩
    · simp only [Pipe.consumed, if_neg remain]
      exact size
    · have none : (pipe.numBytesWritten - len).toNat = 0 := by omega
      rw [split, none, Pipe.content]
      simp only [Pipe.consumed, none, List.take_zero]

/-- A copy puts its bytes behind the ones that are there. -/
theorem written (fits : pipe.Fits) {bytes buffer : List Byte} (size : bytes.length = len.toNat)
    (positive : 0 < len) (copied : memmove pipe.buffer pipe.numBytesWritten bytes = .ok buffer)
    (queue : Queue Addr) :
    (⟨buffer, pipe.numBytesWritten + len, queue⟩ : Pipe).Fits ∧
      Pipe.content ⟨buffer, pipe.numBytesWritten + len, queue⟩ = pipe.content ++ bytes := by
  have full := fits.size
  have nonneg := fits.nonneg
  unfold memmove at copied
  split at copied
  · rename_i inside
    cases copied
    have before : (pipe.buffer.take pipe.numBytesWritten.toNat).length =
        pipe.numBytesWritten.toNat := by
      rw [List.length_take]
      omega
    refine ⟨⟨?_, ?_, ?_⟩, ?_⟩
    · rw [List.length_append, List.length_append, before, List.length_drop]
      omega
    · change 0 ≤ pipe.numBytesWritten + len
      omega
    · change pipe.numBytesWritten + len ≤ pipeMaxBytes
      omega
    · change List.take (pipe.numBytesWritten + len).toNat _ = _
      rw [List.take_append_of_le_length, List.take_of_length_le, Pipe.content]
      · rw [List.length_append, before]
        omega
      · rw [List.length_append, before]
        omega
  · cases copied

end Pipe.Fits

/-- Silent events move no bytes. -/
theorem bytes_writes (pipep : ObjPtr) {c d : Crowd}
    (writes : Crowd.Writes (fun event => event.isPipe = false) c d) :
    bytesRead pipep d.log = bytesRead pipep c.log ∧
      bytesWritten pipep d.log = bytesWritten pipep c.log := by
  obtain ⟨events, after, silent⟩ := writes
  rw [after]
  exact bytes_silent pipep silent

namespace View

variable {p next : Addr} {act : Option Call} {v w : View}

/-- The live processes inside the loop of `KernelPipeRead` on one pipe. -/
def readers (v : View) (pipep : ObjPtr) : Finset Addr :=
  v.live.filter fun a => (v.proc a).pos.usesPipe pipep = true

theorem mem_readers {pipep : ObjPtr} {a : Addr} :
    a ∈ v.readers pipep ↔ a ∈ v.live ∧ (v.proc a).pos.usesPipe pipep = true := Finset.mem_filter

/-- Only the running process enters or leaves a loop. -/
theorem readers_card (family : v.toCrowd.FamilyStep p next w.toCrowd) (pipep : ObjPtr) :
    (w.readers pipep).card + (if p ∈ v.readers pipep then 1 else 0) =
      (v.readers pipep).card + (if p ∈ w.readers pipep then 1 else 0) := by
  have others : (w.readers pipep).erase p = (v.readers pipep).erase p := by
    ext a
    rw [Finset.mem_erase, Finset.mem_erase, mem_readers, mem_readers]
    refine and_congr_right fun differs => ⟨?_, ?_⟩
    · rintro ⟨live, uses⟩
      rcases family.live live with old | ⟨_, _, forked⟩
      · exact ⟨old, (family.other old differs).2.1 ▸ uses⟩
      · rw [forked] at uses
        cases uses
    · rintro ⟨old, uses⟩
      obtain ⟨live, pos, _⟩ := family.other old differs
      exact ⟨live, pos ▸ uses⟩
  have count (set : Finset Addr) : set.card = (set.erase p).card + if p ∈ set then 1 else 0 := by
    by_cases inside : p ∈ set
    · rw [if_pos inside, Finset.card_erase_add_one inside]
    · rw [if_neg inside, Finset.erase_eq_of_notMem inside, Nat.add_zero]
  have before := count (v.readers pipep)
  have after := count (w.readers pipep)
  rw [others] at after
  omega

/-- A step leaves a pipe alone. -/
structure Untouched (q : ObjPtr) (v w : View) : Prop where
  pipe : w.pipes q = v.pipes q
  bytes : bytesRead q w.log = bytesRead q v.log ∧ bytesWritten q w.log = bytesWritten q v.log
  readers : (w.readers q).card = (v.readers q).card

/-- The bytes of a pipe are in order, and its queue is as long as the number of its readers. -/
structure StreamOf (v : View) (q : ObjPtr) : Prop where
  fits : ∀ pipe, v.pipes q = some pipe → pipe.Fits
  stream : ∀ pipe, v.pipes q = some pipe →
    bytesRead q v.log ++ pipe.content = bytesWritten q v.log
  queue : ∀ pipe, v.pipes q = some pipe → pipe.waitingQ.length = (v.readers q).card
  alone : v.pipes q = none → (v.readers q).card = 0
  fresh : v.nextSyncId ≤ q → bytesRead q v.log = [] ∧ bytesWritten q v.log = []

theorem StreamOf.untouched {q : ObjPtr} (stream : v.StreamOf q) (untouched : Untouched q v w)
    (later : v.nextSyncId ≤ w.nextSyncId) : w.StreamOf q where
  fits := untouched.pipe ▸ stream.fits
  stream pipe object := by
    rw [untouched.bytes.1, untouched.bytes.2]
    exact stream.stream pipe (untouched.pipe ▸ object)
  queue pipe object := by
    rw [untouched.readers]
    exact stream.queue pipe (untouched.pipe ▸ object)
  alone none := by
    rw [untouched.readers]
    exact stream.alone (untouched.pipe ▸ none)
  fresh below := by
    rw [untouched.bytes.1, untouched.bytes.2]
    exact stream.fresh (later.trans below)

/-- A step that keeps the running process outside of the loop keeps the number of readers. -/
theorem readers_same (family : v.toCrowd.FamilyStep p next w.toCrowd) {q : ObjPtr}
    (point : p ∈ w.readers q ↔ p ∈ v.readers q) :
    (w.readers q).card = (v.readers q).card := by
  have count := readers_card family q
  by_cases inside : p ∈ v.readers q
  · rw [if_pos inside, if_pos (point.mpr inside)] at count
    omega
  · rw [if_neg inside, if_neg fun after => inside (point.mp after)] at count
    omega

theorem notMem_readers {q : ObjPtr} (outside : (v.proc p).pos.usesPipe q = false) :
    p ∉ v.readers q := by
  intro inside
  rw [(mem_readers.mp inside).2] at outside
  cases outside

theorem usesPipe_of_isPipe {k : Pos} (outside : k.isPipe = false) (q : ObjPtr) :
    k.usesPipe q = false := by
  cases k <;> first | rfl | cases outside

/-- The counter of the ids never goes back. -/
theorem Step.nextSyncId (bounded : v.toObjects.Bounded) (step : v.Step p next act w) :
    v.nextSyncId ≤ w.nextSyncId := by
  have same {u : View} (same : u.nextSyncId = v.nextSyncId) : v.nextSyncId ≤ u.nextSyncId :=
    same.ge
  cases step with
  | lockInit _ => exact Int.le_add_one le_rfl
  | cvarInit _ => exact Int.le_add_one le_rfl
  | pipeInit _ _ => exact Int.le_add_one le_rfl
  | @release _ w _ _ releases =>
      obtain ⟨_, _, _, _, after⟩ := releases.objects
      exact same (u := w) (by rw [after]; rfl)
  | @cvarWait _ _ _ w _ _ _ _ releases =>
      rcases releases with rfl | releases
      · exact le_rfl
      · obtain ⟨_, _, _, _, after⟩ := releases.objects
        exact same (u := w) (by rw [after]; rfl)
  | @signal _ w _ _ _ dequeues =>
      rcases dequeues with ⟨_, rfl⟩ | dequeues
      · exact le_rfl
      · obtain ⟨_, _, _, after⟩ := dequeues.objects
        exact same (u := w) (by rw [after]; rfl)
  | @broadcast c w _ _ known dequeues _ =>
      exact same (u := w)
        (by rw [(dequeuesAll_objects (bounded.cvar.present c known) dequeues).2]; rfl)
  | pipeBlock reads _ => cases reads <;> exact le_rfl
  | @pipeTake _ _ _ _ _ _ _ x reads _ _ _ wakes =>
      refine same (u := x) ?_
      rw [objects_of_wakes wakes]
      cases reads <;> rfl
  | pipeDry reads _ _ => cases reads <;> exact le_rfl
  | @pipeWrite _ _ _ _ _ w _ _ _ _ _ _ _ _ wakes =>
      exact same (u := w) (by rw [wakes.objects]; rfl)
  | _ => exact le_rfl

/-- A read counts the running process once in its queue. -/
theorem Reads.stream (streams : ∀ q, v.StreamOf q) (positive : v.ReadersPositive)
    (live : p ∈ v.live) {pipep : ObjPtr} {pipeId len : Int} {pipe : Pipe}
    (reads : v.Reads p act pipep len pipeId pipe w) :
    0 < len ∧ pipe.Fits ∧ bytesRead pipep v.log ++ pipe.content = bytesWritten pipep v.log ∧
      pipe.waitingQ.length =
        (v.readers pipep).card + (if p ∈ v.readers pipep then 0 else 1) := by
  cases reads with
  | @call pipe _ user _ more object =>
      have fits := (streams pipep).fits pipe object
      have outside : p ∉ v.readers pipep := notMem_readers (by rw [user]; rfl)
      refine ⟨more, ⟨fits.size, fits.nonneg, fits.bound⟩, (streams pipep).stream pipe object, ?_⟩
      rw [if_neg outside, ← (streams pipep).queue pipe object]
      exact List.length_append
  | again point object =>
      have inside : p ∈ v.readers pipep := by
        rw [mem_readers, point]
        exact ⟨live, decide_eq_true rfl⟩
      refine ⟨positive p live _ _ _ point, (streams pipep).fits pipe object,
        (streams pipep).stream pipe object, ?_⟩
      rw [if_pos inside]
      exact (streams pipep).queue pipe object

/-- A reader that runs always finds an entry in the queue. -/
theorem Reads.not_empty (streams : ∀ q, v.StreamOf q) (positive : v.ReadersPositive)
    (live : p ∈ v.live) {pipep : ObjPtr} {pipeId len : Int} {pipe : Pipe}
    (reads : v.Reads p act pipep len pipeId pipe w) : pipe.waitingQ ≠ [] := by
  intro empty
  have count := (reads.stream streams positive live).2.2.2
  rw [empty] at count
  split at count
  · rename_i inside
    have some := Finset.card_pos.mpr ⟨p, inside⟩
    change 0 = _ + 0 at count
    omega
  · change 0 = _ + 1 at count
    omega

/-- The wake-up after a read moves no byte and no process. -/
theorem writes_of_wakes {u : View} {remains : Prop} [Decidable remains] {pipep : ObjPtr}
    {waitingQ : Queue Addr} {pipe : Option Pipe} {event : Event}
    (wakes : if remains then ((u.setPipe pipep pipe).record event).WakesHead pipep waitingQ w
      else w = (u.setPipe pipep pipe).record event) :
    Crowd.Writes (fun event => event.isPipe = false) (u.toCrowd.record event) w.toCrowd ∧
      w.proc = u.proc := by
  split at wakes
  · refine ⟨silent_wakesHead (v := (u.setPipe pipep pipe).record event) wakes, ?_⟩
    cases wakes with
    | empty => rfl
    | head woken =>
        cases woken with
        | mk woken => exact woken.same.1
  · rw [wakes]
    exact ⟨.same rfl, rfl⟩

/-- A step that changes one pipe leaves the others alone. -/
theorem Untouched.of (family : v.toCrowd.FamilyStep p next w.toCrowd) {q : ObjPtr}
    (pipe : w.pipes q = v.pipes q)
    (bytes : bytesRead q w.log = bytesRead q v.log ∧ bytesWritten q w.log = bytesWritten q v.log)
    (before : (v.proc p).pos.usesPipe q = false)
    (after : p ∈ w.live → (w.proc p).pos.usesPipe q = false) : Untouched q v w where
  pipe := pipe
  bytes := bytes
  readers := by
    refine readers_same family ⟨fun inside => ?_, fun inside => absurd inside (notMem_readers before)⟩
    obtain ⟨live, uses⟩ := mem_readers.mp inside
    rw [after live] at uses
    cases uses

theorem StreamOf.of {q : ObjPtr} (pipe : Pipe) (object : w.pipes q = some pipe)
    (below : q < w.nextSyncId) (fits : pipe.Fits)
    (stream : bytesRead q w.log ++ pipe.content = bytesWritten q w.log)
    (queue : pipe.waitingQ.length = (w.readers q).card) : w.StreamOf q where
  fits other same := Option.some.inj (object.symm.trans same) ▸ fits
  stream other same := Option.some.inj (object.symm.trans same) ▸ stream
  queue other same := Option.some.inj (object.symm.trans same) ▸ queue
  alone none := by
    rw [object] at none
    cases none
  fresh above := absurd above (not_le.mpr below)

/-- The loop of one pipe uses no other pipe. -/
theorem Reads.usesPipe_of_ne {pipep q : ObjPtr} {pipeId len : Int} {pipe : Pipe}
    (reads : v.Reads p act pipep len pipeId pipe w) (differs : q ≠ pipep) :
    (v.proc p).pos.usesPipe q = false := by
  cases reads with
  | call _ user _ _ _ =>
      rw [user]
      rfl
  | again point _ =>
      rw [point]
      exact decide_eq_false (Ne.symm differs)

/-- A read that blocks keeps the bytes and enters its queue. -/
theorem StreamOf.blocks (streams : ∀ q, v.StreamOf q) (positive : v.ReadersPositive)
    (bounded : v.toObjects.Bounded) (live : p ∈ v.live) {pipep : ObjPtr} {pipeId len : Int}
    {pipe : Pipe} (reads : v.Reads p act pipep len pipeId pipe w)
    (family : v.toCrowd.FamilyStep p next (w.suspend p (.pipeRead pipep pipeId len)).toCrowd)
    (q : ObjPtr) : (w.suspend p (.pipeRead pipep pipeId len)).StreamOf q := by
  have log : w.log = v.log := congrArg Crowd.log (keeps_reads reads)
  have ids : w.nextSyncId = v.nextSyncId := by cases reads <;> rfl
  have bytes : bytesRead q w.log = bytesRead q v.log ∧ bytesWritten q w.log = bytesWritten q v.log :=
    ⟨by rw [log], by rw [log]⟩
  by_cases here : q = pipep
  · subst here
    obtain ⟨_, fits, stream, queue⟩ := reads.stream streams positive live
    refine .of _ reads.pipe ?_ fits ?_ ?_
    · exact (bounded.reads reads).1.pipe.below q (by rw [reads.pipe]; exact Option.some_ne_none _)
    · change bytesRead q w.log ++ _ = bytesWritten q w.log
      rw [log]
      exact stream
    · have count := readers_card family q
      have inside : p ∈ (w.suspend p (.pipeRead q pipeId len)).readers q := by
        rw [mem_readers, suspend_pos]
        exact ⟨(congrArg Crowd.live (keeps_reads reads)).symm ▸ live, decide_eq_true rfl⟩
      rw [if_pos inside] at count
      split at queue <;> rename_i before
      · rw [if_pos before] at count
        omega
      · rw [if_neg before] at count
        omega
  · refine (streams q).untouched (.of family (reads.pipe_of_ne here) bytes
      (reads.usesPipe_of_ne here) fun _ => ?_) ids.ge
    rw [suspend_pos]
    exact decide_eq_false (Ne.symm here)

/-- A read that completes takes its bytes and leaves its queue. -/
theorem StreamOf.takes (streams : ∀ q, v.StreamOf q) (positive : v.ReadersPositive)
    (bounded : v.toObjects.Bounded) (live : p ∈ v.live) {pipep : ObjPtr} {pipeId len : Int}
    {pipe : Pipe} {first : Addr} {rest : Queue Addr} {u : View}
    (reads : v.Reads p act pipep len pipeId pipe u) (enough : len ≤ pipe.numBytesWritten)
    (queue : pipe.waitingQ = first :: rest)
    (objects : w.toObjects = (u.setPipe pipep (some (pipe.consumed len rest))).toObjects)
    (writes : Crowd.Writes (fun event => event.isPipe = false)
      (u.toCrowd.record (.pipeRead pipep len (pipe.buffer.take len.toNat))) w.toCrowd)
    (family : v.toCrowd.FamilyStep p next w.toCrowd) (outside : (w.proc p).pos.isPipe = false)
    (q : ObjPtr) : w.StreamOf q := by
  have log : u.log = v.log := congrArg Crowd.log (keeps_reads reads)
  have pipes : w.pipes = Function.update u.pipes pipep (some (pipe.consumed len rest)) :=
    congrArg Objects.pipes objects
  have ids : w.nextSyncId = v.nextSyncId := by
    rw [objects]
    cases reads <;> rfl
  obtain ⟨afterRead, afterWritten⟩ := bytes_writes q writes
  by_cases here : q = pipep
  · subst here
    obtain ⟨more, fits, stream, count⟩ := reads.stream streams positive live
    obtain ⟨left, split⟩ := fits.consumed more enough rest
    refine .of _ (by rw [pipes, Function.update_self]) ?_ left ?_ ?_
    · have below := (bounded.reads reads).1.pipe.below q (by simp [reads.pipe])
      rw [ids]
      cases reads <;> exact below
    · rw [afterRead, afterWritten]
      simp only [Crowd.record_log, bytesRead, bytesWritten, if_pos, log]
      rw [List.append_assoc, ← split]
      exact stream
    · have after := readers_card family q
      rw [if_neg (notMem_readers (usesPipe_of_isPipe outside q))] at after
      rw [queue] at count
      change rest.length + 1 = _ at count
      change rest.length = _
      split at count <;> rename_i before
      · rw [if_pos before] at after
        omega
      · rw [if_neg before] at after
        omega
  · have pipeSame : w.pipes q = v.pipes q := by
      rw [pipes, Function.update_of_ne here]
      exact reads.pipe_of_ne here
    refine (streams q).untouched (.of family pipeSame ?_ (reads.usesPipe_of_ne here)
      fun _ => usesPipe_of_isPipe outside q) ids.ge
    rw [afterRead, afterWritten]
    simp only [Crowd.record_log, bytesRead, bytesWritten, if_neg (Ne.symm here), log, and_self]

/-- Every step of the kernel keeps the bytes of every pipe in order. -/
theorem StreamOf.step (streams : ∀ q, v.StreamOf q) (positive : v.ReadersPositive)
    (bounded : v.toObjects.Bounded) (live : p ∈ v.live) (later : v.nextSyncId ≤ w.nextSyncId)
    (family : v.toCrowd.FamilyStep p next w.toCrowd) (step : v.PipeStep p next act w) (q : ObjPtr) :
    w.StreamOf q := by
  cases step with
  | other _ pipes silent before after =>
      exact (streams q).untouched (.of family (congrFun pipes q) (bytes_writes q silent)
        (usesPipe_of_isPipe before q) fun inside => usesPipe_of_isPipe (after inside) q) later
  | @pipeInit buffer user size =>
      have silent : Crowd.Writes (fun event => event.isPipe = false) v.toCrowd
          ((v.created p).finish p .pipeInit successCode).toCrowd :=
        ⟨[_, _], rfl, by simp [Event.isPipe]⟩
      have bytes := bytes_writes q silent
      have outside (w : View) : ((w.finish p .pipeInit successCode).proc p).pos.usesPipe q = false :=
        usesPipe_of_isPipe (finish_isPipe w p _ _) q
      have before : (v.proc p).pos.usesPipe q = false := by
        rw [user]
        rfl
      by_cases here : q = v.nextSyncId
      · subst here
        have absent : v.pipes v.nextSyncId = none := by
          by_contra present
          exact lt_irrefl _ (bounded.pipe.below _ present)
        refine .of ⟨buffer, 0, makeQ⟩ (Function.update_self _ _ _) (Int.lt_add_one_of_le le_rfl)
          ⟨size, le_rfl, Int.natCast_nonneg _⟩ ?_ ?_
        · obtain ⟨noRead, noWritten⟩ := (streams v.nextSyncId).fresh le_rfl
          refine (congrArg (· ++ _) (bytes.1.trans noRead)).trans ?_
          exact (bytes.2.trans noWritten).symm
        · have count := readers_card family v.nextSyncId
          rw [if_neg (notMem_readers before), if_neg (notMem_readers (outside _)),
            (streams v.nextSyncId).alone absent] at count
          exact count.symm
      · exact (streams q).untouched (.of family (Function.update_of_ne here _ _) bytes before
          fun _ => outside _) later
  | pipeBlock reads _ => exact .blocks streams positive bounded live reads family q
  | @pipeTake pipep pipeId len pipe first rest u x reads enough queue _ wakes =>
      have objects : x.toObjects = (u.setPipe pipep (some (pipe.consumed len rest))).toObjects :=
        objects_of_wakes wakes
      refine .takes streams positive bounded live reads enough queue
        (w := x.finish p (.pipeRead pipeId len) len) objects ?_ family (finish_isPipe x p _ _) q
      exact (writes_of_wakes wakes).1.trans (.record rfl rfl)
  | pipeDry reads _ queue => exact absurd queue (reads.not_empty streams positive live)
  | @pipeWrite pipep len bytes buffer pipe x _ user more size object _ copied wakes =>
      have pipes : x.pipes = Function.update v.pipes pipep
          (some ⟨buffer, pipe.numBytesWritten + len, pipe.waitingQ⟩) :=
        congrArg Objects.pipes wakes.objects
      have writes : Crowd.Writes (fun event => event.isPipe = false)
          (v.toCrowd.record (.pipeWritten pipep bytes))
          (x.finish p (.pipeWrite pipep len bytes) len).toCrowd :=
        (silent_wakesHead wakes).trans (.record rfl rfl)
      obtain ⟨afterRead, afterWritten⟩ := bytes_writes q writes
      have before : (v.proc p).pos.usesPipe q = false := by
        rw [user]
        rfl
      have after := usesPipe_of_isPipe (finish_isPipe x p (.pipeWrite pipep len bytes) len) q
      by_cases here : q = pipep
      · subst here
        obtain ⟨fits, content⟩ := ((streams q).fits pipe object).written size more copied
          pipe.waitingQ
        refine .of _ (by rw [View.finish, onCrowd_pipes, pipes, Function.update_self]) ?_ fits ?_ ?_
        · exact (bounded.pipe.below q (by simp [object])).trans_le later
        · rw [afterRead, afterWritten]
          simp only [Crowd.record_log, bytesRead, bytesWritten, if_pos, content]
          rw [← List.append_assoc, (streams q).stream pipe object]
        · have count := readers_card family q
          rw [if_neg (notMem_readers before), if_neg (notMem_readers after)] at count
          exact ((streams q).queue pipe object).trans count.symm
      · refine (streams q).untouched (.of family ?_ ?_ before fun _ => after) later
        · rw [View.finish, onCrowd_pipes, pipes, Function.update_of_ne here]
        · rw [afterRead, afterWritten]
          simp only [Crowd.record_log, bytesRead, bytesWritten, if_neg (Ne.symm here), and_self]
  | @reclaimPipe id pipe user object empty =>
      have silent : Crowd.Writes (fun event => event.isPipe = false) v.toCrowd
          (v.finish p (.reclaim id) successCode).toCrowd := .record rfl rfl
      have before : (v.proc p).pos.usesPipe q = false := by
        rw [user]
        rfl
      have after (w : View) : ((w.finish p (.reclaim id) successCode).proc p).pos.usesPipe q = false :=
        usesPipe_of_isPipe (finish_isPipe w p _ _) q
      by_cases here : q = id
      · subst here
        have count := readers_card family q
        rw [if_neg (notMem_readers before), if_neg (notMem_readers (after _))] at count
        have none : (Function.update v.pipes q none) q = none := Function.update_self _ _ _
        refine ⟨?_, ?_, ?_, ?_, fun above => ?_⟩
        · intro pipe present
          cases none.symm.trans present
        · intro pipe present
          cases none.symm.trans present
        · intro pipe present
          cases none.symm.trans present
        · intro _
          have length := (streams q).queue pipe object
          rw [empty] at length
          exact count.trans length.symm
        · exact absurd (bounded.pipe.below q (by simp [object])) (not_lt.mpr (later.trans above))
      · exact (streams q).untouched (.of family (Function.update_of_ne here _ _)
          (bytes_writes q silent) before fun _ => after _) later

end View

/-- A read takes a call for bytes of a pipe that exists, or a reader runs again. -/
inductive Kernel.Reads (s : Kernel) (i : Input) (pipep : ObjPtr) (len : Int) : Int → Prop where
  | call (called : i.act = some (.pipeRead pipep len)) (positive : 0 < len)
      (known : pipep ∈ s.pipeMap.keys) : Reads s i pipep len pipep
  | again {pipeId : Int} (point : s.cpu = .pipeRead pipep pipeId len) : Reads s i pipep len pipeId

/-- A read blocks without a byte, or it returns exactly the bytes that it was asked for. -/
inductive Kernel.ReadsWhole (s t : Kernel) (pipep : ObjPtr) (pipeId len : Int) : Prop where
  | blocks (point : t.pos s.currPCB = .pipeRead pipep pipeId len)
      (blocked : s.currPCB ∈ t.blockedMap.items) (silent : t.log = s.log)
  | returns (bytes : List Byte) {events : List Event} (size : bytes.length = len)
      (silent : ∀ event ∈ events, event.isPipe = false)
      (log : t.log = .returned s.curr.pid (.pipeRead pipeId len) len ::
        (events ++ .pipeRead pipep len bytes :: s.log))

/-- A read never finds an empty queue. -/
theorem View.ReadStep.whole {s t : Kernel} {act : Option Call} {pipep : ObjPtr} {pipeId len : Int}
    (streams : ∀ q, s.view.StreamOf q) (positive : s.view.ReadersPositive)
    (live : s.currPCB ∈ s.live)
    (read : s.view.ReadStep s.currPCB act pipep pipeId len t.view) :
    s.ReadsWhole t pipep pipeId len := by
  generalize after : t.view = w at read
  cases read with
  | @blocks pipe u reads _ =>
      have log : u.log = s.log := congrArg Crowd.log (View.keeps_reads reads)
      refine .blocks ?_ ?_ ?_
      · change (t.view.proc s.currPCB).pos = _
        rw [after, View.suspend_pos]
      · change s.currPCB ∈ t.view.blocked
        rw [after]
        exact Set.mem_insert _ _
      · change t.view.log = _
        rw [after]
        exact log
  | @takes pipe first rest u x reads enough _ _ wakes =>
      obtain ⟨more, fits, _, _⟩ := reads.stream streams positive live
      have same := View.keeps_reads reads
      obtain ⟨⟨events, written, silent⟩, proc⟩ := View.writes_of_wakes wakes
      have size := fits.taken enough
      refine .returns (pipe.buffer.take len.toNat) (by omega) silent ?_
      change t.view.log = _
      rw [after, View.finish, View.onCrowd_toCrowd, Crowd.finish_log, written, proc]
      rw [Crowd.record_log, congrArg Crowd.log same, congrArg Crowd.proc same]
      rfl
  | dry reads _ queue => exact absurd queue (reads.not_empty streams positive live)

/-- The kernel in which wake-ups by pid come at any time for any reason. -/
def restlessYallnix : Machine Kernel (Input ⊕ Cause × Addr) where
  start := yallnix.start
  step s i t :=
    match i with
    | .inl input => yallnix.step s input t
    | .inr (cause, a) => unblockWaiter cause a s = .ok t

/-- A run without stray wake-ups is a run. -/
theorem reachable_restless {s : Kernel} (reachable : yallnix.Reachable s) :
    restlessYallnix.Reachable s := by
  induction reachable with
  | start first => exact .start first
  | @step _ _ i _ _ next ih => exact .step (i := .inl i) ih trivial next

/-- These facts about the pipes hold between any two inputs and wake-ups. -/
structure Kernel.Streams (s : Kernel) : Prop where
  sound : Sound s
  bounded : s.view.toObjects.Bounded
  positive : s.view.ReadersPositive
  streams : ∀ q, s.view.StreamOf q

theorem Kernel.Streams.step {s t : Kernel} {i : Input} (streams : s.Streams)
    (next : yallnix.step s i t) : t.Streams := by
  obtain ⟨sound, step⟩ := streams.sound.step next
  have live := streams.sound.placed.live
  have pipeStep := step.pipeStep live
  exact ⟨sound, streams.bounded.step step, streams.positive.step live pipeStep step.family,
    .step streams.streams streams.positive streams.bounded live (step.nextSyncId streams.bounded)
      step.family pipeStep⟩

/-- A stray wake-up moves no process and no byte. -/
theorem Kernel.Streams.stray {s t : Kernel} {cause : Cause} {a : Addr} (streams : s.Streams)
    (woken : unblockWaiter cause a s = .ok t) : t.Streams := by
  obtain ⟨placed, wake, _, _, same, _⟩ := unblockWaiter_refines streams.sound.placed woken
  have family : s.view.toCrowd.FamilyStep s.currPCB s.currPCB t.view.toCrowd :=
    .keeps (View.keeps_wake _ wake)
  have objects : t.view.toObjects = s.view.toObjects := wake.objects
  have crowd : t.view.proc = s.view.proc ∧ t.view.live = s.view.live ∧
      Crowd.Writes (fun event => event.isPipe = false) s.view.toCrowd t.view.toCrowd := by
    generalize t.view = w at wake
    cases wake with
    | mk woken => exact ⟨woken.same.1, woken.same.2.1, .wake woken fun _ => rfl⟩
  obtain ⟨proc, live, silent⟩ := crowd
  refine ⟨⟨placed, same ▸ streams.sound.named, ?_, ?_⟩, objects ▸ streams.bounded, ?_, fun q => ?_⟩
  · exact streams.sound.family.keeps (View.keeps_wake s.currPCB wake)
  · intro b inside
    change (t.view.proc b).pos.carriesCall = true
    rw [proc]
    exact streams.sound.carries b (live.subset inside)
  · intro b inside pipep pipeId len point
    rw [proc] at point
    exact streams.positive b (live.subset inside) pipep pipeId len point
  · refine (streams.streams q).untouched ⟨congrFun (congrArg Objects.pipes objects) q,
      bytes_writes q silent, View.readers_same family ?_⟩ (congrArg Objects.nextSyncId objects).ge
    rw [View.mem_readers, View.mem_readers, proc, live]

theorem restless_streams {s : Kernel} (reachable : restlessYallnix.Reachable s) : s.Streams := by
  refine reachable.invariant ?_ ?_
  · rintro s ⟨boot, done⟩
    obtain ⟨sound, fresh, _⟩ := kernelStart_fresh done
    have outside (a : Addr) (live : a ∈ s.view.live) : (s.view.proc a).pos.isPipe = false :=
      Pos.isPlain_isPipe (fresh.plain a live)
    refine ⟨sound, fresh.bounded, ?_, fun q => ⟨?_, ?_, ?_, fun _ => ?_, fun _ => ?_⟩⟩
    · intro a live pipep pipeId len point
      have notPipe := outside a live
      rw [point] at notPipe
      cases notPipe
    · intro pipe object
      cases (fresh.pipes q).symm.trans object
    · intro pipe object
      cases (fresh.pipes q).symm.trans object
    · intro pipe object
      cases (fresh.pipes q).symm.trans object
    · refine Finset.card_eq_zero.mpr (Finset.eq_empty_of_forall_notMem fun a inside => ?_)
      obtain ⟨live, uses⟩ := View.mem_readers.mp inside
      rw [View.usesPipe_of_isPipe (outside a live)] at uses
      cases uses
    · rw [fresh.log]
      exact ⟨rfl, rfl⟩
  · rintro s (input | ⟨cause, a⟩) t streams _ next
    · exact streams.step next
    · exact streams.stray next

end

section
attribute [local instance] smallHardware

end

end Yallnix

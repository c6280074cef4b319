import Yallnix.Construction.Scheduler

namespace Yallnix

section
variable [Hardware]

/-- A process that neither runs nor waits for its own transmission lies in one container. -/
inductive Place where
  | ready
  | blocked
  | sleeping
  | transmitting (tty : Fin numTerminals)
  | reading (tty : Fin numTerminals)
  deriving DecidableEq

/-- The process waits for the interrupt of its own transmission or has just got it. -/
def Pos.isBatch : Pos → Bool
  | .ttyBatch .. => true
  | _ => false

/-- The process waits for the interrupt of this terminal. -/
def Pos.Transmits (tty : Fin numTerminals) (k : Pos) : Prop :=
  ∃ call r0Buf bytesTransmitted, k = .ttyBatch tty call r0Buf bytesTransmitted

/-- The idle process only runs user code and returns from interrupts. -/
def Pos.isIdle : Pos → Bool
  | .user | .starter | .trapReturn => true
  | _ => false

/-- `blockProcess` is called at these points of the kernel code. -/
def Pos.isBlocking : Pos → Bool
  | .waitWoken .. | .acquire .. | .cvarWoken .. | .pipeRead .. => true
  | _ => false

/-- A process waits for the clock or a terminal at these points. -/
def Pos.usesDevice : Pos → Bool
  | .delay _ | .ttyWrite .. | .ttyBatch .. | .ttyRead .. => true
  | _ => false

/-- A container other than `readyQ` holds only processes at its own program points. -/
def Place.Allows : Place → Pos → Prop
  | .ready, _ => True
  | .blocked, k => k.isBlocking
  | .sleeping, k => ∃ clockTicks, k = .delay clockTicks
  | .transmitting tty, k => ∃ call r0Buf, k = .ttyWrite tty call r0Buf
  | .reading tty, k => ∃ call len, k = .ttyRead tty call len

/-- The number of entries of a process in a container. -/
def Scheduler.occurs (s : Scheduler) : Place → Addr → Nat
  | .ready, a => s.readyQ.count a
  | .blocked, a => s.blockedMap.items.count a
  | .sleeping, a => s.sleepingMap.items.count a
  | .transmitting tty, a => (s.transmittingQs tty).count a
  | .reading tty, a => (s.readingQs tty).count a

/-- One entry of one process is new, and all other entries stay. -/
def Gains (s t : Scheduler) (place : Place) (a : Addr) : Prop :=
  ∀ other b, t.occurs other b = s.occurs other b + if other = place ∧ b = a then 1 else 0

theorem gains_ready (s : Scheduler) (a : Addr) :
    Gains s { s with readyQ := enqQ s.readyQ a } .ready a := by
  intro place b
  cases place <;> simp [Scheduler.occurs, enqQ, count_single]

theorem gains_ready_front {s : Scheduler} {a : Addr} {readyQ : Queue Addr}
    (queue : s.readyQ = a :: readyQ) : Gains { s with readyQ := readyQ } s .ready a := by
  intro place b
  cases place <;> simp [Scheduler.occurs, queue, count_front]

theorem gains_blocked {s : Scheduler} {a : Addr} {key : Int} {blockedMap : HashMap Addr}
    (perm : blockedMap.entries.Perm ((key, a) :: s.blockedMap.entries)) :
    Gains s { s with blockedMap := blockedMap } .blocked a := by
  intro place b
  cases place <;> simp [Scheduler.occurs, HashMap.count_items perm]

theorem gains_blocked_removed {s : Scheduler} {a : Addr} {key : Int} {blockedMap : HashMap Addr}
    (perm : s.blockedMap.entries.Perm ((key, a) :: blockedMap.entries)) :
    Gains { s with blockedMap := blockedMap } s .blocked a := by
  intro place b
  cases place <;> simp [Scheduler.occurs, HashMap.count_items perm]

theorem gains_sleeping {s : Scheduler} {a : Addr} {key : Int} {sleepingMap : HashMap Addr}
    (perm : sleepingMap.entries.Perm ((key, a) :: s.sleepingMap.entries)) :
    Gains s { s with sleepingMap := sleepingMap } .sleeping a := by
  intro place b
  cases place <;> simp [Scheduler.occurs, HashMap.count_items perm]

theorem gains_sleeping_removed {s : Scheduler} {a : Addr} {key : Int}
    {sleepingMap : HashMap Addr}
    (perm : s.sleepingMap.entries.Perm ((key, a) :: sleepingMap.entries)) :
    Gains { s with sleepingMap := sleepingMap } s .sleeping a := by
  intro place b
  cases place <;> simp [Scheduler.occurs, HashMap.count_items perm]

theorem gains_transmitting (s : Scheduler) (tty : Fin numTerminals) (a : Addr) :
    Gains s { s with
      transmittingQs := Function.update s.transmittingQs tty (enqQ (s.transmittingQs tty) a) }
      (.transmitting tty) a := by
  intro place b
  cases place with
  | transmitting other =>
      by_cases same : other = tty
      · subst same
        simp [Scheduler.occurs, enqQ, count_single]
      · simp [Scheduler.occurs, same]
  | _ => simp [Scheduler.occurs]

theorem gains_transmitting_front {s : Scheduler} {tty : Fin numTerminals} {a : Addr}
    {transmittingQ : Queue Addr} (queue : s.transmittingQs tty = a :: transmittingQ) :
    Gains { s with transmittingQs := Function.update s.transmittingQs tty transmittingQ } s
      (.transmitting tty) a := by
  intro place b
  cases place with
  | transmitting other =>
      by_cases same : other = tty
      · subst same
        simp [Scheduler.occurs, queue, count_front]
      · simp [Scheduler.occurs, same]
  | _ => simp [Scheduler.occurs]

theorem gains_reading (s : Scheduler) (tty : Fin numTerminals) (a : Addr) :
    Gains s { s with
      readingQs := Function.update s.readingQs tty (enqQ (s.readingQs tty) a) }
      (.reading tty) a := by
  intro place b
  cases place with
  | reading other =>
      by_cases same : other = tty
      · subst same
        simp [Scheduler.occurs, enqQ, count_single]
      · simp [Scheduler.occurs, same]
  | _ => simp [Scheduler.occurs]

theorem gains_reading_front {s : Scheduler} {tty : Fin numTerminals} {a : Addr}
    {readingQ : Queue Addr} (queue : s.readingQs tty = a :: readingQ) :
    Gains { s with readingQs := Function.update s.readingQs tty readingQ } s
      (.reading tty) a := by
  intro place b
  cases place with
  | reading other =>
      by_cases same : other = tty
      · subst same
        simp [Scheduler.occurs, queue, count_front]
      · simp [Scheduler.occurs, same]
  | _ => simp [Scheduler.occurs]

/-- The containers hold exactly the live processes that are not out.
A process is out while it runs or moves between two containers. -/
structure Settled (s : Scheduler) (pos : Addr → Pos) (out : Finset Addr) : Prop where
  outLive : out ⊆ s.live
  allocated : s.live ⊆ s.allocated
  pidUsed : ∀ a ∈ s.live, 0 ≤ (s.pcbs a).pid ∧ (s.pcbs a).pid < s.nextPid
  pidDistinct : ∀ a ∈ s.live, ∀ b ∈ s.live, (s.pcbs a).pid = (s.pcbs b).pid → a = b
  resident : ∀ a ∈ s.live, a ∉ out → (pos a).isBatch = false →
    ∃ place, ∀ other, s.occurs other a = if other = place then 1 else 0
  absent : ∀ a, (a ∈ s.live → a ∉ out → (pos a).isBatch = true) → ∀ place, s.occurs place a = 0
  fits : ∀ place a, 0 < s.occurs place a → place.Allows (pos a)
  blockedKey : ∀ node ∈ s.blockedMap.entries, node.1 = (s.pcbs node.2).pid
  sleepingKey : ∀ node ∈ s.sleepingMap.entries, node.1 = (s.pcbs node.2).pid
  transmitter : ∀ tty a, s.currTransmitters tty = some a ↔ a ∈ s.live ∧ (pos a).Transmits tty
  transmission : ∀ tty, s.transmitting tty = true →
    ∃ a, s.currTransmitters tty = some a ∧ a ∉ out
  idleLive : s.idlePCB ∈ s.live
  idlePos : (pos s.idlePCB).isIdle = true

/-- Between two inputs only the current process is out. -/
def Placed (s : Scheduler) : Prop := Settled s s.pos {s.currPCB}

/-- The processes stay the same while their PCBs, the memory or the containers change. -/
structure SameCrowd (s t : Scheduler) : Prop where
  live : t.live = s.live
  allocated : s.allocated ⊆ t.allocated
  pid : ∀ a ∈ s.live, (t.pcbs a).pid = (s.pcbs a).pid
  nextPid : s.nextPid ≤ t.nextPid
  transmitter : t.currTransmitters = s.currTransmitters
  transmission : t.transmitting = s.transmitting
  idle : t.idlePCB = s.idlePCB

namespace Settled

variable {s t : Scheduler} {pos : Addr → Pos} {out : Finset Addr}

/-- Every entry of a container names a live process that is not out. -/
theorem of_occurs (settled : Settled s pos out) {place : Place} {a : Addr}
    (inside : 0 < s.occurs place a) :
    a ∈ s.live ∧ a ∉ out ∧ (pos a).isBatch = false := by
  by_contra outside
  have none := settled.absent a (by
    intro live notOut
    cases batch : (pos a).isBatch with
    | true => rfl
    | false => exact absurd ⟨live, notOut, batch⟩ outside) place
  omega

theorem occurs_le_one (settled : Settled s pos out) (place : Place) (a : Addr) :
    s.occurs place a ≤ 1 := by
  by_cases inside : 0 < s.occurs place a
  · obtain ⟨live, notOut, batch⟩ := settled.of_occurs inside
    obtain ⟨home, only⟩ := settled.resident a live notOut batch
    rw [only]
    split <;> omega
  · omega

theorem mem_blocked (settled : Settled s pos out) {key : Int} {a : Addr}
    (inside : (key, a) ∈ s.blockedMap.entries) :
    key = (s.pcbs a).pid ∧ a ∈ s.live ∧ a ∉ out ∧ (pos a).isBlocking = true := by
  have occurs : 0 < s.occurs .blocked a :=
    List.count_pos_iff.mpr (HashMap.mem_items.mpr ⟨key, inside⟩)
  obtain ⟨live, notOut, _⟩ := settled.of_occurs occurs
  exact ⟨settled.blockedKey _ inside, live, notOut, settled.fits _ _ occurs⟩

theorem mem_sleeping (settled : Settled s pos out) {key : Int} {a : Addr}
    (inside : (key, a) ∈ s.sleepingMap.entries) :
    key = (s.pcbs a).pid ∧ a ∈ s.live ∧ a ∉ out ∧ ∃ clockTicks, pos a = .delay clockTicks := by
  have occurs : 0 < s.occurs .sleeping a :=
    List.count_pos_iff.mpr (HashMap.mem_items.mpr ⟨key, inside⟩)
  obtain ⟨live, notOut, _⟩ := settled.of_occurs occurs
  exact ⟨settled.sleepingKey _ inside, live, notOut, settled.fits _ _ occurs⟩

/-- A process that is not blocked and waits for no device is in `readyQ`. -/
theorem awake_ready (settled : Settled s pos out) {a : Addr} (live : a ∈ s.live) (notOut : a ∉ out)
    (free : (pos a).usesDevice = false) (awake : a ∉ s.blockedMap.items) : a ∈ s.readyQ := by
  have batch : (pos a).isBatch = false := by
    cases point : pos a <;> simp_all [Pos.usesDevice, Pos.isBatch]
  obtain ⟨place, only⟩ := settled.resident a live notOut batch
  have here : 0 < s.occurs place a := by
    rw [only, if_pos rfl]
    exact Nat.one_pos
  have allowed := settled.fits place a here
  cases place with
  | ready => exact List.count_pos_iff.mp here
  | blocked => exact absurd (List.count_pos_iff.mp here) awake
  | sleeping =>
      obtain ⟨_, same⟩ := allowed
      rw [same] at free
      cases free
  | transmitting tty =>
      obtain ⟨_, _, same⟩ := allowed
      rw [same] at free
      cases free
  | reading tty =>
      obtain ⟨_, _, same⟩ := allowed
      rw [same] at free
      cases free

/-- The idle process is in `readyQ` whenever it is not out. -/
theorem idle_ready (settled : Settled s pos out) (notOut : s.idlePCB ∉ out) :
    s.idlePCB ∈ s.readyQ := by
  have idle := settled.idlePos
  refine settled.awake_ready settled.idleLive notOut ?_ fun inside => ?_
  · cases point : pos s.idlePCB <;> simp_all [Pos.isIdle, Pos.usesDevice]
  · have allowed := settled.fits .blocked s.idlePCB (List.count_pos_iff.mpr inside)
    simp only [Place.Allows] at allowed
    cases point : pos s.idlePCB <;> simp_all [Pos.isIdle, Pos.isBlocking]

/-- The running process goes into a container at a new program point. -/
theorem park (settled : Settled s pos out) {place : Place} {a : Addr} {k : Pos}
    (same : SameCrowd s t) (gains : Gains s t place a) (isOut : a ∈ out)
    (blockedKey : ∀ node ∈ t.blockedMap.entries,
      node ∈ s.blockedMap.entries ∨ node = ((s.pcbs a).pid, a))
    (sleepingKey : ∀ node ∈ t.sleepingMap.entries,
      node ∈ s.sleepingMap.entries ∨ node = ((s.pcbs a).pid, a))
    (wasBatch : (pos a).isBatch = false) (batch : k.isBatch = false)
    (allowed : place.Allows k) (idle : a = s.idlePCB → k.isIdle = true) :
    Settled t (Function.update pos a k) (out.erase a) where
  outLive := by
    rw [same.live]
    exact (Finset.erase_subset _ _).trans settled.outLive
  allocated := by
    rw [same.live]
    exact settled.allocated.trans same.allocated
  pidUsed b live := by
    rw [same.live] at live
    rw [same.pid b live]
    exact ⟨(settled.pidUsed b live).1, (settled.pidUsed b live).2.trans_le same.nextPid⟩
  pidDistinct b bLive c cLive equal := by
    rw [same.live] at bLive cLive
    rw [same.pid b bLive, same.pid c cLive] at equal
    exact settled.pidDistinct b bLive c cLive equal
  resident b live notOut notBatch := by
    rw [same.live] at live
    by_cases this : b = a
    · subst this
      refine ⟨place, fun other => ?_⟩
      have zero := settled.absent b (fun _ no => absurd isOut no) other
      rw [gains other b, zero]
      simp
    · rw [Function.update_of_ne this] at notBatch
      have before : b ∉ out := fun inside => notOut (Finset.mem_erase.mpr ⟨this, inside⟩)
      obtain ⟨home, only⟩ := settled.resident b live before notBatch
      refine ⟨home, fun other => ?_⟩
      rw [gains other b, only]
      simp [this]
  absent b outside other := by
    by_cases this : b = a
    · subst this
      have live : b ∈ t.live := by
        rw [same.live]
        exact settled.outLive isOut
      have wrong := outside live (by simp)
      rw [Function.update_self, batch] at wrong
      cases wrong
    · rw [gains other b, settled.absent b ?_ other]
      · simp [this]
      · intro live notOut
        rw [← Function.update_of_ne this k pos]
        exact outside (by rwa [same.live]) (fun inside => notOut (Finset.mem_of_mem_erase inside))
  fits other b inside := by
    rw [gains other b] at inside
    by_cases this : b = a
    · subst this
      rw [Function.update_self]
      have zero := settled.absent b (fun _ no => absurd isOut no) other
      by_cases here : other = place
      · rwa [here]
      · simp [zero, here] at inside
    · rw [Function.update_of_ne this]
      simp only [this, and_false, if_false, Nat.add_zero] at inside
      exact settled.fits other b inside
  blockedKey node member := by
    rcases blockedKey node member with old | new
    · obtain ⟨key, live, _⟩ := settled.mem_blocked old
      rw [same.pid _ live]
      exact key
    · subst new
      exact (same.pid a (settled.outLive isOut)).symm
  sleepingKey node member := by
    rcases sleepingKey node member with old | new
    · obtain ⟨key, live, _⟩ := settled.mem_sleeping old
      rw [same.pid _ live]
      exact key
    · subst new
      exact (same.pid a (settled.outLive isOut)).symm
  transmitter tty b := by
    rw [same.transmitter, same.live, settled.transmitter tty b]
    by_cases this : b = a
    · subst this
      rw [Function.update_self]
      constructor
      · rintro ⟨_, _, _, _, point⟩
        rw [point] at wasBatch
        cases wasBatch
      · rintro ⟨_, _, _, _, point⟩
        rw [point] at batch
        cases batch
    · rw [Function.update_of_ne this]
  transmission tty busy := by
    rw [same.transmission] at busy
    obtain ⟨b, slot, notOut⟩ := settled.transmission tty busy
    exact ⟨b, by rw [same.transmitter]; exact slot,
      fun inside => notOut (Finset.mem_of_mem_erase inside)⟩
  idleLive := by
    rw [same.live, same.idle]
    exact settled.idleLive
  idlePos := by
    rw [same.idle]
    by_cases this : s.idlePCB = a
    · rw [this, Function.update_self]
      exact idle this.symm
    · rw [Function.update_of_ne this]
      exact settled.idlePos

/-- A process leaves its container and is out. -/
theorem take (settled : Settled s pos out) {place : Place} {a : Addr}
    (same : SameCrowd s t) (gains : Gains t s place a)
    (blockedKey : t.blockedMap.entries ⊆ s.blockedMap.entries)
    (sleepingKey : t.sleepingMap.entries ⊆ s.sleepingMap.entries) :
    Settled t pos (insert a out) ∧ a ∈ s.live ∧ a ∉ out ∧ (pos a).isBatch = false ∧
      place.Allows (pos a) := by
  have here : 0 < s.occurs place a := by simp [gains place a]
  obtain ⟨live, notOut, batch⟩ := settled.of_occurs here
  have fewer (other : Place) (b : Addr) : t.occurs other b ≤ s.occurs other b := by
    rw [gains other b]
    omega
  refine ⟨?_, live, notOut, batch, settled.fits place a here⟩
  exact {
    outLive := by
      rw [same.live]
      exact Finset.insert_subset live settled.outLive
    allocated := by
      rw [same.live]
      exact settled.allocated.trans same.allocated
    pidUsed := fun b live => by
      rw [same.live] at live
      rw [same.pid b live]
      exact ⟨(settled.pidUsed b live).1, (settled.pidUsed b live).2.trans_le same.nextPid⟩
    pidDistinct := fun b bLive c cLive equal => by
      rw [same.live] at bLive cLive
      rw [same.pid b bLive, same.pid c cLive] at equal
      exact settled.pidDistinct b bLive c cLive equal
    resident := fun b live notIn notBatch => by
      rw [same.live] at live
      rw [Finset.mem_insert, not_or] at notIn
      obtain ⟨home, only⟩ := settled.resident b live notIn.2 notBatch
      refine ⟨home, fun other => ?_⟩
      have count := gains other b
      rw [only] at count
      simpa [notIn.1] using count.symm
    absent := fun b outside other => by
      by_cases this : b = a
      · subst this
        have count := gains other b
        obtain ⟨home, only⟩ := settled.resident b live notOut batch
        have atHome := only place
        rw [gains place b] at atHome
        have isHome : place = home := by
          by_contra differs
          simp [differs] at atHome
        rw [only, isHome] at count
        by_cases equal : other = home
        · simp only [equal, if_true, true_and] at count ⊢
          omega
        · simp only [equal, if_false, false_and, Nat.add_zero] at count
          omega
      · have zero := settled.absent b (fun bLive bOut => outside (by rwa [same.live])
          (by simp [this, bOut])) other
        have less := fewer other b
        omega
    fits := fun other b inside => settled.fits other b (inside.trans_le (fewer other b))
    blockedKey := fun node member => by
      obtain ⟨key, live, _⟩ := settled.mem_blocked (blockedKey member)
      rw [same.pid _ live]
      exact key
    sleepingKey := fun node member => by
      obtain ⟨key, live, _⟩ := settled.mem_sleeping (sleepingKey member)
      rw [same.pid _ live]
      exact key
    transmitter := fun tty b => by
      rw [same.transmitter, same.live]
      exact settled.transmitter tty b
    transmission := fun tty busy => by
      rw [same.transmission] at busy
      obtain ⟨b, slot, bOut⟩ := settled.transmission tty busy
      refine ⟨b, by rw [same.transmitter]; exact slot, ?_⟩
      rw [Finset.mem_insert, not_or]
      refine ⟨?_, bOut⟩
      rintro rfl
      obtain ⟨_, _, _, _, point⟩ := (settled.transmitter tty b).mp slot
      rw [point] at batch
      cases batch
    idleLive := by
      rw [same.live, same.idle]
      exact settled.idleLive
    idlePos := by
      rw [same.idle]
      exact settled.idlePos }

/-- The head of `readyQ` is out when the dispatcher takes it. -/
theorem dispatch (settled : Settled s pos out) {a : Addr} {readyQ : Queue Addr}
    (queue : s.readyQ = a :: readyQ) :
    Settled { s with readyQ := readyQ } pos (insert a out) ∧ a ∈ s.live ∧ a ∉ out := by
  obtain ⟨result, live, notOut, _⟩ := settled.take
    (t := { s with readyQ := readyQ })
    ⟨rfl, Finset.Subset.refl _, fun _ _ => rfl, le_refl _, rfl, rfl, rfl⟩
    (gains_ready_front queue) (List.Subset.refl _) (List.Subset.refl _)
  exact ⟨result, live, notOut⟩

/-- A process goes from its container to the end of `readyQ`. -/
theorem wake (settled : Settled s pos out) {place : Place} {a : Addr}
    (same : SameCrowd s t) (gains : Gains t s place a)
    (blockedKey : t.blockedMap.entries ⊆ s.blockedMap.entries)
    (sleepingKey : t.sleepingMap.entries ⊆ s.sleepingMap.entries) :
    Settled { t with readyQ := enqQ t.readyQ a } pos out ∧ a ∈ s.live ∧ a ∉ out ∧
      place.Allows (pos a) := by
  obtain ⟨taken, live, notOut, batch, allowed⟩ :=
    settled.take same gains blockedKey sleepingKey
  refine ⟨?_, live, notOut, allowed⟩
  have parked := taken.park (t := { t with readyQ := enqQ t.readyQ a }) (k := pos a)
    ⟨rfl, Finset.Subset.refl _, fun _ _ => rfl, le_refl _, rfl, rfl, rfl⟩ (gains_ready t a)
    (Finset.mem_insert_self _ _) (fun _ => Or.inl) (fun _ => Or.inl) batch batch
    trivial (fun same => same ▸ taken.idlePos)
  rwa [Function.update_eq_self, Finset.erase_insert notOut] at parked

/-- An update outside the containers keeps the residence. -/
theorem frame (settled : Settled s pos out) (same : SameCrowd s t)
    (occurs : ∀ place a, t.occurs place a = s.occurs place a)
    (blockedKey : t.blockedMap.entries ⊆ s.blockedMap.entries)
    (sleepingKey : t.sleepingMap.entries ⊆ s.sleepingMap.entries) : Settled t pos out where
  outLive := by
    rw [same.live]
    exact settled.outLive
  allocated := by
    rw [same.live]
    exact settled.allocated.trans same.allocated
  pidUsed b live := by
    rw [same.live] at live
    rw [same.pid b live]
    exact ⟨(settled.pidUsed b live).1, (settled.pidUsed b live).2.trans_le same.nextPid⟩
  pidDistinct b bLive c cLive equal := by
    rw [same.live] at bLive cLive
    rw [same.pid b bLive, same.pid c cLive] at equal
    exact settled.pidDistinct b bLive c cLive equal
  resident b live notOut notBatch := by
    rw [same.live] at live
    simp only [occurs]
    exact settled.resident b live notOut notBatch
  absent b outside other := by
    rw [occurs]
    exact settled.absent b (fun live => outside (by rwa [same.live])) other
  fits other b inside := by
    rw [occurs] at inside
    exact settled.fits other b inside
  blockedKey node member := by
    obtain ⟨key, live, _⟩ := settled.mem_blocked (blockedKey member)
    rw [same.pid _ live]
    exact key
  sleepingKey node member := by
    obtain ⟨key, live, _⟩ := settled.mem_sleeping (sleepingKey member)
    rw [same.pid _ live]
    exact key
  transmitter tty b := by
    rw [same.transmitter, same.live]
    exact settled.transmitter tty b
  transmission tty busy := by
    rw [same.transmission] at busy
    rw [same.transmitter]
    exact settled.transmission tty busy
  idleLive := by
    rw [same.live, same.idle]
    exact settled.idleLive
  idlePos := by
    rw [same.idle]
    exact settled.idlePos

/-- The running process goes to another program point without a context switch. -/
theorem point (settled : Settled s pos out) {a : Addr} {k : Pos} (isOut : a ∈ out)
    (wasBatch : (pos a).isBatch = false) (batch : k.isBatch = false)
    (idle : a = s.idlePCB → k.isIdle = true) : Settled s (Function.update pos a k) out where
  outLive := settled.outLive
  allocated := settled.allocated
  pidUsed := settled.pidUsed
  pidDistinct := settled.pidDistinct
  resident b live notOut notBatch := by
    have this : b ≠ a := fun equal => notOut (equal ▸ isOut)
    rw [Function.update_of_ne this] at notBatch
    exact settled.resident b live notOut notBatch
  absent b outside other := by
    refine settled.absent b (fun live notOut => ?_) other
    have this : b ≠ a := fun equal => notOut (equal ▸ isOut)
    have result := outside live notOut
    rwa [Function.update_of_ne this] at result
  fits other b inside := by
    have this : b ≠ a := fun equal => (settled.of_occurs inside).2.1 (equal ▸ isOut)
    rw [Function.update_of_ne this]
    exact settled.fits other b inside
  blockedKey := settled.blockedKey
  sleepingKey := settled.sleepingKey
  transmitter tty b := by
    rw [settled.transmitter tty b]
    by_cases this : b = a
    · subst this
      rw [Function.update_self]
      constructor
      · rintro ⟨_, _, _, _, point⟩
        rw [point] at wasBatch
        cases wasBatch
      · rintro ⟨_, _, _, _, point⟩
        rw [point] at batch
        cases batch
    · rw [Function.update_of_ne this]
  transmission := settled.transmission
  idleLive := settled.idleLive
  idlePos := by
    by_cases this : s.idlePCB = a
    · rw [this, Function.update_self]
      exact idle this.symm
    · rw [Function.update_of_ne this]
      exact settled.idlePos

/-- The transmitter leaves the processor and waits for its interrupt. -/
theorem transmit (settled : Settled s pos out) {tty : Fin numTerminals} {a : Addr} {k : Pos}
    (isOut : a ∈ out) (transmits : k.Transmits tty) (notIdle : a ≠ s.idlePCB)
    (slot : s.currTransmitters tty = none ∨ s.currTransmitters tty = some a)
    (point : (pos a).isBatch = false ∨ (pos a).Transmits tty) :
    Settled { s with
      currTransmitters := Function.update s.currTransmitters tty (some a)
      transmitting := Function.update s.transmitting tty true }
      (Function.update pos a k) (out.erase a) where
  outLive := (Finset.erase_subset _ _).trans settled.outLive
  allocated := settled.allocated
  pidUsed := settled.pidUsed
  pidDistinct := settled.pidDistinct
  resident b live notOut notBatch := by
    by_cases this : b = a
    · subst this
      obtain ⟨_, _, _, same⟩ := transmits
      rw [Function.update_self, same] at notBatch
      cases notBatch
    · rw [Function.update_of_ne this] at notBatch
      exact settled.resident b live
        (fun inside => notOut (Finset.mem_erase.mpr ⟨this, inside⟩)) notBatch
  absent b outside other := by
    by_cases this : b = a
    · subst this
      exact settled.absent b (fun _ notIn => absurd isOut notIn) other
    · rw [Function.update_of_ne this] at outside
      exact settled.absent b (fun live notIn => outside live
        (fun inside => notIn (Finset.mem_of_mem_erase inside))) other
  fits other b inside := by
    have this : b ≠ a := fun equal => (settled.of_occurs inside).2.1 (equal ▸ isOut)
    rw [Function.update_of_ne this]
    exact settled.fits other b inside
  blockedKey := settled.blockedKey
  sleepingKey := settled.sleepingKey
  transmitter other b := by
    change Function.update s.currTransmitters tty (some a) other = some b ↔ b ∈ s.live ∧ _
    by_cases this : b = a
    · subst this
      rw [Function.update_self]
      by_cases same : other = tty
      · subst same
        simp only [Function.update_self, true_iff]
        exact ⟨settled.outLive isOut, transmits⟩
      · rw [Function.update_of_ne same, settled.transmitter other b]
        obtain ⟨_, _, _, there⟩ := transmits
        constructor
        · rintro ⟨_, _, _, _, here⟩
          rcases point with notBatch | ⟨_, _, _, before⟩
          · rw [here] at notBatch
            cases notBatch
          · rw [here] at before
            exact absurd (Pos.ttyBatch.inj before).1 same
        · rintro ⟨_, _, _, _, here⟩
          rw [there] at here
          exact absurd (Pos.ttyBatch.inj here).1.symm same
    · rw [Function.update_of_ne this]
      by_cases same : other = tty
      · subst same
        simp only [Function.update_self, Option.some.injEq]
        constructor
        · intro equal
          exact absurd equal.symm this
        · intro there
          have held := (settled.transmitter other b).mpr there
          rcases slot with empty | mine
          · rw [empty] at held
            cases held
          · rw [mine] at held
            exact Option.some.inj held
      · rw [Function.update_of_ne same]
        exact settled.transmitter other b
  transmission other busy := by
    by_cases same : other = tty
    · subst same
      exact ⟨a, by simp, by simp⟩
    · simp only [Function.update_of_ne same] at busy ⊢
      obtain ⟨b, held, notOut⟩ := settled.transmission other busy
      exact ⟨b, held, fun inside => notOut (Finset.mem_of_mem_erase inside)⟩
  idleLive := settled.idleLive
  idlePos := by
    rw [Function.update_of_ne notIdle.symm]
    exact settled.idlePos

/-- The interrupt of a terminal takes its transmitter out. -/
theorem interrupt (settled : Settled s pos out) {tty : Fin numTerminals} {a : Addr}
    (slot : s.currTransmitters tty = some a) :
    Settled { s with transmitting := Function.update s.transmitting tty false } pos
      (insert a out) where
  outLive := Finset.insert_subset ((settled.transmitter tty a).mp slot).1 settled.outLive
  allocated := settled.allocated
  pidUsed := settled.pidUsed
  pidDistinct := settled.pidDistinct
  resident b live notOut notBatch :=
    settled.resident b live (fun inside => notOut (Finset.mem_insert_of_mem inside)) notBatch
  absent b outside other := by
    refine settled.absent b (fun live notOut => ?_) other
    by_cases this : b = a
    · subst this
      obtain ⟨_, _, _, _, point⟩ := (settled.transmitter tty b).mp slot
      rw [point]
      rfl
    · exact outside live (by simp [this, notOut])
  fits := settled.fits
  blockedKey := settled.blockedKey
  sleepingKey := settled.sleepingKey
  transmitter := settled.transmitter
  transmission other busy := by
    by_cases same : other = tty
    · subst same
      simp at busy
    · simp only [Function.update_of_ne same] at busy ⊢
      obtain ⟨b, held, notOut⟩ := settled.transmission other busy
      refine ⟨b, held, ?_⟩
      rw [Finset.mem_insert, not_or]
      refine ⟨?_, notOut⟩
      rintro rfl
      obtain ⟨_, _, _, _, one⟩ := (settled.transmitter tty b).mp slot
      obtain ⟨_, _, _, _, two⟩ := (settled.transmitter other b).mp held
      rw [one] at two
      exact same (Pos.ttyBatch.inj two).1.symm
  idleLive := settled.idleLive
  idlePos := settled.idlePos

/-- The transmitter frees its terminal after the last batch. -/
theorem endTransmit (settled : Settled s pos out) {tty : Fin numTerminals} {a : Addr} {k : Pos}
    (isOut : a ∈ out) (point : (pos a).Transmits tty) (batch : k.isBatch = false)
    (notIdle : a ≠ s.idlePCB) :
    Settled { s with currTransmitters := Function.update s.currTransmitters tty none }
      (Function.update pos a k) out where
  outLive := settled.outLive
  allocated := settled.allocated
  pidUsed := settled.pidUsed
  pidDistinct := settled.pidDistinct
  resident b live notOut notBatch := by
    have this : b ≠ a := fun equal => notOut (equal ▸ isOut)
    rw [Function.update_of_ne this] at notBatch
    exact settled.resident b live notOut notBatch
  absent b outside other := by
    refine settled.absent b (fun live notOut => ?_) other
    have this : b ≠ a := fun equal => notOut (equal ▸ isOut)
    have result := outside live notOut
    rwa [Function.update_of_ne this] at result
  fits other b inside := by
    have this : b ≠ a := fun equal => (settled.of_occurs inside).2.1 (equal ▸ isOut)
    rw [Function.update_of_ne this]
    exact settled.fits other b inside
  blockedKey := settled.blockedKey
  sleepingKey := settled.sleepingKey
  transmitter other b := by
    change Function.update s.currTransmitters tty none other = some b ↔ b ∈ s.live ∧ _
    have slot := (settled.transmitter tty a).mpr ⟨settled.outLive isOut, point⟩
    by_cases this : b = a
    · subst this
      rw [Function.update_self]
      constructor
      · intro held
        by_cases same : other = tty
        · subst same
          simp at held
        · rw [Function.update_of_ne same] at held
          obtain ⟨_, _, _, _, one⟩ := (settled.transmitter other b).mp held
          obtain ⟨_, _, _, two⟩ := point
          rw [one] at two
          exact absurd (Pos.ttyBatch.inj two).1 same
      · rintro ⟨_, _, _, _, here⟩
        rw [here] at batch
        cases batch
    · rw [Function.update_of_ne this]
      by_cases same : other = tty
      · subst same
        simp only [Function.update_self, reduceCtorEq, false_iff]
        intro there
        have held := (settled.transmitter other b).mpr there
        rw [slot] at held
        exact this (Option.some.inj held).symm
      · rw [Function.update_of_ne same]
        exact settled.transmitter other b
  transmission other busy := by
    obtain ⟨b, held, notOut⟩ := settled.transmission other busy
    have same : other ≠ tty := by
      rintro rfl
      rw [(settled.transmitter other a).mpr ⟨settled.outLive isOut, point⟩] at held
      exact notOut (Option.some.inj held ▸ isOut)
    exact ⟨b, (Function.update_of_ne same none s.currTransmitters).trans held, notOut⟩
  idleLive := settled.idleLive
  idlePos := by
    rw [Function.update_of_ne notIdle.symm]
    exact settled.idlePos

/-- A new process is out until it goes into a container. -/
theorem join (settled : Settled s pos out) {a : Addr} {k : Pos} (fresh : a ∉ s.live)
    (allocated : a ∈ s.allocated) (used : 0 ≤ (s.pcbs a).pid ∧ (s.pcbs a).pid < s.nextPid)
    (unused : ∀ b ∈ s.live, (s.pcbs b).pid ≠ (s.pcbs a).pid) (batch : k.isBatch = false) :
    Settled { s with live := insert a s.live } (Function.update pos a k) (insert a out) where
  outLive := Finset.insert_subset_insert _ settled.outLive
  allocated := Finset.insert_subset allocated settled.allocated
  pidUsed b live := by
    rcases Finset.mem_insert.mp live with rfl | old
    · exact used
    · exact settled.pidUsed b old
  pidDistinct b bLive c cLive equal := by
    rcases Finset.mem_insert.mp bLive with rfl | bOld
    · rcases Finset.mem_insert.mp cLive with rfl | cOld
      · rfl
      · exact absurd equal.symm (unused c cOld)
    · rcases Finset.mem_insert.mp cLive with rfl | cOld
      · exact absurd equal (unused b bOld)
      · exact settled.pidDistinct b bOld c cOld equal
  resident b live notOut notBatch := by
    rw [Finset.mem_insert, not_or] at notOut
    rw [Function.update_of_ne notOut.1] at notBatch
    exact settled.resident b ((Finset.mem_insert.mp live).resolve_left notOut.1) notOut.2 notBatch
  absent b outside other := by
    by_cases this : b = a
    · subst this
      exact settled.absent b (fun live => absurd live fresh) other
    · rw [Function.update_of_ne this] at outside
      exact settled.absent b (fun live notOut => outside (Finset.mem_insert_of_mem live)
        (by simp [this, notOut])) other
  fits other b inside := by
    have this : b ≠ a := fun equal => fresh (equal ▸ (settled.of_occurs inside).1)
    rw [Function.update_of_ne this]
    exact settled.fits other b inside
  blockedKey := settled.blockedKey
  sleepingKey := settled.sleepingKey
  transmitter tty b := by
    rw [settled.transmitter tty b]
    by_cases this : b = a
    · subst this
      rw [Function.update_self]
      constructor
      · rintro ⟨live, _⟩
        exact absurd live fresh
      · rintro ⟨_, _, _, _, here⟩
        rw [here] at batch
        cases batch
    · rw [Function.update_of_ne this]
      simp only [Finset.mem_insert, this, false_or]
  transmission tty busy := by
    obtain ⟨b, held, notOut⟩ := settled.transmission tty busy
    refine ⟨b, held, ?_⟩
    rw [Finset.mem_insert, not_or]
    exact ⟨fun equal => fresh (equal ▸ ((settled.transmitter tty b).mp held).1), notOut⟩
  idleLive := Finset.mem_insert_of_mem settled.idleLive
  idlePos := by
    have this : s.idlePCB ≠ a := fun equal => fresh (equal ▸ settled.idleLive)
    rw [Function.update_of_ne this]
    exact settled.idlePos

/-- An exited process is in no container, and its PCB may hold anything. -/
theorem leave (settled : Settled s pos out) {a : Addr} (junk : PCB) (isOut : a ∈ out)
    (batch : (pos a).isBatch = false) (notIdle : a ≠ s.idlePCB) :
    Settled { s.updatePcb a fun _ => junk with
      live := s.live.erase a
      allocated := s.allocated.erase a } pos (out.erase a) where
  outLive := Finset.erase_subset_erase _ settled.outLive
  allocated := Finset.erase_subset_erase _ settled.allocated
  pidUsed b live := by
    have this := Finset.ne_of_mem_erase live
    simp only [Scheduler.updatePcb, Function.update_of_ne this]
    exact settled.pidUsed b (Finset.mem_of_mem_erase live)
  pidDistinct b bLive c cLive equal := by
    simp only [Scheduler.updatePcb, Function.update_of_ne (Finset.ne_of_mem_erase bLive),
      Function.update_of_ne (Finset.ne_of_mem_erase cLive)] at equal
    exact settled.pidDistinct b (Finset.mem_of_mem_erase bLive) c
      (Finset.mem_of_mem_erase cLive) equal
  resident b live notOut notBatch :=
    settled.resident b (Finset.mem_of_mem_erase live)
      (fun inside => notOut (Finset.mem_erase.mpr ⟨Finset.ne_of_mem_erase live, inside⟩)) notBatch
  absent b outside other := by
    by_cases this : b = a
    · subst this
      exact settled.absent b (fun _ notIn => absurd isOut notIn) other
    · exact settled.absent b (fun live notIn => outside (Finset.mem_erase.mpr ⟨this, live⟩)
        (fun inside => notIn (Finset.mem_of_mem_erase inside))) other
  fits := settled.fits
  blockedKey node member := by
    obtain ⟨key, _, notOut, _⟩ := settled.mem_blocked member
    have this : node.2 ≠ a := fun equal => notOut (equal ▸ isOut)
    simp only [Scheduler.updatePcb, Function.update_of_ne this]
    exact key
  sleepingKey node member := by
    obtain ⟨key, _, notOut, _⟩ := settled.mem_sleeping member
    have this : node.2 ≠ a := fun equal => notOut (equal ▸ isOut)
    simp only [Scheduler.updatePcb, Function.update_of_ne this]
    exact key
  transmitter tty b := by
    change s.currTransmitters tty = some b ↔ _
    rw [settled.transmitter tty b, Finset.mem_erase]
    constructor
    · rintro ⟨live, call, r0Buf, sent, here⟩
      refine ⟨⟨?_, live⟩, call, r0Buf, sent, here⟩
      rintro rfl
      rw [here] at batch
      cases batch
    · rintro ⟨⟨_, live⟩, there⟩
      exact ⟨live, there⟩
  transmission tty busy := by
    obtain ⟨b, held, notOut⟩ := settled.transmission tty busy
    exact ⟨b, held, fun inside => notOut (Finset.mem_of_mem_erase inside)⟩
  idleLive := Finset.mem_erase.mpr ⟨notIdle.symm, settled.idleLive⟩
  idlePos := settled.idlePos

/-- Only the program points of live processes matter. -/
theorem congr {other : Addr → Pos} (settled : Settled s pos out)
    (agrees : ∀ a ∈ s.live, other a = pos a) : Settled s other out where
  outLive := settled.outLive
  allocated := settled.allocated
  pidUsed := settled.pidUsed
  pidDistinct := settled.pidDistinct
  resident a live notOut batch := settled.resident a live notOut (agrees a live ▸ batch)
  absent a outside := settled.absent a fun live notOut => agrees a live ▸ outside live notOut
  fits place a inside := by
    rw [agrees a (settled.of_occurs inside).1]
    exact settled.fits place a inside
  blockedKey := settled.blockedKey
  sleepingKey := settled.sleepingKey
  transmitter tty a := by
    rw [settled.transmitter tty a]
    exact and_congr_right fun live => by rw [agrees a live]
  transmission := settled.transmission
  idleLive := settled.idleLive
  idlePos := by
    rw [agrees _ settled.idleLive]
    exact settled.idlePos

end Settled

end

end Yallnix

import Yallnix.Proof.ObjectInvariant

namespace Yallnix

section
variable [Hardware]

/-- The running process is live, and a blocked process is live and does not run. -/
structure Crowd.Resting (p : Addr) (c : Crowd) : Prop where
  runner : p ∈ c.live
  sleeper : ∀ a ∈ c.blocked, a ∈ c.live ∧ a ≠ p ∧ (c.proc a).pos.isBlocking = true
  distinct : ∀ a ∈ c.live, ∀ b ∈ c.live, (c.proc a).pid = (c.proc b).pid → a = b

theorem Sound.resting {s : Kernel} (sound : Sound s) : s.view.Resting s.currPCB where
  runner := sound.placed.live
  sleeper a blocked := by
    obtain ⟨key, entry⟩ := HashMap.mem_items.mp blocked
    obtain ⟨_, live, out, blocking⟩ := sound.placed.mem_blocked entry
    exact ⟨live, by simpa using out, blocking⟩
  distinct := sound.family.pidDistinct

/-- The pid of a live process wakes this process or nobody. -/
theorem Crowd.Resting.only {p a : Addr} {c : Crowd} (resting : c.Resting p) (live : a ∈ c.live)
    {b : Addr} (blocked : b ∈ c.blocked) (same : (c.proc b).pid = (c.proc a).pid) : b = a :=
  resting.distinct b (resting.sleeper b blocked).1 a live same

/-- `unblockProcess` records these events. -/
def Event.isWake : Event → Bool
  | .unblocked .. => true
  | _ => false

theorem Event.isQuiet_isWake {event : Event} (quiet : event.isQuiet = true) :
    event.isWake = false := by
  cases event <;> first | rfl | cases quiet

/-- The step wakes a blocked process only when the wake-up is due. -/
structure Crowd.Rouses (due : Cause → Addr → Prop) (c d : Crowd) : Prop where
  written : ∃ events, d.log = events ++ c.log ∧
    ∀ cause a, .unblocked cause a ∈ events → a ∈ c.blocked ∧ due cause a
  woken : ∀ a ∈ c.blocked, a ∉ d.blocked → ∃ cause, due cause a

namespace Crowd.Rouses

variable {due : Cause → Addr → Prop} {c d e : Crowd}

theorem quiet (log : Crowd.Writes (fun event => event.isWake = false) c d)
    (blocked : c.blocked ⊆ d.blocked) : Crowd.Rouses due c d where
  written := by
    obtain ⟨events, after, silent⟩ := log
    refine ⟨events, after, fun cause a member => ?_⟩
    cases silent _ member
  woken a before after := absurd (blocked before) after

theorem refl (c : Crowd) : Crowd.Rouses due c c := quiet (.same rfl) (Set.Subset.refl _)

theorem record (c : Crowd) {event : Event} (silent : event.isWake = false) :
    Crowd.Rouses due c (c.record event) :=
  quiet (.record silent rfl) (Set.Subset.refl _)

theorem finish (c : Crowd) (p : Addr) (call : Call) (code : Int) :
    Crowd.Rouses due c (c.finish p call code) :=
  quiet (.record rfl rfl) (Set.Subset.refl _)

theorem suspend (c : Crowd) (p : Addr) (k : Pos) :
    Crowd.Rouses due c ((c.move p k).block p) :=
  quiet (.same rfl) (Set.subset_insert p _)

/-- Wake-ups come before the running process blocks. -/
theorem trans (one : Crowd.Rouses due c d) (blocked : d.blocked ⊆ c.blocked)
    (two : Crowd.Rouses due d e) : Crowd.Rouses due c e where
  written := by
    obtain ⟨early, before, dueEarly⟩ := one.written
    obtain ⟨late, after, dueLate⟩ := two.written
    refine ⟨late ++ early, by rw [after, before, List.append_assoc], fun cause a member => ?_⟩
    rcases List.mem_append.mp member with member | member
    · obtain ⟨inside, right⟩ := dueLate cause a member
      exact ⟨blocked inside, right⟩
    · exact dueEarly cause a member
  woken a before after := by
    by_cases still : a ∈ d.blocked
    · exact two.woken a still after
    · exact one.woken a before still

theorem mono {right : Cause → Addr → Prop} (rouses : Crowd.Rouses due c d)
    (implies : ∀ cause a, a ∈ c.blocked → due cause a → right cause a) :
    Crowd.Rouses right c d where
  written := by
    obtain ⟨events, after, dueEvents⟩ := rouses.written
    refine ⟨events, after, fun cause a member => ?_⟩
    obtain ⟨inside, met⟩ := dueEvents cause a member
    exact ⟨inside, implies cause a inside met⟩
  woken a before after := by
    obtain ⟨cause, met⟩ := rouses.woken a before after
    exact ⟨cause, implies cause a before met⟩

/-- A wake-up by pid wakes the process that it is meant for. -/
theorem wake {cause : Cause} {pid : Int} {a : Addr} (woken : Crowd.Wake cause pid c d)
    (only : ∀ b ∈ c.blocked, (c.proc b).pid = pid → b = a) :
    Crowd.Rouses (fun reason b => reason = cause ∧ b = a) c d := by
  cases woken with
  | nobody _ => exact refl c
  | @somebody b blocked same =>
      have found := only b blocked same
      subst found
      constructor
      · refine ⟨[.unblocked cause b], rfl, fun reason other member => ?_⟩
        cases List.mem_singleton.mp member
        exact ⟨blocked, rfl, rfl⟩
      · intro other before after
        refine ⟨cause, rfl, ?_⟩
        by_contra differs
        exact after ⟨before, differs⟩

end Crowd.Rouses

/-- A wake-up changes the blocked set and the log only. -/
theorem Crowd.Wake.same {cause : Cause} {pid : Int} {c d : Crowd}
    (woken : Crowd.Wake cause pid c d) :
    d.proc = c.proc ∧ d.live = c.live ∧ d.blocked ⊆ c.blocked := by
  cases woken with
  | nobody _ => exact ⟨rfl, rfl, Set.Subset.refl _⟩
  | somebody _ _ => exact ⟨rfl, rfl, Set.sdiff_subset⟩

/-- Only the running process goes to sleep. -/
theorem Crowd.Step.blocked {p next : Addr} {c d : Crowd} (step : c.Step p next d) :
    d.blocked ⊆ insert p c.blocked := by
  cases step with
  | waitBlock _ _ => exact Set.Subset.refl _
  | exit _ reports =>
      refine Set.Subset.trans ?_ (Set.subset_insert p _)
      cases reports with
      | orphan _ => exact Set.Subset.refl _
      | child _ woken => exact woken.same.2.2
  | _ => exact Set.subset_insert p _

theorem View.Step.blocked {p next : Addr} {act : Option Call} {v w : View}
    (step : v.Step p next act w) : w.blocked ⊆ insert p v.blocked := by
  rcases step.keeps_or_crowd with keeps | ⟨c, inner, rfl⟩
  · exact keeps.blocked
  · exact inner.blocked

end

end Yallnix

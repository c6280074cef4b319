import Yallnix.Proof.PcbFrame
import Yallnix.Proof.ExitLedger

namespace Yallnix

section
variable [Hardware]

/-- A live process was forked by this process. -/
def Crowd.HasChild (c : Crowd) (p : Addr) : Prop :=
  ∃ a ∈ c.live, isChild (c.proc p).pid (c.proc a).pid c.log = true

/-- The links to the parents say which processes have a live child. -/
theorem Crowd.Ledger.hasChild {c : Crowd} (ledger : c.Ledger) {p : Addr} (live : p ∈ c.live) :
    c.HasChild p ↔ ∃ a ∈ c.live, (c.proc a).parent = some p := by
  constructor
  · rintro ⟨a, inside, child⟩
    exact ⟨a, inside, ledger.linked a inside p live child⟩
  · rintro ⟨a, inside, parent⟩
    exact ⟨a, inside, ledger.recorded a inside p parent⟩

/-- No pid is an error code. -/
structure Crowd.Positive (c : Crowd) : Prop where
  nextPid : 0 ≤ c.nextPid
  pid : ∀ a ∈ c.live, 0 ≤ (c.proc a).pid
  zombies : ∀ a ∈ c.live, ∀ zombie ∈ (c.proc a).zombies, 0 ≤ zombie.pid

namespace Crowd.Positive

variable {p next : Addr} {c d : Crowd}

theorem keeps (positive : c.Positive) (keeps : c.Keeps p d) : d.Positive where
  nextPid := keeps.nextPid ▸ positive.nextPid
  pid a inside := by
    rw [keeps.pid]
    exact positive.pid a (keeps.live ▸ inside)
  zombies a inside := by
    rw [keeps.zombies]
    exact positive.zombies a (keeps.live ▸ inside)

theorem step (positive : c.Positive) (runs : p ∈ c.live) (step : c.FamilyStep p next d) :
    d.Positive := by
  have next := positive.nextPid
  cases step with
  | keeps keeps => exact positive.keeps keeps
  | @forkFailed child junk fresh =>
      have old (a : Addr) (inside : a ∈ c.live) := Crowd.update_fresh fresh junk inside
      have failed : ({ c.update child fun _ => junk with nextPid := c.nextPid + 1 } :
          Crowd).Positive := by
        refine ⟨?_, fun a inside => ?_, fun a inside => ?_⟩
        · change 0 ≤ c.nextPid + 1
          omega
        · change 0 ≤ (Function.update c.proc child junk a).pid
          rw [old a inside]
          exact positive.pid a inside
        · change ∀ zombie ∈ (Function.update c.proc child junk a).zombies, 0 ≤ zombie.pid
          rw [old a inside]
          exact positive.zombies a inside
      exact failed.keeps (.finish p _ _ _)
  | @fork child _ fresh _ =>
      have old : ∀ a ∈ c.live, a ≠ child := fun a inside same => fresh (same ▸ inside)
      refine ⟨?_, fun a inside => ?_, fun a inside => ?_⟩
      · change 0 ≤ c.nextPid + 1
        omega
      · rcases Finset.mem_insert.mp inside with rfl | inside
        · rw [Family.fork_child]
          exact next
        · rw [Family.fork_proc p (old a inside)]
          exact positive.pid a inside
      · rcases Finset.mem_insert.mp inside with rfl | inside
        · rw [Family.fork_child]
          intro zombie member
          cases member
        · rw [Family.fork_proc p (old a inside)]
          exact positive.zombies a inside
  | @exit status e junk point reports =>
      obtain ⟨live, nextPid⟩ := reports.keeps
      refine ⟨?_, fun a inside => ?_, fun a inside => ?_⟩
      · change 0 ≤ e.nextPid
        rw [nextPid]
        exact next
      · have other : a ≠ p := Finset.ne_of_mem_erase inside
        rw [Crowd.exit_proc reports other]
        exact positive.pid a (live ▸ Finset.mem_of_mem_erase inside)
      · have other : a ≠ p := Finset.ne_of_mem_erase inside
        have old := positive.zombies a (live ▸ Finset.mem_of_mem_erase inside)
        rw [Crowd.exit_proc reports other]
        dsimp only
        split
        · intro zombie member
          rcases List.mem_append.mp member with member | member
          · exact old zombie member
          · rw [List.mem_singleton.mp member]
            exact positive.pid p runs
        · exact old
  | @collect statusPtr zombie rest zombies =>
      have collected : ((c.update p fun proc => { proc with zombies := rest }).record
          (.waited (c.proc p).pid zombie.pid zombie.exitStatus)).Positive := by
        refine ⟨next, fun a inside => ?_, fun a inside => ?_⟩
        · rw [Crowd.record_proc, Crowd.update_proc, Crowd.update_zombies]
          exact positive.pid a inside
        · have old := positive.zombies a inside
          rw [Crowd.record_proc, Crowd.update_proc, Crowd.update_zombies]
          dsimp only
          split
          · rename_i same
            subst same
            intro other member
            exact old other (zombies ▸ List.mem_cons_of_mem _ member)
          · exact old
      exact collected.keeps (.finish p _ _ _)

end Crowd.Positive

/-- A process with a zombie or a live child has counted a child. -/
def Crowd.CountedBy (count : Addr → Nat) (c : Crowd) : Prop :=
  ∀ a ∈ c.live, ((c.proc a).zombies ≠ [] ∨ ∃ b ∈ c.live, (c.proc b).parent = some a) → 0 < count a

namespace Crowd.CountedBy

variable {p next : Addr} {c d : Crowd} {before after : Addr → Nat}

/-- The counters stay right when they do not fall and each new child is counted. -/
theorem step (counted : c.CountedBy before) (family : Family c) (runs : p ∈ c.live)
    (step : c.FamilyStep p next d) (grows : ∀ a ∈ c.live, a ∈ d.live → before a ≤ after a)
    (born : d.live ⊆ c.live ∨ 0 < after p) : d.CountedBy after := by
  intro a inside cause
  have old (inside' : a ∈ c.live)
      (cause' : (c.proc a).zombies ≠ [] ∨ ∃ b ∈ c.live, (c.proc b).parent = some a) :
      0 < after a := (counted a inside' cause').trans_le (grows a inside' inside)
  cases step with
  | keeps keeps =>
      refine old (keeps.live ▸ inside) ?_
      rw [keeps.zombies, keeps.live] at cause
      simpa only [keeps.parent] using cause
  | @forkFailed child junk fresh =>
      refine old inside ?_
      rw [Crowd.finish_zombies, Crowd.finish_live] at cause
      simp only [Crowd.finish_parent] at cause
      change (Function.update c.proc child junk a).zombies ≠ [] ∨
        ∃ b ∈ c.live, (Function.update c.proc child junk b).parent = some a at cause
      rw [Crowd.update_fresh fresh junk inside] at cause
      refine cause.imp_right ?_
      rintro ⟨b, liveB, parent⟩
      rw [Crowd.update_fresh fresh junk liveB] at parent
      exact ⟨b, liveB, parent⟩
  | @fork child _ fresh _ =>
      have differs : p ≠ child := fun same => fresh (same ▸ runs)
      have counts : 0 < after p := born.resolve_left fun stays =>
        fresh (stays (Finset.mem_insert_self child c.live))
      by_cases isParent : a = p
      · exact isParent ▸ counts
      have liveParent (b : Addr) (liveB : b ∈ (c.fork p child).live)
          (parent : ((c.fork p child).proc b).parent = some a) :
          b ∈ c.live ∧ (c.proc b).parent = some a := by
        rcases Finset.mem_insert.mp liveB with rfl | liveB
        · rw [Family.fork_child] at parent
          exact absurd (Option.some.inj parent).symm isParent
        · have old : b ≠ child := fun same => fresh (same ▸ liveB)
          rw [Family.fork_proc p old] at parent
          exact ⟨liveB, parent⟩
      rcases Finset.mem_insert.mp inside with rfl | inside
      · rw [Family.fork_child] at cause
        rcases cause with zombies | ⟨b, liveB, parent⟩
        · exact absurd rfl zombies
        · obtain ⟨liveB, parent⟩ := liveParent b liveB parent
          exact absurd (family.parentLive b liveB a parent).1 fresh
      · refine old inside ?_
        have kept : a ≠ child := fun same => fresh (same ▸ inside)
        rw [Family.fork_proc p kept] at cause
        refine cause.imp_right ?_
        rintro ⟨b, liveB, parent⟩
        exact ⟨b, liveParent b liveB parent⟩
  | @exit status e junk point reports =>
      obtain ⟨live, _⟩ := reports.keeps
      have other : a ≠ p := Finset.ne_of_mem_erase inside
      refine old (live ▸ Finset.mem_of_mem_erase inside) ?_
      by_cases mine : (c.proc p).parent = some a
      · exact .inr ⟨p, runs, mine⟩
      rw [Crowd.exit_proc reports other] at cause
      dsimp only at cause
      rw [if_neg mine] at cause
      refine cause.imp_right ?_
      rintro ⟨b, liveB, parent⟩
      have otherB : b ≠ p := Finset.ne_of_mem_erase liveB
      rw [Crowd.exit_proc reports otherB] at parent
      dsimp only at parent
      split at parent
      · cases parent
      · exact ⟨b, live ▸ Finset.mem_of_mem_erase liveB, parent⟩
  | @collect statusPtr zombie rest zombies =>
      refine old inside ?_
      rw [Crowd.finish_zombies, Crowd.finish_live] at cause
      simp only [Crowd.finish_parent, Crowd.record_proc, Crowd.update_proc,
        Crowd.update_zombies] at cause
      refine cause.imp_left fun some => ?_
      split at some
      · rename_i same
        rw [same, zombies]
        exact List.cons_ne_nil _ _
      · exact some

end Crowd.CountedBy

end

end Yallnix

import Yallnix.Proof.FrameAccount

namespace Yallnix

section
variable [Hardware]

namespace KernelMemory

variable {m n k : KernelMemory} {procs : Set Addr} {slots : Set (Addr × Fin kernelStackPages)}
  {p : Addr}

/-- A store keeps the pages of all other entries as they are. -/
theorem maps_store_other {ptep : PtePtr} {pte : Pte} {i : Nat} {valid : Bool}
    (inside : m.Holds ptep) (other : (i : Int) ≠ ptep.index)
    (before : (m.tables ptep.table).maps i = valid) :
    ((m.toMmu.store ptep pte).tables ptep.table).maps i = valid := by
  have nonneg := inside.1
  rw [maps_store inside, if_neg (by omega), before]

namespace Accounts

/-- The growth loops map invalid pages to free frames. -/
theorem mapPages {prot : Prot} {count : Nat} {ptep : PtePtr} {mapped : Bool}
    (accounts : Accounts procs slots m) (tabled : Tabled procs m) (member : p ∈ procs)
    (table : ptep.table = (m.pcbs p).r1PageTable)
    (invalid : ∀ i : Nat, ptep.index ≤ i → (i : Int) < ptep.index + count →
      (m.tables ptep.table).maps i = false)
    (done : m.mapPages prot count ptep = .ok (mapped, n)) (fed : n.frameList.starved = false) :
    Accounts procs slots n := by
  induction count generalizing m ptep with
  | zero =>
      cases done
      exact accounts
  | succ count ih =>
      rw [KernelMemory.mapPages] at done
      split at done
      · rename_i frames got
        cases done
        rw [getFrame_starves got] at fed
        cases fed
      · rename_i pfn frames got
        obtain ⟨k, wrote, done⟩ := Outcome.bind_eq_ok.mp done
        have later : CallsFrames k n := CallsFrames.steady.mapPages done
        obtain ⟨inside, tlb, fills, rfl⟩ := setPageTableEntry_eq_ok wrote
        obtain ⟨_, index⟩ := ptep
        subst table
        have inside : m.Holds ⟨(m.pcbs p).r1PageTable, index⟩ := inside
        have nonneg : 0 ≤ index := inside.1
        have here : (m.tables (m.pcbs p).r1PageTable).maps index.toNat = false :=
          invalid index.toNat (by dsimp only; omega) (by dsimp only; omega)
        refine ih (accounts.mapEntry tabled member inside here got (later.fed fed))
          ⟨tabled.kernel, tabled.apart⟩ rfl (fun i low high => ?_) done
        dsimp only [PtePtr.next] at low high
        exact maps_store_other inside (by dsimp only; omega)
          (invalid i (by dsimp only; omega) (by dsimp only; omega))

/-- The shrink loop gives frames back. -/
theorem unmapPages {count : Nat} {ptep : PtePtr} (accounts : Accounts procs slots m)
    (tabled : Tabled procs m) (member : p ∈ procs) (table : ptep.table = (m.pcbs p).r1PageTable)
    (done : m.unmapPages count ptep = .ok n) : Accounts procs slots n := by
  induction count generalizing m ptep with
  | zero =>
      cases done
      exact accounts
  | succ count ih =>
      obtain ⟨pte, read, done⟩ := Outcome.bind_eq_ok.mp done
      obtain ⟨k, wrote, done⟩ := Outcome.bind_eq_ok.mp done
      obtain ⟨-, read⟩ := readEntry_eq_ok.mp read
      obtain ⟨inside, old, found, tlb, fills, rfl⟩ := invalidatePageTableEntry_eq_ok wrote
      cases Option.some.inj (read.symm.trans found)
      obtain ⟨_, index⟩ := ptep
      subst table
      have inside : m.Holds ⟨(m.pcbs p).r1PageTable, index⟩ := inside
      exact ih (accounts.unmapEntry tabled member inside read) ⟨tabled.kernel, tabled.apart⟩ rfl done

/-- The loop of the memory trap maps invalid pages to free frames. -/
theorem growStack {count : Nat} {ptep : PtePtr} {mapped : Bool}
    (accounts : Accounts procs slots m) (tabled : Tabled procs m) (member : p ∈ procs)
    (table : ptep.table = (m.pcbs p).r1PageTable)
    (done : m.growStack count ptep = .ok (mapped, n)) (fed : n.frameList.starved = false) :
    Accounts procs slots n := by
  induction count generalizing m ptep with
  | zero =>
      cases done
      exact accounts
  | succ count ih =>
      obtain ⟨pte, read, done⟩ := Outcome.bind_eq_ok.mp done
      split at done
      · have next : ptep.previous.table = (m.pcbs p).r1PageTable := table
        exact ih accounts tabled next done
      · rename_i invalid
        rw [Bool.not_eq_true] at invalid
        obtain ⟨-, read⟩ := readEntry_eq_ok.mp read
        split at done
        · rename_i frames got
          cases done
          rw [getFrame_starves got] at fed
          cases fed
        · rename_i pfn frames got
          obtain ⟨k, wrote, done⟩ := Outcome.bind_eq_ok.mp done
          have later : CallsFrames k n := CallsFrames.steady.growStack done
          obtain ⟨inside, tlb, fills, rfl⟩ := setPageTableEntry_eq_ok wrote
          obtain ⟨_, index⟩ := ptep
          subst table
          have inside : m.Holds ⟨(m.pcbs p).r1PageTable, index⟩ := inside
          have here : (m.tables (m.pcbs p).r1PageTable).maps index.toNat = false :=
            (maps_of_getElem? read).trans invalid
          exact ih (accounts.mapEntry tabled member inside here got (later.fed fed))
            ⟨tabled.kernel, tabled.apart⟩ rfl done

/-- `LoadProgram` gives the frames of the old valid pages back. -/
theorem freeValidPages {count index : Nat} (accounts : Accounts procs slots m)
    (tabled : Tabled procs m) (member : p ∈ procs)
    (done : m.freeValidPages (m.pcbs p).r1PageTable count index = .ok n) :
    Accounts procs slots n := by
  induction count generalizing m index with
  | zero =>
      cases done
      exact accounts
  | succ count ih =>
      obtain ⟨pte, read, done⟩ := Outcome.bind_eq_ok.mp done
      split at done
      · exact ih accounts tabled done
      · obtain ⟨k, wrote, done⟩ := Outcome.bind_eq_ok.mp done
        obtain ⟨-, read⟩ := readEntry_eq_ok.mp read
        obtain ⟨inside, old, found, tlb, fills, rfl⟩ := invalidatePageTableEntry_eq_ok wrote
        cases Option.some.inj (read.symm.trans found)
        have inside : m.Holds ⟨(m.pcbs p).r1PageTable, (index : Int)⟩ := inside
        exact ih (accounts.unmapEntry tabled member inside read) ⟨tabled.kernel, tabled.apart⟩ done

/-- The last loop of `LoadProgram` changes only protections. -/
theorem protectText {count : Nat} {index : Int} (accounts : Accounts procs slots m)
    (tabled : Tabled procs m) (member : p ∈ procs)
    (done : m.protectText (m.pcbs p).r1PageTable count index = .ok n) :
    Accounts procs slots n := by
  induction count generalizing m index with
  | zero =>
      cases done
      exact accounts
  | succ count ih =>
      obtain ⟨pte, read, done⟩ := Outcome.bind_eq_ok.mp done
      obtain ⟨k, wrote, done⟩ := Outcome.bind_eq_ok.mp done
      obtain ⟨-, read⟩ := readEntry_eq_ok.mp read
      obtain ⟨inside, tlb, fills, rfl⟩ := setPageTableEntry_eq_ok wrote
      exact ih (accounts.keepEntry tabled member inside read) ⟨tabled.kernel, tabled.apart⟩ done

end Accounts

end KernelMemory

end

end Yallnix

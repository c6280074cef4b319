import Yallnix.Construction.MemoryMachine
import Yallnix.Proof.FrameCalls
import Yallnix.Proof.MmuStep

namespace Yallnix

section
variable [Hardware]

namespace KernelMemory

/-- Only frames, pages, the saved contexts and the mode may change. -/
structure SameSpaces (m n : KernelMemory) : Prop where
  mmu : n.toMmu = m.toMmu
  calls : FrameCalls m.frameList n.frameList
  kernelDataEnd : n.kernelDataEnd = m.kernelDataEnd
  currKernelBrk : n.currKernelBrk = m.currKernelBrk
  breakWritten : n.breakWritten = m.breakWritten
  library : n.library = m.library
  live : n.live = m.live
  currPCB : n.currPCB = m.currPCB
  idlePCB : n.idlePCB = m.idlePCB
  tables : ∀ pcbp, (n.pcbs pcbp).r1PageTable = (m.pcbs pcbp).r1PageTable

theorem SameSpaces.updatePcb (m : KernelMemory) (pcbp : Addr) {f : MemoryPcb → MemoryPcb}
    (keeps : (f (m.pcbs pcbp)).r1PageTable = (m.pcbs pcbp).r1PageTable) :
    SameSpaces m (m.updatePcb pcbp f) where
  mmu := rfl
  calls := .refl
  kernelDataEnd := rfl
  currKernelBrk := rfl
  breakWritten := rfl
  library := rfl
  live := rfl
  currPCB := rfl
  idlePCB := rfl
  tables a := by
    by_cases same : a = pcbp
    · subst same
      simpa only [KernelMemory.updatePcb, Function.update_self] using keeps
    · simp only [KernelMemory.updatePcb, Function.update_of_ne same]

/-- A steady relation holds across every write that kernel code makes between two switches. -/
structure Steady (R : KernelMemory → KernelMemory → Prop) (safe : Mmu → Addr → Prop) : Prop where
  trans : ∀ {m k n}, R m k → R k n → R m n
  safe_of : ∀ {m n table}, R m n → safe m.toMmu table → safe n.toMmu table
  safe_own : ∀ {m n pcbp}, R m n → safe m.toMmu (m.pcbs pcbp).r1PageTable →
    safe n.toMmu (n.pcbs pcbp).r1PageTable
  safe_curr : ∀ {m n}, R m n → safe m.toMmu m.curr.r1PageTable →
    safe n.toMmu n.curr.r1PageTable
  setEntry : ∀ {m n ptep pte}, m.setPageTableEntry ptep pte = .ok n → R m n
  invalidate : ∀ {m n ptep}, m.invalidatePageTableEntry ptep = .ok n → R m n
  setOther : ∀ {m n ptep pte}, safe m.toMmu ptep.table →
    m.setPageTableEntryNoFlush ptep pte = .ok n → R m n
  setTable : ∀ {m table} entries, safe m.toMmu table →
    R m { m with tables := Function.update m.tables table entries }
  same : ∀ {m n}, SameSpaces m n → R m n

namespace Steady

variable {R : KernelMemory → KernelMemory → Prop} {safe : Mmu → Addr → Prop}
  (steady : Steady R safe) {m n : KernelMemory}

include steady

theorem refl (m : KernelMemory) : R m m :=
  steady.same ⟨rfl, .refl, rfl, rfl, rfl, rfl, rfl, rfl, rfl, fun _ => rfl⟩

theorem frames (m : KernelMemory) {frames : FrameList} (calls : FrameCalls m.frameList frames) :
    R m { m with frameList := frames } :=
  steady.same ⟨rfl, calls, rfl, rfl, rfl, rfl, rfl, rfl, rfl, fun _ => rfl⟩

theorem takeFrame {frames : FrameList} {found : Option Nat}
    (got : getFrame m.frameList = (found, frames)) : R m { m with frameList := frames } :=
  steady.frames m (.of_get got)

theorem updatePcb (m : KernelMemory) (pcbp : Addr) {f : MemoryPcb → MemoryPcb}
    (keeps : (f (m.pcbs pcbp)).r1PageTable = (m.pcbs pcbp).r1PageTable) :
    R m (m.updatePcb pcbp f) :=
  steady.same (.updatePcb m pcbp keeps)

theorem writePage {vpn : Nat} {page : Page} (done : m.writePage vpn page = .ok n) : R m n := by
  unfold KernelMemory.writePage at done
  split at done
  · cases done
  · split at done
    · cases done
      exact steady.same ⟨rfl, .refl, rfl, rfl, rfl, rfl, rfl, rfl, rfl, fun _ => rfl⟩
    · cases done

theorem copyPage {target source : Nat} (done : m.copyPage target source = .ok n) : R m n := by
  obtain ⟨page, -, wrote⟩ := Outcome.bind_eq_ok.mp done
  exact steady.writePage wrote

theorem mapPages {prot : Prot} {count : Nat} {ptep : PtePtr} {mapped : Bool}
    (done : m.mapPages prot count ptep = .ok (mapped, n)) : R m n := by
  induction count generalizing m ptep with
  | zero =>
      cases done
      exact steady.refl _
  | succ count ih =>
      rw [KernelMemory.mapPages] at done
      split at done
      · rename_i frames got
        cases done
        exact steady.takeFrame got
      · rename_i pfn frames got
        obtain ⟨stored, wrote, done⟩ := Outcome.bind_eq_ok.mp done
        exact steady.trans (steady.takeFrame got) (steady.trans (steady.setEntry wrote) (ih done))

theorem unmapPages {count : Nat} {ptep : PtePtr} (done : m.unmapPages count ptep = .ok n) :
    R m n := by
  induction count generalizing m ptep with
  | zero =>
      cases done
      exact steady.refl _
  | succ count ih =>
      obtain ⟨pte, -, done⟩ := Outcome.bind_eq_ok.mp done
      obtain ⟨stored, wrote, done⟩ := Outcome.bind_eq_ok.mp done
      exact steady.trans (steady.frames m (.single (.free _ _)))
        (steady.trans (steady.invalidate wrote) (ih done))

/-- The three cases of the break compare map or unmap some pages. -/
theorem brkPages {table : Addr} {baseVpn addr currBrk : Nat} {moved : Bool}
    (done : m.brkPages table baseVpn addr currBrk = .ok (moved, n)) : R m n := by
  unfold KernelMemory.brkPages at done
  dsimp only at done
  split at done
  · obtain ⟨stored, unmapped, done⟩ := Outcome.bind_eq_ok.mp done
    cases done
    exact steady.unmapPages unmapped
  · split at done
    · split at done
      · obtain ⟨stored, unmapped, done⟩ := Outcome.bind_eq_ok.mp done
        cases done
        exact steady.unmapPages unmapped
      · split at done
        · exact steady.mapPages done
        · cases done
          exact steady.refl _
    · exact steady.mapPages done

theorem growStack {count : Nat} {ptep : PtePtr} {mapped : Bool}
    (done : m.growStack count ptep = .ok (mapped, n)) : R m n := by
  induction count generalizing m ptep with
  | zero =>
      cases done
      exact steady.refl _
  | succ count ih =>
      obtain ⟨pte, -, done⟩ := Outcome.bind_eq_ok.mp done
      split at done
      · exact ih done
      · split at done
        · rename_i frames got
          cases done
          exact steady.takeFrame got
        · rename_i pfn frames got
          obtain ⟨stored, wrote, done⟩ := Outcome.bind_eq_ok.mp done
          exact steady.trans (steady.takeFrame got) (steady.trans (steady.setEntry wrote) (ih done))

theorem freeValidPages {table : Addr} {count index : Nat}
    (done : m.freeValidPages table count index = .ok n) : R m n := by
  induction count generalizing m index with
  | zero =>
      cases done
      exact steady.refl _
  | succ count ih =>
      obtain ⟨pte, -, done⟩ := Outcome.bind_eq_ok.mp done
      split at done
      · exact ih done
      · obtain ⟨stored, wrote, done⟩ := Outcome.bind_eq_ok.mp done
        exact steady.trans (steady.frames m (.single (.free _ _)))
          (steady.trans (steady.invalidate wrote) (ih done))

theorem fillPages {image : Nat → Page} {count vpn : Nat}
    (done : m.fillPages image count vpn = .ok n) : R m n := by
  induction count generalizing m vpn with
  | zero =>
      cases done
      exact steady.refl _
  | succ count ih =>
      obtain ⟨stored, wrote, done⟩ := Outcome.bind_eq_ok.mp done
      exact steady.trans (steady.writePage wrote) (ih done)

theorem protectText {table : Addr} {count : Nat} {index : Int}
    (done : m.protectText table count index = .ok n) : R m n := by
  induction count generalizing m index with
  | zero =>
      cases done
      exact steady.refl _
  | succ count ih =>
      obtain ⟨pte, -, done⟩ := Outcome.bind_eq_ok.mp done
      obtain ⟨stored, wrote, done⟩ := Outcome.bind_eq_ok.mp done
      exact steady.trans (steady.setEntry wrote) (ih done)

theorem copyPages {parentTable childTable : Addr} {count index : Nat} {copied : Bool}
    (free : safe m.toMmu childTable)
    (done : m.copyPages parentTable childTable count index = .ok (copied, n)) : R m n := by
  induction count generalizing m index with
  | zero =>
      cases done
      exact steady.refl _
  | succ count ih =>
      obtain ⟨pte, -, done⟩ := Outcome.bind_eq_ok.mp done
      split at done
      · exact ih free done
      · split at done
        · rename_i frames got
          cases done
          exact steady.takeFrame got
        · rename_i pfn frames got
          obtain ⟨mapped, wroteTemp, done⟩ := Outcome.bind_eq_ok.mp done
          obtain ⟨copied, wrotePage, done⟩ := Outcome.bind_eq_ok.mp done
          obtain ⟨stored, wroteChild, done⟩ := Outcome.bind_eq_ok.mp done
          have before := steady.trans (steady.takeFrame got)
            (steady.trans (steady.setEntry wroteTemp) (steady.copyPage wrotePage))
          have wrote := steady.setOther (steady.safe_of before free) wroteChild
          have after := steady.trans before wrote
          exact steady.trans after (ih (steady.safe_of after free) done)

theorem mapStack {slots : List (Fin kernelStackPages)} (done : m.mapStack slots = .ok n) :
    R m n := by
  induction slots generalizing m with
  | nil =>
      cases done
      exact steady.refl _
  | cons i rest ih =>
      obtain ⟨stored, wrote, done⟩ := Outcome.bind_eq_ok.mp done
      exact steady.trans (steady.setEntry wrote) (ih done)

theorem loadStarterStack {slots : List (Fin kernelStackPages)}
    (done : m.loadStarterStack slots = .ok n) : R m n := by
  induction slots generalizing m with
  | nil =>
      cases done
      exact steady.refl _
  | cons i rest ih =>
      obtain ⟨stored, wrote, done⟩ := Outcome.bind_eq_ok.mp done
      exact steady.trans (steady.writePage wrote) (ih done)

theorem copyStack {slots : List (Fin kernelStackPages)} (done : m.copyStack slots = .ok n) :
    R m n := by
  induction slots generalizing m with
  | nil =>
      cases done
      exact steady.refl _
  | cons i rest ih =>
      obtain ⟨mapped, wroteTemp, done⟩ := Outcome.bind_eq_ok.mp done
      obtain ⟨copied, wrotePage, done⟩ := Outcome.bind_eq_ok.mp done
      obtain ⟨stored, wrote, done⟩ := Outcome.bind_eq_ok.mp done
      exact steady.trans (steady.setEntry wroteTemp) (steady.trans (steady.copyPage wrotePage)
        (steady.trans (steady.setEntry wrote) (ih done)))

theorem saveStarterStack {slots : List (Fin kernelStackPages)}
    (done : m.saveStarterStack slots = .ok n) : R m n := by
  induction slots generalizing m with
  | nil =>
      cases done
      exact steady.refl _
  | cons i rest ih =>
      obtain ⟨page, -, done⟩ := Outcome.bind_eq_ok.mp done
      refine steady.trans ?_ (ih done)
      exact steady.same ⟨rfl, .refl, rfl, rfl, rfl, rfl, rfl, rfl, rfl, fun _ => rfl⟩

theorem saveContext {pcbp : Addr} {kctxt : KernelContext}
    (done : m.saveContext pcbp kctxt = .ok n) : R m n := by
  unfold KernelMemory.saveContext at done
  split at done
  · cases done
  · cases done
    exact steady.updatePcb _ _ rfl

theorem takeStackFrames {newPCB : Addr} {slots : List (Fin kernelStackPages)} {taken : Bool}
    (done : m.takeStackFrames newPCB slots = (taken, n)) : R m n := by
  induction slots generalizing m with
  | nil =>
      cases done
      exact steady.refl _
  | cons i rest ih =>
      rw [KernelMemory.takeStackFrames] at done
      split at done
      · rename_i frames got
        cases done
        exact steady.takeFrame got
      · rename_i pfn frames got
        exact steady.trans (steady.takeFrame got)
          (steady.trans (steady.updatePcb _ _ rfl) (ih done))

end Steady

/-- A steady relation may also hold across the calls of the C library. -/
structure SteadyHeap (R : KernelMemory → KernelMemory → Prop) (safe : Mmu → Addr → Prop) : Prop
    extends Steady R safe where
  malloc : ∀ {m n found}, m.malloc = .ok (found, n) → R m n

/-- `initPCB` fills the memory of a new PCB. -/
def newPcb (memory : ProcessMemory) (m : KernelMemory) : KernelMemory :=
  m.updatePcb memory.pcb fun _ =>
    { memory.junk with kctxt := none, r1PageTable := memory.r1PageTable }

theorem resumeContext_eq_ok {m n : KernelMemory} {kctxt : KernelContext}
    (done : m.resumeContext = .ok (kctxt, n)) : m.curr.kctxt = some kctxt ∧ n = m := by
  unfold resumeContext at done
  split at done
  · cases done
  · rename_i found
    cases done
    exact ⟨found, rfl⟩

/-- A switch runs another process and then loads the register of region 1. -/
def Switched (R : KernelMemory → KernelMemory → Prop) (nextPCB : Addr) (m n : KernelMemory) :
    Prop :=
  ∃ k l, R m k ∧ R { k with currPCB := nextPCB } l ∧ n = l.switchRegion1

/-- A new process gets its PCB between two steady parts. -/
def Spawned (R : KernelMemory → KernelMemory → Prop) (memory : ProcessMemory)
    (m n : KernelMemory) : Prop :=
  ∃ k, R m k ∧ R (k.newPcb memory) n

namespace SteadyHeap

variable {R : KernelMemory → KernelMemory → Prop} {safe : Mmu → Addr → Prop}
  (steady : SteadyHeap R safe) {m n : KernelMemory}

include steady

theorem mallocOrElse {stop : Stop} (done : orElse stop m.malloc = .ok n) : R m n :=
  steady.malloc (orElse_eq_ok.mp done)

theorem free (done : m.free = .ok n) : R m n := by
  obtain ⟨answer, allocated, done⟩ := Outcome.bind_eq_ok.mp done
  cases done
  exact steady.malloc allocated

theorem initializeRegionPageTable {table : Addr} {found : Bool} (unused : safe m.toMmu table)
    (done : m.initializeRegionPageTable table = .ok (found, n)) : R m n := by
  obtain ⟨⟨answer, k⟩, allocated, done⟩ := Outcome.bind_eq_ok.mp done
  have before := steady.malloc allocated
  cases answer with
  | false =>
      cases done
      exact before
  | true =>
      cases done
      exact steady.trans before (steady.setTable _ (steady.safe_of before unused))

theorem deleteProcess {pcbp : Addr} {freedTable : PageTable}
    (unused : safe m.toMmu (m.pcbs pcbp).r1PageTable)
    (done : m.deleteProcess pcbp freedTable = .ok n) : R m n := by
  obtain ⟨k, freed, done⟩ := Outcome.bind_eq_ok.mp done
  obtain ⟨l, freedTwice, done⟩ := Outcome.bind_eq_ok.mp done
  have first := steady.free freed
  have swept : R k (k.freeValidFrames (k.pcbs pcbp).r1PageTable) := by
    refine steady.frames k ?_
    rw [freeValidFrames_eq]
    exact .foldl _ _
  have before := steady.trans first swept
  have dropped := steady.setTable (m := k.freeValidFrames (k.pcbs pcbp).r1PageTable) freedTable
    (steady.safe_own before unused)
  have second := steady.trans (steady.trans before dropped) (steady.free freedTwice)
  have stack : FrameCalls l.frameList ((List.finRange kernelStackPages).foldl
      (fun frames i => freeFrame frames ((k.pcbs pcbp).stackPfns i)) l.frameList) := by
    rw [← List.foldl_map]
    exact .foldl _ _
  exact steady.trans second (steady.trans (steady.frames l stack) (steady.free done))

/-- A failed `initPCB` leaves a deleted PCB or no PCB. -/
theorem initPCB {memory : ProcessMemory} {made : Bool}
    (unused : safe m.toMmu memory.r1PageTable) (done : m.initPCB memory = .ok (made, n)) :
    (made = false ∧ R m n) ∨ Spawned R memory m n := by
  obtain ⟨⟨found, first⟩, allocated, done⟩ := Outcome.bind_eq_ok.mp done
  have one := steady.malloc allocated
  cases found with
  | false =>
      cases done
      exact Or.inl ⟨rfl, one⟩
  | true =>
      obtain ⟨second, allocated, done⟩ := Outcome.bind_eq_ok.mp done
      have two := steady.trans one (steady.mallocOrElse allocated)
      obtain ⟨third, allocated, done⟩ := Outcome.bind_eq_ok.mp done
      have three := steady.trans two (steady.initializeRegionPageTable
        (steady.safe_of two unused) (orElse_eq_ok.mp allocated))
      refine Or.inr ⟨third, three, ?_⟩
      dsimp only at done
      split at done
      · rename_i took
        cases done
        exact steady.takeStackFrames (m := third.newPcb memory) took
      · rename_i took
        change (third.newPcb memory).takeStackFrames memory.pcb _ = _ at took
        obtain ⟨deleted, removed, done⟩ := Outcome.bind_eq_ok.mp done
        cases done
        have before := steady.takeStackFrames took
        refine steady.trans before (steady.deleteProcess (steady.safe_own before ?_) removed)
        have table : ((third.newPcb memory).pcbs memory.pcb).r1PageTable = memory.r1PageTable := by
          simp only [newPcb, KernelMemory.updatePcb, Function.update_self]
        rw [table]
        exact steady.safe_of (n := third) three unused

theorem startProcess (done : m.startProcess = .ok n) : R m n := by
  unfold KernelMemory.startProcess at done
  split at done
  · cases done
    exact steady.refl _
  · obtain ⟨k, allocated, done⟩ := Outcome.bind_eq_ok.mp done
    exact steady.trans (steady.mallocOrElse allocated)
      (steady.trans (steady.updatePcb _ _ rfl) (steady.loadStarterStack done))

theorem switchBetween {currKctxt kctxt : KernelContext} {currPcbp : Option Addr} {nextPcbp : Addr}
    (done : m.switchBetween currKctxt currPcbp nextPcbp = .ok (kctxt, n)) :
    Switched R nextPcbp m n := by
  have runs : ∀ {k : KernelMemory},
      ({ k with currPCB := nextPcbp }.mapStack (List.finRange kernelStackPages) >>= fun m =>
        m.startProcess >>= fun m => m.switchRegion1.resumeContext) = .ok (kctxt, n) →
      ∃ last, R { k with currPCB := nextPcbp } last ∧ n = last.switchRegion1 := by
    intro k done
    obtain ⟨l, mapped, done⟩ := Outcome.bind_eq_ok.mp done
    obtain ⟨last, started, done⟩ := Outcome.bind_eq_ok.mp done
    exact ⟨last, steady.trans (steady.mapStack mapped) (steady.startProcess started),
      (resumeContext_eq_ok done).2⟩
  cases currPcbp with
  | none =>
      obtain ⟨last, ran, rfl⟩ := runs done
      exact ⟨m, last, steady.refl _, ran, rfl⟩
  | some pcbp =>
      obtain ⟨k, saved, done⟩ := Outcome.bind_eq_ok.mp done
      obtain ⟨last, ran, rfl⟩ := runs done
      exact ⟨k, last, steady.saveContext saved, ran, rfl⟩

theorem forkTo {currKctxt kctxt : KernelContext} {childPcbp : Addr}
    (done : m.forkTo currKctxt childPcbp = .ok (kctxt, n)) : Switched R childPcbp m n := by
  obtain ⟨k, saved, done⟩ := Outcome.bind_eq_ok.mp done
  obtain ⟨l, copied, done⟩ := Outcome.bind_eq_ok.mp done
  obtain ⟨reset, wrote, done⟩ := Outcome.bind_eq_ok.mp done
  obtain ⟨last, given, done⟩ := Outcome.bind_eq_ok.mp done
  exact ⟨k, last, steady.saveContext saved, steady.trans (steady.copyStack copied)
    (steady.trans (steady.setEntry wrote) (steady.saveContext given)),
    (resumeContext_eq_ok done).2⟩

theorem execTo {kctxt : KernelContext} (done : m.execTo = .ok (kctxt, n)) : R m n := by
  obtain ⟨k, saved, done⟩ := Outcome.bind_eq_ok.mp done
  obtain ⟨l, loaded, done⟩ := Outcome.bind_eq_ok.mp done
  rw [(resumeContext_eq_ok done).2]
  exact steady.trans (steady.saveContext saved) (steady.loadStarterStack loaded)

/-- A fork that fails runs no other process, and one that succeeds runs the child. -/
theorem kernelFork {memory : ProcessMemory} {currKctxt : KernelContext}
    (unused : safe m.toMmu memory.r1PageTable) (done : m.kernelFork memory currKctxt = .ok n) :
    R m n ∨ Spawned R memory m n ∨ ∃ l, Spawned R memory m l ∧
      Switched R memory.pcb { l with live := insert memory.pcb l.live } n := by
  obtain ⟨⟨made, first⟩, initialized, done⟩ := Outcome.bind_eq_ok.mp done
  have spawned := steady.initPCB unused initialized
  cases made with
  | false =>
      cases done
      rcases spawned with ⟨-, failed⟩ | spawned
      · exact Or.inl failed
      · exact Or.inr (Or.inl spawned)
  | true =>
      obtain ⟨k, before, after⟩ := spawned.resolve_left nofun
      have free := steady.safe_of (m := k.newPcb memory) after
        (steady.safe_of (n := k) before unused)
      obtain ⟨⟨found, second⟩, allocated, done⟩ := Outcome.bind_eq_ok.mp done
      have stepOne := steady.trans (steady.malloc allocated)
        (steady.updatePcb second memory.pcb (f := fun pcb =>
          { pcb with
            kctxt := if found then some memory.kctxt else none
            brk := second.curr.brk }) rfl)
      obtain ⟨⟨copied, third⟩, wrote, done⟩ := Outcome.bind_eq_ok.mp done
      have stepTwo := steady.trans stepOne
        (steady.copyPages (steady.safe_of stepOne free) wrote)
      cases copied with
      | false =>
          cases done
          exact Or.inr (Or.inl ⟨k, before, steady.trans after stepTwo⟩)
      | true =>
          obtain ⟨fourth, reset, done⟩ := Outcome.bind_eq_ok.mp done
          obtain ⟨⟨_, fifth⟩, allocated, done⟩ := Outcome.bind_eq_ok.mp done
          obtain ⟨⟨_, last⟩, forked, done⟩ := Outcome.bind_eq_ok.mp done
          cases done
          have stepThree := steady.trans stepTwo
            (steady.trans (steady.setEntry reset) (steady.malloc allocated))
          exact Or.inr (Or.inr ⟨fifth, ⟨k, before, steady.trans after stepThree⟩,
            steady.forkTo forked⟩)

theorem loadImage {li : LoadInfo} {request : ImageRequest} {proc : Addr} {code : Int}
    (done : m.loadImage li request proc = .ok (code, n)) : R m n := by
  obtain ⟨⟨found, first⟩, allocated, done⟩ := Outcome.bind_eq_ok.mp done
  refine steady.trans (steady.malloc allocated) ?_
  dsimp only at done
  split at done
  · cases done
    exact steady.refl _
  obtain ⟨second, freed, done⟩ := Outcome.bind_eq_ok.mp done
  refine steady.trans (steady.freeValidPages freed) ?_
  obtain ⟨⟨textMapped, third⟩, mappedText, done⟩ := Outcome.bind_eq_ok.mp done
  refine steady.trans (steady.mapPages mappedText) ?_
  dsimp only at done
  split at done
  · cases done
    exact steady.refl _
  obtain ⟨⟨dataMapped, fourth⟩, mappedData, done⟩ := Outcome.bind_eq_ok.mp done
  refine steady.trans (steady.mapPages mappedData) ?_
  dsimp only at done
  split at done
  · cases done
    exact steady.refl _
  obtain ⟨⟨stackMapped, fifth⟩, mappedStack, done⟩ := Outcome.bind_eq_ok.mp done
  refine steady.trans (steady.updatePcb _ _ ?_) (steady.trans (steady.mapPages mappedStack) ?_)
  · rfl
  dsimp only at done
  split at done
  · cases done
    exact steady.refl _
  split at done
  · cases done
    exact steady.refl _
  obtain ⟨sixth, readText, done⟩ := Outcome.bind_eq_ok.mp done
  refine steady.trans (steady.fillPages readText) ?_
  split at done
  · cases done
    exact steady.refl _
  obtain ⟨seventh, readData, done⟩ := Outcome.bind_eq_ok.mp done
  obtain ⟨eighth, protectedText, done⟩ := Outcome.bind_eq_ok.mp done
  obtain ⟨ninth, zeroed, done⟩ := Outcome.bind_eq_ok.mp done
  obtain ⟨tenth, built, done⟩ := Outcome.bind_eq_ok.mp done
  obtain ⟨last, freedBuffer, done⟩ := Outcome.bind_eq_ok.mp done
  cases done
  exact steady.trans (steady.fillPages readData) (steady.trans (steady.protectText protectedText)
    (steady.trans (steady.fillPages zeroed) (steady.trans (steady.fillPages built)
      (steady.free freedBuffer))))

theorem loadProgram {request : ImageRequest} {proc : Addr} {code : Int}
    (done : m.loadProgram request proc = .ok (code, n)) : R m n := by
  unfold KernelMemory.loadProgram at done
  split at done
  · cases done
    exact steady.refl _
  · split at done
    · cases done
      exact steady.refl _
    · split at done
      · cases done
        exact steady.refl _
      · exact steady.loadImage done

theorem mode (m : KernelMemory) (mode : Mode) : R m { m with mode := mode } :=
  steady.same ⟨rfl, .refl, rfl, rfl, rfl, rfl, rfl, rfl, rfl, fun _ => rfl⟩

theorem kernelExec {request : ImageRequest} (done : m.kernelExec request = .ok n) : R m n := by
  unfold KernelMemory.kernelExec at done
  split at done
  · cases done
    exact steady.refl _
  obtain ⟨⟨status, loaded⟩, load, done⟩ := Outcome.bind_eq_ok.mp done
  refine steady.trans (steady.loadProgram load) ?_
  dsimp only at done
  split at done
  · cases done
    exact steady.mode _ _
  split at done
  · cases done
    exact steady.refl _
  obtain ⟨⟨_, last⟩, started, done⟩ := Outcome.bind_eq_ok.mp done
  cases done
  exact steady.execTo started

theorem kernelBrk {addr : Nat} {code : Int} (done : m.kernelBrk addr = .ok (code, n)) :
    R m n := by
  unfold KernelMemory.kernelBrk at done
  split at done
  · cases done
    exact steady.refl _
  obtain ⟨⟨mapped, k⟩, moved, done⟩ := Outcome.bind_eq_ok.mp done
  refine steady.trans (steady.brkPages moved) ?_
  dsimp only at done
  split at done
  · cases done
    exact steady.refl _
  cases done
  exact steady.updatePcb _ _ rfl

theorem handleTrapMemory {addr : Nat} (done : m.handleTrapMemory addr = .ok n) : R m n := by
  unfold KernelMemory.handleTrapMemory at done
  dsimp only at done
  split at done
  · cases done
    exact steady.mode _ _
  obtain ⟨⟨mapped, k⟩, grown, done⟩ := Outcome.bind_eq_ok.mp done
  refine steady.trans (steady.growStack grown) ?_
  dsimp only at done
  split at done
  · cases done
    exact steady.mode _ _
  cases done
  exact steady.refl _

/-- An exit deletes the current process and then switches. -/
theorem exitProcess {freedTable : PageTable} {nextPCB : Addr}
    (unused : safe m.toMmu m.curr.r1PageTable)
    (done : m.exitProcess freedTable nextPCB = .ok n) :
    ∃ k, R m k ∧ Switched R nextPCB { k with live := k.live.erase k.currPCB } n := by
  obtain ⟨⟨_, first⟩, allocated, done⟩ := Outcome.bind_eq_ok.mp done
  obtain ⟨second, removed, done⟩ := Outcome.bind_eq_ok.mp done
  obtain ⟨⟨_, last⟩, switched, done⟩ := Outcome.bind_eq_ok.mp done
  cases done
  have before := steady.malloc allocated
  exact ⟨second, steady.trans before (steady.deleteProcess (steady.safe_curr before unused) removed),
    steady.switchBetween switched⟩

theorem initBuffers (done : m.initBuffers = .ok n) : R m n := by
  unfold KernelMemory.initBuffers at done
  split at done
  · cases done
  · rename_i pfn frames got
    obtain ⟨stored, wrote, done⟩ := Outcome.bind_eq_ok.mp done
    exact steady.trans (steady.takeFrame got)
      (steady.trans (steady.setEntry wrote) (steady.mallocOrElse done))

theorem loadIdle {idlePCB : Addr} (unused : safe m.toMmu (m.pcbs idlePCB).r1PageTable)
    (done : m.loadIdle idlePCB = .ok n) : R m n := by
  unfold KernelMemory.loadIdle at done
  split at done
  · cases done
  · rename_i pfn frames got
    exact steady.trans (steady.takeFrame got) (steady.setOther unused done)

theorem getStarterKernelState {currKctxt kctxt : KernelContext}
    (done : m.getStarterKernelState currKctxt = .ok (kctxt, n)) : R m n := by
  obtain ⟨k, saved, done⟩ := Outcome.bind_eq_ok.mp done
  cases done
  refine steady.trans (steady.saveStarterStack saved) ?_
  exact steady.same ⟨rfl, .refl, rfl, rfl, rfl, rfl, rfl, rfl, rfl, fun _ => rfl⟩

/-- `KernelStart` makes the idle process and then `init`, and lets `init` run. -/
theorem startProcesses {boot : MemoryBoot} (unused : safe m.toMmu boot.idle.r1PageTable)
    (done : m.startProcesses boot = .ok n) :
    ∃ j k l f, Spawned R boot.idle m j ∧
      R { j with live := insert boot.idle.pcb j.live } k ∧
      (∀ pcb : MemoryPcb, (f pcb).r1PageTable = boot.initR1PageTable) ∧
      R { k.updatePcb boot.initPcbp f with live := insert boot.initPcbp k.live } l ∧
      R { l with currPCB := boot.initPcbp } n := by
  obtain ⟨first, buffered, done⟩ := Outcome.bind_eq_ok.mp done
  obtain ⟨second, allocated, done⟩ := Outcome.bind_eq_ok.mp done
  have before := steady.trans (steady.initBuffers buffered) (steady.mallocOrElse allocated)
  obtain ⟨third, initialized, done⟩ := Outcome.bind_eq_ok.mp done
  obtain ⟨k, first', after⟩ := (steady.initPCB (steady.safe_of before unused)
    (orElse_eq_ok.mp initialized)).resolve_left nofun
  have spawned : Spawned R boot.idle m third := ⟨k, steady.trans before first', after⟩
  have free : safe third.toMmu (third.pcbs boot.idle.pcb).r1PageTable := by
    refine steady.safe_own after ?_
    have table : ((k.newPcb boot.idle).pcbs boot.idle.pcb).r1PageTable = boot.idle.r1PageTable := by
      simp only [newPcb, KernelMemory.updatePcb, Function.update_self]
    rw [table]
    exact steady.safe_of (n := k) (steady.trans before first') unused
  obtain ⟨fourth, loaded, done⟩ := Outcome.bind_eq_ok.mp done
  have idle := steady.loadIdle (m := { third with live := insert boot.idle.pcb third.live })
    free loaded
  obtain ⟨fifth, made, done⟩ := Outcome.bind_eq_ok.mp done
  obtain ⟨sixth, allocated, made⟩ := Outcome.bind_eq_ok.mp made
  cases made
  obtain ⟨⟨status, seventh⟩, load, done⟩ := Outcome.bind_eq_ok.mp done
  dsimp only at done
  split at done
  · cases done
  obtain ⟨eighth, allocated', done⟩ := Outcome.bind_eq_ok.mp done
  obtain ⟨⟨_, last⟩, starter, done⟩ := Outcome.bind_eq_ok.mp done
  cases done
  refine ⟨third, sixth, seventh, _, spawned, steady.trans idle (steady.mallocOrElse allocated),
    fun _ => rfl, steady.loadProgram load, ?_⟩
  exact steady.trans (steady.mallocOrElse allocated') (steady.getStarterKernelState starter)

end SteadyHeap

end KernelMemory

end

end Yallnix

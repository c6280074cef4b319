import Yallnix.Construction.State

namespace Yallnix

/-- A cached translation holds the protection and the frame of one page. -/
structure Translation where
  prot : Prot
  pfn : Nat
  deriving DecidableEq, Repr

/-- A `struct pte *` points into one allocated table. -/
structure PtePtr where
  table : Addr
  index : Int
  deriving DecidableEq, Repr

def PtePtr.next (ptep : PtePtr) : PtePtr := ⟨ptep.table, ptep.index + 1⟩

def PtePtr.previous (ptep : PtePtr) : PtePtr := ⟨ptep.table, ptep.index - 1⟩

/-- The memory management unit sees the tables that its registers name. -/
structure Mmu where
  /-- These tables stand at the addresses that `malloc` gave them. -/
  tables : Addr → PageTable
  regVmEnable : Bool
  regPtbr0 : Addr
  regPtbr1 : Addr
  /-- The TLB may hold a translation for each page number. -/
  tlb : Nat → Option Translation
  /-- The hardware caches these pages before its next accesses. -/
  fills : List (List Nat)
  /-- This ghost list records each entry that the kernel wrote, newest first. -/
  written : List PtePtr

namespace Mmu

section
variable [Hardware]

/-- The registers select the entry of a page. -/
def entryOf (mmu : Mmu) (vpn : Nat) : Option Pte :=
  if vpn < maxPtLen then (mmu.tables mmu.regPtbr0)[vpn]?
  else if vpn < 2 * maxPtLen then (mmu.tables mmu.regPtbr1)[vpn - maxPtLen]?
  else none

/-- The hardware caches the translation of a valid entry only. -/
def cache (mmu : Mmu) (vpn : Nat) : Mmu :=
  match mmu.entryOf vpn with
  | none => mmu
  | some pte =>
      if pte.valid then
        { mmu with tlb := Function.update mmu.tlb vpn (some ⟨pte.prot, pte.pfn⟩) }
      else mmu

/-- The hardware may fill the TLB before every access once virtual memory is enabled. -/
def tick (mmu : Mmu) : Mmu :=
  match mmu.fills with
  | [] => mmu
  | vpns :: fills =>
      let mmu := { mmu with fills := fills }
      if mmu.regVmEnable then vpns.foldl cache mmu else mmu

/-- The kernel writes one field of an entry. -/
def writeField (ptep : PtePtr) (field : Pte → Pte) (mmu : Mmu) : Outcome Mmu := do
  let mmu := mmu.tick
  let pte ← readEntry (mmu.tables ptep.table) ptep.index
  let table ← Yallnix.setPageTableEntry (mmu.tables ptep.table) ptep.index (field pte)
  return { mmu with tables := Function.update mmu.tables ptep.table table }

/-- `getVirtualAddr` finds the page of an entry from the tables in the registers. -/
def getVirtualAddr (ptep : PtePtr) (mmu : Mmu) : Option Nat :=
  if ptep.table = mmu.regPtbr0 ∧ 0 ≤ ptep.index ∧ ptep.index < maxPtLen then
    some (ptep.index.toNat * pageSize)
  else if ptep.table = mmu.regPtbr1 ∧ 0 ≤ ptep.index ∧ ptep.index < maxPtLen then
    some ((ptep.index.toNat + maxPtLen) * pageSize)
  else none

/-- A write of an address to `REG_TLB_FLUSH` evicts the page of the address. -/
def flushPage (addr : Nat) (mmu : Mmu) : Mmu :=
  let mmu := mmu.tick
  { mmu with tlb := Function.update mmu.tlb (addr / pageSize) none }

/-- `TLB_FLUSH_1` evicts all pages of region 1. -/
def flushRegion1 (mmu : Mmu) : Mmu :=
  let mmu := mmu.tick
  { mmu with tlb := fun vpn => if vpn < maxPtLen then mmu.tlb vpn else none }

def writePtbr1 (table : Addr) (mmu : Mmu) : Mmu :=
  { mmu.tick with regPtbr1 := table }

def setPageTableEntryNoFlush (ptep : PtePtr) (pte : Pte) (mmu : Mmu) : Outcome Mmu := do
  let mmu ← mmu.writeField ptep fun old => { old with valid := pte.valid }
  let mmu ← mmu.writeField ptep fun old => { old with prot := pte.prot }
  let mmu ← mmu.writeField ptep fun old => { old with pfn := pte.pfn }
  return { mmu with written := ptep :: mmu.written }

/-- `setPageTableEntry` halts when no register names the table of the entry. -/
def setPageTableEntry (ptep : PtePtr) (pte : Pte) (mmu : Mmu) : Outcome Mmu := do
  let mmu ← mmu.setPageTableEntryNoFlush ptep pte
  match mmu.getVirtualAddr ptep with
  | none => .error .halt
  | some virtualAddr => return mmu.flushPage virtualAddr

/-- `invalidatePageTableEntry` clears the valid bit before it flushes. -/
def invalidatePageTableEntry (ptep : PtePtr) (mmu : Mmu) : Outcome Mmu := do
  let mmu ← mmu.writeField ptep fun old => { old with valid := false }
  let mmu := { mmu with written := ptep :: mmu.written }
  if mmu.regVmEnable then
    match mmu.getVirtualAddr ptep with
    | none => .error .halt
    | some virtualAddr => return mmu.flushPage virtualAddr
  else return mmu

end

end Mmu

end Yallnix

import Yallnix.Construction.Hardware
import Yallnix.Construction.FrameList

namespace Yallnix

/-- The three protection bits of a page table entry. -/
structure Prot where
  read : Bool
  write : Bool
  exec : Bool
  deriving DecidableEq, Repr

def protNone : Prot := ⟨false, false, false⟩

def protRead : Prot := ⟨true, false, false⟩

def protReadWrite : Prot := ⟨true, true, false⟩

def protReadExec : Prot := ⟨true, false, true⟩

/-- `(have & want) == want` -/
def Prot.includes (held want : Prot) : Bool :=
  (held.read || !want.read) && (held.write || !want.write) && (held.exec || !want.exec)

structure Pte where
  valid : Bool
  prot : Prot
  pfn : Nat
  deriving DecidableEq, Repr

abbrev PageTable := List Pte

section
variable [Hardware]

def initializeRegionPageTable : PageTable :=
  List.replicate maxPtLen ⟨false, protNone, 0⟩

end

/-- A read outside the table is undefined. -/
def readEntry (table : PageTable) (index : Int) : Outcome Pte :=
  if 0 ≤ index then
    match table[index.toNat]? with
    | some pte => .ok pte
    | none => .error .fault
  else .error .fault

/-- `setPageTableEntry` writes all fields of one entry. -/
def setPageTableEntry (table : PageTable) (index : Int) (pte : Pte) : Outcome PageTable :=
  if 0 ≤ index ∧ index < table.length then .ok (table.set index.toNat pte) else .error .fault

/-- `invalidatePageTableEntry` clears only the valid bit. -/
def invalidatePageTableEntry (table : PageTable) (index : Int) : Outcome PageTable := do
  let pte ← readEntry table index
  setPageTableEntry table index { pte with valid := false }

section
variable [Hardware]

def getAddressRegion (addr : Nat) : Int :=
  if vmem1Base ≤ addr ∧ addr < vmem1Limit then 1
  else if addr < vmem1Base then 0
  else -1

/-- `getAddressProt` reads the protection of a region 1 page whatever its valid bit says. -/
def getAddressProt (r1PageTable : PageTable) (addr : Nat) : Outcome Prot := do
  let pte ← readEntry r1PageTable ((addr / pageSize : Nat) - userBaseVpn)
  return pte.prot

end

/-- The growth loops map `count` pages upwards and stop at the first missing frame. -/
def mapPages (prot : Prot) : Nat → Int → PageTable × FrameList →
    Outcome (Bool × PageTable × FrameList)
  | 0, _, memory => .ok (true, memory)
  | count + 1, index, (table, frames) =>
      match getFrame frames with
      | (none, frames) => .ok (false, table, frames)
      | (some pfn, frames) => do
          let table ← setPageTableEntry table index ⟨true, prot, pfn⟩
          mapPages prot count (index + 1) (table, frames)

/-- The shrink loop frees the frame of every entry whatever its valid bit says. -/
def unmapPages : Nat → Int → PageTable × FrameList → Outcome (PageTable × FrameList)
  | 0, _, memory => .ok memory
  | count + 1, index, (table, frames) => do
      let pte ← readEntry table index
      let frames := freeFrame frames pte.pfn
      let table ← invalidatePageTableEntry table index
      unmapPages count (index + 1) (table, frames)

/-- The loop of `handleTrapMemory` maps the invalid pages downwards. -/
def growStack : Nat → Int → PageTable × FrameList → Outcome (Bool × PageTable × FrameList)
  | 0, _, memory => .ok (true, memory)
  | count + 1, index, (table, frames) => do
      let pte ← readEntry table index
      if pte.valid then growStack count (index - 1) (table, frames)
      else
        match getFrame frames with
        | (none, frames) => .ok (false, table, frames)
        | (some pfn, frames) => do
            let table ← setPageTableEntry table index ⟨true, protReadWrite, pfn⟩
            growStack count (index - 1) (table, frames)

/-- `delete_process` frees the frames of the valid entries. -/
def freeValidFrames (table : PageTable) (frames : FrameList) : FrameList :=
  table.foldl (fun frames pte => if pte.valid then freeFrame frames pte.pfn else frames) frames

/-- `LoadProgram` also invalidates the entries that it frees. -/
def freeValidPages (table : PageTable) (frames : FrameList) : PageTable × FrameList :=
  (table.map fun pte => { pte with valid := false }, freeValidFrames table frames)

end Yallnix

import Yallnix.Construction.Scheduler

namespace Yallnix

section
variable [Hardware]

/-- A page count that an `int` computes below zero makes a loop run zero times. -/
def loadText (li : LoadInfo) : Int := ((li.tVaddr : Int) - vmem1Base) / pageSize

def loadData (li : LoadInfo) : Int := ((li.idVaddr : Int) - vmem1Base) / pageSize

/-- The new stack pointer lies below the arguments, the argument vector and the first frame. -/
def loadStackPointer (argLengths : List Nat) : Int :=
  let size : Nat := (argLengths.map (· + 1)).sum
  let cp : Int := vmem1Limit - size
  let cpp := cp - (argLengths.length + 3 + postArgvNullSpace) * 4
  cpp - cpp % 8 - initialStackFrameSize

def loadStackPages (argLengths : List Nat) : Int :=
  let cp2 := loadStackPointer argLengths
  ((vmem1Limit : Int) - cp2 / pageSize * pageSize) / pageSize

/-- The last loop of `LoadProgram` makes the text pages readable and executable. -/
def protectText : Nat → Int → PageTable → Outcome PageTable
  | 0, _, table => .ok table
  | count + 1, index, table => do
      let pte ← readEntry table index
      let table ← setPageTableEntry table index { pte with prot := protReadExec }
      protectText count (index + 1) table

/-- After its last check `LoadProgram` either loads the program or returns KILL. -/
def loadImage (li : LoadInfo) (request : ExecRequest) (proc : PCB) (frames : FrameList) :
    Outcome (Int × PCB × FrameList) := do
  let dataNpg := li.idNpg + li.udNpg
  let stackNpg := loadStackPages request.argLengths
  let cp2 := loadStackPointer request.argLengths
  let proc := { proc with uctxt := { proc.uctxt with sp := cp2, ebp := cp2 } }
  if !request.argbuf then return (killCode, proc, frames)
  let memory := freeValidPages proc.r1PageTable frames
  let (mapped, table, frames) ← mapPages protReadWrite li.tNpg (loadText li) memory
  let proc := { proc with r1PageTable := table }
  if !mapped then return (killCode, proc, frames)
  let (mapped, table, frames) ← mapPages protReadWrite dataNpg (loadData li) (table, frames)
  let proc := { proc with r1PageTable := table }
  if !mapped then return (killCode, proc, frames)
  let proc := { proc with brk := vmem1Base + (dataNpg + li.tNpg) * pageSize }
  let (mapped, table, frames) ←
    mapPages protReadWrite stackNpg.toNat (maxPtLen - stackNpg) (table, frames)
  let proc := { proc with r1PageTable := table }
  if !mapped then return (killCode, proc, frames)
  if !request.textRead || !request.dataRead then return (killCode, proc, frames)
  let table ← protectText li.tNpg (loadText li) table
  return (successCode, { proc with
    r1PageTable := table
    uctxt := { proc.uctxt with pc := li.entry } }, frames)

/-- The checks of `LoadProgram` come before any change. -/
def loadProgram (request : ExecRequest) (proc : PCB) (frames : FrameList) :
    Outcome (Int × PCB × FrameList) :=
  match request.file with
  | none => .ok (errorCode, proc, frames)
  | some li =>
      if li.entry < vmem1Base then .ok (errorCode, proc, frames)
      else if maxPtLen ≤ loadStackPages request.argLengths + loadData li + (li.idNpg + li.udNpg) then
        .ok (errorCode, proc, frames)
      else loadImage li request proc frames

/-- `LoadIdle` maps only the top page of region 1. -/
def loadIdle (idlePCB : PCB) (frames : FrameList) : Outcome (Int × PCB × FrameList) :=
  match getFrame frames with
  | (none, frames) => .ok (errorCode, idlePCB, frames)
  | (some pfn, frames) => do
      let table ← setPageTableEntry idlePCB.r1PageTable (maxPtLen - 1) ⟨true, protReadWrite, pfn⟩
      let cp2 := loadStackPointer []
      return (successCode, { idlePCB with
        r1PageTable := table
        uctxt := { idlePCB.uctxt with sp := cp2, ebp := cp2 } }, frames)

end

end Yallnix

import Yallnix.Construction.SyncKernelCalls

namespace Yallnix

section
variable [Hardware]

/-- `TTY_READ_BUFFER_SIZE` -/
def ttyReadBufferSize : Nat := pageSize / numTerminals

/-- A terminal number outside the arrays is undefined. -/
def ttyIndex (ttyId : Int) : Outcome (Fin numTerminals) :=
  if inside : 0 ≤ ttyId ∧ ttyId < numTerminals then .ok ⟨ttyId.toNat, by omega⟩
  else .error .fault

/-- The batches of `KernelTtyWrite` go out one by one, and each one waits for its interrupt. -/
def transmitLoop (tty : Fin numTerminals) (call : Call) (r0Buf : List Byte)
    (bytesTransmitted : Nat) (s : Scheduler) : Flow Scheduler :=
  if bytesTransmitted < r0Buf.length then
    let batchSize := min terminalMaxLine (r0Buf.length - bytesTransmitted)
    let s := { s with transmitting := Function.update s.transmitting tty true }
    let s := s.record
      (.transmitted tty s.curr.pid ((r0Buf.drop bytesTransmitted).take batchSize))
    let next := Pos.ttyBatch tty call r0Buf (bytesTransmitted + batchSize)
    match waitTransmitter next tty s with
    | .ret s _ => .go { s with cpu := next }
    | .go s => .go s
  else .ret (unblockTransmitter tty s) r0Buf.length

/-- A writer goes back to the queue while the terminal has a transmitter. -/
def ttyWriteLoop (tty : Fin numTerminals) (call : Call) (r0Buf : List Byte) (s : Scheduler) :
    Flow Scheduler :=
  if isTtyTransmitAvailable tty s then transmitLoop tty call r0Buf 0 s
  else
    match blockTransmitter (.ttyWrite tty call r0Buf) tty s with
    | .ret s _ => .go { s with cpu := .ttyWrite tty call r0Buf }
    | .go s => .go s

/-- Entries behind the table come from the oracle. -/
def r1Memory (oracle : Oracle) (s : Scheduler) (index : Nat) : Pte :=
  s.curr.r1PageTable.getD index (oracle.pastTable index)

def kernelTtyWrite (oracle : Oracle) (ttyId : Int) (buf : Nat) (len : Int) (bytes : List Byte)
    (s : Scheduler) : Outcome (Flow Scheduler) := do
  if buf < vmem1Base then return .ret s errorCode
  if len < 0 then return .ret s errorCode
  if len = 0 then return .ret s successCode
  if !isValidBuffer (fun index => s.r0PageTable.getD index (oracle.pastTable index))
      (r1Memory oracle s) buf len ⟨true, false, false⟩ then return .ret s errorCode
  let tty ← ttyIndex ttyId
  return ttyWriteLoop tty (.ttyWrite ttyId buf len bytes) bytes s

def Kernel.setBuffer (s : Kernel) (tty : Fin numTerminals) (buffer : TtyBuf) : Kernel :=
  { s with buffers := Function.update s.buffers tty buffer }

/-- `writeBuffer` overwrites unread bytes, and `none` is an EOF. -/
def writeBuffer (tty : Fin numTerminals) (line : Option (List Byte)) (s : Kernel) :
    Outcome Kernel := do
  let ttyBuf := s.buffers tty
  match line with
  | some bytes =>
      let base ← memmove ttyBuf.base 0 bytes
      let s := s.setBuffer tty ⟨base, bytes.length, true⟩
      return s.withScheduler (unblockReader tty s.toScheduler)
  | none => return s.setBuffer tty { ttyBuf with numBytesWritten := 0, isLineReady := false }

/-- `readBuffer` blocks while no line is ready and copies at most `len` bytes. -/
def readBufferLoop (tty : Fin numTerminals) (call : Call) (len : Int) (s : Kernel) :
    Outcome (Flow Kernel) := do
  let ttyBuf := s.buffers tty
  if !ttyBuf.isLineReady then
    return (blockReader (.ttyRead tty call len) tty s.toScheduler).map s.withScheduler
  else if len < ttyBuf.numBytesWritten then
    let bytes ← readBytes ttyBuf.base 0 len
    let numRemainingBytes := ttyBuf.numBytesWritten - len
    let rest ← readBytes ttyBuf.base len numRemainingBytes
    let base ← memmove ttyBuf.base 0 rest
    let s := s.setBuffer tty { ttyBuf with base := base, numBytesWritten := numRemainingBytes }
    let s := s.withScheduler (s.record (.received tty s.curr.pid bytes))
    return .ret (s.withScheduler (unblockReader tty s.toScheduler)) len
  else
    let bytes ← readBytes ttyBuf.base 0 ttyBuf.numBytesWritten
    let s := s.setBuffer tty { ttyBuf with numBytesWritten := 0, isLineReady := false }
    let s := s.withScheduler (s.record (.received tty s.curr.pid bytes))
    return .ret s ttyBuf.numBytesWritten

def kernelTtyRead (oracle : Oracle) (ttyId : Int) (buf : Nat) (len : Int) (s : Kernel) :
    Outcome (Flow Kernel) := do
  if buf < vmem1Base then return .ret s errorCode
  if len < 0 then return .ret s errorCode
  if len = 0 then return .ret s successCode
  if !isValidBuffer (fun index => s.r0PageTable.getD index (oracle.pastTable index))
      (r1Memory oracle s.toScheduler) buf len ⟨false, true, false⟩ then return .ret s errorCode
  let tty ← ttyIndex ttyId
  readBufferLoop tty (.ttyRead ttyId buf len) len s

end

end Yallnix

import Yallnix.ToMathlib.Outcome
import Mathlib.Algebra.Ring.Int.Defs
import Mathlib.Algebra.Ring.Nat

namespace Yallnix

/-- The machine fixes these constants of `hardware.h` and of the loader header. -/
class Hardware where
  pageShift : Nat
  maxPtLen : Nat
  kernelStackPages : Nat
  numTerminals : Nat
  terminalMaxLine : Nat
  postArgvNullSpace : Nat
  initialStackFrameSize : Nat
  maxPtLenPositive : 0 < maxPtLen
  terminalMaxLinePositive : 0 < terminalMaxLine
  /-- Every address and every line length is an `int`. -/
  intRange : 2 * maxPtLen * 2 ^ pageShift + terminalMaxLine < 2 ^ 31

export Hardware (pageShift maxPtLen kernelStackPages numTerminals terminalMaxLine
  postArgvNullSpace initialStackFrameSize)

section
variable [Hardware]

/-- `PAGESIZE` -/
def pageSize : Nat := 2 ^ pageShift

/-- Region 1 starts where the `MAX_PT_LEN` pages of region 0 end. -/
def vmem1Base : Nat := maxPtLen * pageSize

def vmem1Limit : Nat := 2 * maxPtLen * pageSize

/-- `USER_BASE_VPN` -/
def userBaseVpn : Nat := vmem1Base / pageSize

/-- `DOWN_TO_PAGE` -/
def downToPage (addr : Nat) : Nat := addr / pageSize * pageSize

/-- `PIPE_MAX_BYTES` -/
def pipeMaxBytes : Nat := terminalMaxLine / 2

theorem pageSize_pos : 0 < pageSize := Nat.two_pow_pos _

@[simp] theorem userBaseVpn_eq : userBaseVpn = maxPtLen := by
  simp [userBaseVpn, vmem1Base, pageSize_pos]

end

/-- `ERROR` -/
def errorCode : Int := -1

/-- `SUCCESS` -/
def successCode : Int := 0

/-- `KILL` asks the caller of `LoadProgram` to end the process. -/
def killCode : Int := 42

@[simp] theorem errorCode_ne_successCode : errorCode ≠ successCode := by decide

/-- An `int` sum keeps the low 32 bits. -/
def wrapInt (value : Int) : Int := (value + 2 ^ 31) % 2 ^ 32 - 2 ^ 31

theorem wrapInt_of_range {value : Int} (low : -2 ^ 31 ≤ value) (high : value < 2 ^ 31) :
    wrapInt value = value := by
  unfold wrapInt
  omega

end Yallnix

import Yallnix.Construction.ArgumentBlock
import Yallnix.Construction.SmallMachine
import Yallnix.Proof.StringCheck

namespace Yallnix

open ByteMemory

section
variable [Hardware]

variable {r0 r1 : Nat → Pte} {memory : ByteMemory} {argv : List (List UInt8)}

end

section
attribute [local instance] smallHardware

end

end Yallnix

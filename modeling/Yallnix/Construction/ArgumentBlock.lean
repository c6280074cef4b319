import Yallnix.ToMathlib.ByteMemory
import Yallnix.Construction.GeneralKernelCalls

namespace Yallnix

open ByteMemory

section
variable [Hardware]

end

end Yallnix

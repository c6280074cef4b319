import Yallnix.ToMathlib.OutcomeStops
import Yallnix.Proof.DelayTick
import Yallnix.Proof.ReadyQueue

namespace Yallnix

open Outcome (Avoids)

section
variable {A : Type} {hm : HashMap A} {key : Int} {item : A}

end

section
variable {table : PageTable} {index : Int} {pte : Pte} {prot : Prot} {count : Nat}
  {memory : PageTable × FrameList}

end

section
variable [Hardware]

section
variable {s : Scheduler} {frames : FrameList} {request : ExecRequest} {proc : PCB} {addr : Nat}

end

section
variable {s : Kernel} {call : Call} {id len : Int} {object : ObjPtr} {bytes : List Byte}

end

section
variable {s : Kernel} {i : Input} {oracle : Oracle} {tty : Fin numTerminals} {call : Call}
  {ttyId len : Int} {buf : Nat} {bytes : List Byte}

end

end

section
attribute [local instance] smallHardware

end

end Yallnix

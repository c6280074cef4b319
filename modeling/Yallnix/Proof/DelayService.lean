import Mathlib.Data.Finset.Card
import Yallnix.Proof.ReadyOrder

namespace Yallnix

section
variable [Hardware]

end

section
attribute [local instance] smallHardware

end

end Yallnix

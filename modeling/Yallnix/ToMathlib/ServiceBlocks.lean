import Mathlib.Data.List.Basic
import Mathlib.Logic.Function.Basic

namespace Yallnix

/-- A caller asks to have a payload served, gets pieces served and is done. -/
inductive BlockNote (C P X : Type) where
  | called (caller : C) (payload : P)
  | piece (caller : C) (part : X)
  | done (caller : C) (payload : P)

/-- One call and the pieces that were served for it. -/
structure Block (C P X : Type) where
  caller : C
  payload : P
  pieces : List X

section
variable {C P X : Type}

def BlockNote.caller : BlockNote C P X → C
  | .called caller _ | .piece caller _ | .done caller _ => caller

def BlockNote.isService : BlockNote C P X → Bool
  | .called .. => false
  | .piece .. | .done .. => true

/-- The service of a block up to now. -/
def Block.begun (block : Block C P X) : List (BlockNote C P X) :=
  block.pieces.map (.piece block.caller)

/-- The service of a block from its first piece to its end. -/
def Block.whole (block : Block C P X) : List (BlockNote C P X) :=
  block.begun ++ [.done block.caller block.payload]

variable [DecidableEq C]

/-- The calls of one caller are served one by one, each one after it was made. -/
def callerBlocks (blocks : List (Block C P X)) (current : Option (Block C P X))
    (waiting : C → Option P) (caller : C) : List (BlockNote C P X) :=
  ((blocks.filter (·.caller = caller)).flatMap fun block =>
      .called caller block.payload :: block.whole) ++
    ((current.toList.filter (·.caller = caller)).flatMap fun block =>
      .called caller block.payload :: block.begun) ++
    (waiting caller).toList.map (.called caller)

/-- The service is a concatenation of whole blocks and of the begun one, and each block belongs to
one call of its caller. The newest note comes first. -/
structure ServesBlocks (notes : List (BlockNote C P X)) (blocks : List (Block C P X))
    (current : Option (Block C P X)) (waiting : C → Option P) : Prop where
  service : notes.reverse.filter BlockNote.isService =
    blocks.flatMap Block.whole ++ current.toList.flatMap Block.begun
  calls : ∀ caller, notes.reverse.filter (·.caller = caller) =
    callerBlocks blocks current waiting caller
  single : ∀ block ∈ current, waiting block.caller = none

variable {notes : List (BlockNote C P X)} {blocks : List (Block C P X)}
  {current : Option (Block C P X)} {waiting : C → Option P} {caller : C} {payload : P}

theorem ServesBlocks.nil : ServesBlocks ([] : List (BlockNote C P X)) [] none fun _ => none :=
  ⟨rfl, fun _ => rfl, nofun⟩

/-- A caller makes a new call. -/
theorem ServesBlocks.call (serves : ServesBlocks notes blocks current waiting)
    (idle : waiting caller = none) (other : ∀ block ∈ current, block.caller ≠ caller)
    (payload : P) :
    ServesBlocks (.called caller payload :: notes) blocks current
      (Function.update waiting caller (some payload)) where
  service := by
    rw [List.reverse_cons, List.filter_append, serves.service]
    simp [BlockNote.isService]
  calls c := by
    rw [List.reverse_cons, List.filter_append, serves.calls c, callerBlocks, callerBlocks]
    by_cases same : caller = c
    · subst same
      simp [BlockNote.caller, idle]
    · simp [BlockNote.caller, same, Function.update_of_ne (Ne.symm same)]
  single block member := by
    rw [Function.update_of_ne (other block member)]
    exact serves.single block member

/-- The service of a waiting call begins. -/
theorem ServesBlocks.begin (serves : ServesBlocks notes blocks none waiting)
    (waits : waiting caller = some payload) :
    ServesBlocks notes blocks (some ⟨caller, payload, []⟩)
      (Function.update waiting caller none) where
  service := by
    rw [serves.service]
    simp [Block.begun]
  calls c := by
    rw [serves.calls c, callerBlocks, callerBlocks]
    by_cases same : caller = c
    · subst same
      simp [Block.begun, waits]
    · simp [same, Function.update_of_ne (Ne.symm same)]
  single block member := by
    cases member
    exact Function.update_self _ _ _

/-- One more piece of the begun block is served. -/
theorem ServesBlocks.serve {block : Block C P X}
    (serves : ServesBlocks notes blocks (some block) waiting) (part : X) :
    ServesBlocks (.piece block.caller part :: notes) blocks
      (some { block with pieces := block.pieces ++ [part] }) waiting where
  service := by
    rw [List.reverse_cons, List.filter_append, serves.service]
    simp [Block.begun, BlockNote.isService]
  calls c := by
    rw [List.reverse_cons, List.filter_append, serves.calls c, callerBlocks, callerBlocks]
    by_cases same : block.caller = c
    · subst same
      simp [Block.begun, BlockNote.caller, serves.single block rfl]
    · simp [BlockNote.caller, same]
  single other member := by
    cases member
    exact serves.single block rfl

/-- The begun block is whole. -/
theorem ServesBlocks.finish {block : Block C P X}
    (serves : ServesBlocks notes blocks (some block) waiting) :
    ServesBlocks (.done block.caller block.payload :: notes) (blocks ++ [block]) none waiting where
  service := by
    rw [List.reverse_cons, List.filter_append, serves.service]
    simp [Block.whole, BlockNote.isService]
  calls c := by
    rw [List.reverse_cons, List.filter_append, serves.calls c, callerBlocks, callerBlocks]
    by_cases same : block.caller = c
    · subst same
      simp [Block.whole, BlockNote.caller, serves.single block rfl]
    · simp [BlockNote.caller, same]
  single := nofun

end

end Yallnix

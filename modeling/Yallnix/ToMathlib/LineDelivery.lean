import Mathlib.Data.List.Basic

namespace Yallnix

/-- A line or an end of file arrives at a buffer, or a read takes bytes from it. -/
inductive LineNote (B : Type) where
  | arrived (line : Option (List B))
  | read (len : Nat) (bytes : List B)

namespace LineNote

variable {B : Type}

/-- The bytes of the reads after the last arrival, where the newest note comes first. -/
def delivered : List (LineNote B) → List B
  | .read _ bytes :: notes => delivered notes ++ bytes
  | _ => []

/-- The bytes of the last line that arrived. An end of file has no bytes. -/
def lastLine : List (LineNote B) → List B
  | .read .. :: notes => lastLine notes
  | .arrived line :: _ => line.getD []
  | [] => []

end LineNote

/-- A line buffer keeps the last line until reads of positive lengths have taken it. -/
inductive LineBuffer {B : Type} : List (LineNote B) → Option (List B) → Prop where
  | empty : LineBuffer [] none
  | arrive {notes : List (LineNote B)} {pending : Option (List B)}
      (earlier : LineBuffer notes pending) (line : Option (List B)) :
      LineBuffer (.arrived line :: notes) line
  | part {notes : List (LineNote B)} {line : List B} {len : Nat}
      (earlier : LineBuffer notes (some line)) (positive : 0 < len) (more : len < line.length) :
      LineBuffer (.read len (line.take len) :: notes) (some (line.drop len))
  | rest {notes : List (LineNote B)} {line : List B} {len : Nat}
      (earlier : LineBuffer notes (some line)) (fits : line.length ≤ len) :
      LineBuffer (.read len line :: notes) none

namespace LineBuffer

open LineNote

variable {B : Type} {notes older newer : List (LineNote B)} {pending : Option (List B)}
  {line bytes : List B} {len : Nat}

/-- The delivered bytes and the pending bytes are the last line. -/
theorem delivers (buffer : LineBuffer notes pending) :
    delivered notes ++ pending.getD [] = lastLine notes := by
  induction buffer with
  | empty => rfl
  | arrive _ line _ => rfl
  | @part notes line len _ _ _ ih =>
      change (delivered notes ++ line.take len) ++ line.drop len = lastLine notes
      rw [List.append_assoc, List.take_append_drop]
      exact ih
  | @rest notes line _ _ _ ih =>
      change (delivered notes ++ line) ++ [] = lastLine notes
      rw [List.append_nil]
      exact ih

/-- An older part of the notes is a history of the buffer too. -/
theorem suffix (buffer : LineBuffer (newer ++ older) pending) :
    ∃ before, LineBuffer older before := by
  induction newer generalizing pending with
  | nil => exact ⟨pending, buffer⟩
  | cons note newer ih =>
      cases buffer with
      | arrive earlier line => exact ih earlier
      | part earlier _ _ => exact ih earlier
      | rest earlier _ => exact ih earlier

end LineBuffer

end Yallnix

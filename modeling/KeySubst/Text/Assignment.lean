import KeySubst.Text.CharClass
import KeySubst.Text.Size

namespace KeySubst.Text

/-- Behind the target come white space, one `=`, and one more character that is not `=`. -/
def startsAssignment (rest : List Char) : Bool :=
  match rest.dropWhile isBlank with
  | '=' :: c :: _ => c ≠ '='
  | _ => false

/-- An offset inside of a character is behind no target. -/
def isAssignmentTarget (text : String) (offset : Nat) : Bool :=
  (dropBytes? offset text.toList).any startsAssignment

end KeySubst.Text

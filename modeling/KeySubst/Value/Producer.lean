import KeySubst.Json.Quoted
import Std.Data.HashMap

/-!
# Functions that produce text

A producer is called once for each occurrence of its key. It may fail, and it may keep state, also
when it fails; the state of all producers is handed from call to call.
-/

namespace KeySubst

abbrev Producer (σ : Type) := String → StateM σ (Except String String)

abbrev Calls := Std.HashMap Nat Nat

namespace Producer

variable {σ : Type}

def surrounding (before after : String) : Producer σ := fun name =>
  pure (.ok (before ++ name ++ after))

def failing (reason : String) : Producer σ := fun _ => pure (.error reason)

/-- The call with the number `failsAt` fails for the given reason and counts as the others do. -/
def numbering (slot : Nat) (before after : String) (failsAt : Option Nat) (reason : String) :
    Producer Calls := fun _ => do
  let number := (← get).getD slot 0 + 1
  modify (·.insert slot number)
  if failsAt = some number then pure (.error reason)
  else pure (.ok (before ++ toString number ++ after))

def quoted (p : Producer σ) : Producer σ := fun name => do
  return (← p name).map Json.quote

end Producer

end KeySubst

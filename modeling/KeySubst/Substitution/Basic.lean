import KeySubst.Matcher.Basic
import KeySubst.Substitution.Edit

/-!
# Substitution

Replacements are produced one after the other from left to right, and the first failure ends the
substitution.
-/

namespace KeySubst

structure Substitution where
  code : String
  map : Option PositionMap
  deriving DecidableEq, Repr

/-- A computation on the state of producers that can fail; the state outlives a failure. -/
abbrev Effect (σ : Type) := ExceptT Error (StateM σ)

def PositionMap.ofPieces (pieces : List Piece) (input : List Char) : PositionMap :=
  ⟨Piece.segments 0 pieces, Text.byteSize (pieces.flatMap Piece.text), Text.byteSize input⟩

def Substitution.ofPieces (pieces : List Piece) (input : List Char) (withMap : Bool) :
    Substitution :=
  { code := Piece.join pieces
    map := if withMap then some (.ofPieces pieces input) else none }

namespace Matcher

variable {σ : Type}

def produce (m : Matcher σ) (name : String) (found : Match) : Effect σ (Option Edit) := do
  match m.replacement? found.key with
  | none => return none
  | some r =>
    match ← (r.produce name : StateM σ _) with
    | .error reason => throw (.producerFailed found.key name reason)
    | .ok text => return some ⟨found.start, found.stop, text⟩

def edits (m : Matcher σ) (name : String) : List Match → Effect σ (List Edit)
  | [] => return []
  | found :: others => do
    let edit ← m.produce name found
    return edit.toList ++ (← edits m name others)

/-- There is no outcome if no key is found. -/
def substitute (m : Matcher σ) (text name : String) (withMap : Bool) :
    Effect σ (Option Substitution) := do
  let edits ← m.edits name (m.find text)
  if edits.isEmpty then return none
  match Piece.ofEdits? 0 text.toList edits with
  | none => throw .misplacedEdit
  | some pieces => return some (.ofPieces pieces text.toList withMap)

end Matcher

end KeySubst

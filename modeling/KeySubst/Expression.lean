import KeySubst.Pattern.Basic

/-!
# Regular expressions over bytes

The nesting of an expression is how many repetitions, groups, alternatives, sequences and sets are
inside of each other at most.
-/

namespace KeySubst

inductive Expression where
  | byte (b : UInt8)
  | anyByte
  | set (negated : Bool) (ranges : List (UInt8 × UInt8))
  | optional (e : Expression)
  | repeated (e : Expression)
  | group (branches : List (List Expression))

namespace Expression

def byteSource (b : UInt8) : String :=
  if b < 0x80 then Pattern.escape (Char.ofNat b.toNat).toString
  else "\\x" ++ String.ofList (Nat.toDigits 16 b.toNat)

def rangeSource (first last : UInt8) : String :=
  if first = last then byteSource first else byteSource first ++ "-" ++ byteSource last

mutual

def source : Expression → String
  | byte b => byteSource b
  | anyByte => "."
  | set negated ranges =>
    (if negated then "[^" else "[") ++
      String.join (ranges.map fun (first, last) => rangeSource first last) ++ "]"
  | optional e => e.source ++ "?"
  | repeated e => e.source ++ "*"
  | group branches => "(?:" ++ "|".intercalate (branchSources branches) ++ ")"

def sequenceSource : List Expression → String
  | [] => ""
  | e :: es => e.source ++ sequenceSource es

def branchSources : List (List Expression) → List String
  | [] => []
  | b :: bs => sequenceSource b :: branchSources bs

end

mutual

/-- A set of several ranges counts twice, as does a group of several branches. -/
def nesting : Expression → Nat
  | byte _ => 0
  | anyByte => 0
  | set _ ranges => if 1 < ranges.length then 2 else 1
  | optional e => e.nesting + 1
  | repeated e => e.nesting + 1
  | group branches => branchNesting branches + if 1 < branches.length then 2 else 1

def pieceNesting : List Expression → Nat
  | [] => 0
  | e :: es => max e.nesting (pieceNesting es)

/-- The greatest nesting of some sequences. One piece alone makes no sequence. -/
def branchNesting : List (List Expression) → Nat
  | [] => 0
  | b :: bs => max (pieceNesting b + if 1 < b.length then 1 else 0) (branchNesting bs)

end

end Expression

end KeySubst

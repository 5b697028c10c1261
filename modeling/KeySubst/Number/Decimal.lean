/-!
# Decimal numbers and their text

A decimal is written positionally, without an exponent and without zeros that say nothing, or with
one digit before the point and an exponent.
-/

namespace KeySubst

structure Decimal where
  digits : Nat
  exponent : Int
  deriving DecidableEq, Repr

namespace Decimal

def normal (d : Decimal) : Decimal := go d.digits d.exponent
where
  go (digits : Nat) (exponent : Int) : Decimal :=
    if 0 < digits ∧ digits % 10 = 0 then go (digits / 10) (exponent + 1) else ⟨digits, exponent⟩
  termination_by digits
  decreasing_by omega

def figures (d : Decimal) : List Char := Nat.toDigits 10 d.digits

def positional (d : Decimal) : String :=
  let d := d.normal
  let figures := d.figures
  match d.exponent with
  | .ofNat zeros =>
    String.ofList (if d.digits = 0 then ['0'] else figures ++ List.replicate zeros '0')
  | .negSucc n =>
    let places := n + 1
    let padded := List.replicate (places + 1 - figures.length) '0' ++ figures
    let whole := padded.length - places
    String.ofList (padded.take whole ++ '.' :: padded.drop whole)

def scientific (d : Decimal) : String :=
  let d := d.normal
  match d.figures with
  | [] => "0e0"
  | [first] => String.ofList [first] ++ "e" ++ toString d.exponent
  | first :: others =>
    String.ofList (first :: '.' :: others) ++ "e" ++ toString (d.exponent + others.length)

end Decimal

end KeySubst

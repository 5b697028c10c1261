import KeySubst.Number.Decimal

/-!
# Binary floating-point numbers of 64 bits

Decimals are rounded to the nearest number, a tie going to the even one, and a number is written
with the fewest decimal digits that lie nearer to it than to any other.
-/

namespace KeySubst

structure Binary64 where
  bits : UInt64
  deriving DecidableEq, Repr

namespace Binary64

inductive Meaning where
  | nan
  | infinite (negative : Bool)
  | finite (negative : Bool) (mantissa : Nat) (exponent : Int)
  deriving DecidableEq, Repr

def meaning (x : Binary64) : Meaning :=
  let n := x.bits.toNat
  let negative := decide (Nat.pow 2 63 ≤ n)
  let biased : Nat := n / Nat.pow 2 52 % Nat.pow 2 11
  let fraction : Nat := n % Nat.pow 2 52
  if biased = 2047 then if fraction = 0 then .infinite negative else .nan
  else if biased = 0 then .finite negative fraction (-1074)
  else .finite negative (fraction + Nat.pow 2 52) (biased - 1075)

def isFinite (x : Binary64) : Bool := x.meaning matches .finite ..

def ofMagnitude (negative : Bool) (magnitude : Nat) : Binary64 :=
  ⟨UInt64.ofNat (magnitude + if negative then Nat.pow 2 63 else 0)⟩

def infinity (negative : Bool) : Binary64 := ofMagnitude negative (2047 * Nat.pow 2 52)

def nan (negative : Bool) : Binary64 := ofMagnitude negative (2047 * Nat.pow 2 52 + Nat.pow 2 51)

def roundHalfEven (num den : Nat) : Nat :=
  let floor := num / den
  let double := 2 * (num % den)
  if double < den then floor
  else if den < double then floor + 1
  else floor + floor % 2

def scaleByTwo (num den : Nat) : (shift : Int) → Nat × Nat
  | .ofNat n => (num * Nat.pow 2 n, den)
  | .negSucc n => (num, den * Nat.pow 2 (n + 1))

/-- The unit of the last place is chosen so that the rounded mantissa has fifty-three bits, and is
at least `2 ^ -1074`; too large a fraction gives an infinity. -/
def ofRatio (negative : Bool) (num den : Nat) : Binary64 :=
  if num = 0 then ofMagnitude negative 0
  else
    let size : Int := (num.log2 : Int) - den.log2
    let (n, d) := scaleByTwo num den (-size)
    let unit : Int := max (if n < d then size - 53 else size - 52) (-1074)
    let (n, d) := scaleByTwo num den (-unit)
    let magnitude := (unit + 1074).toNat * Nat.pow 2 52 + roundHalfEven n d
    if 2047 * Nat.pow 2 52 ≤ magnitude then infinity negative else ofMagnitude negative magnitude

/-- Decimals far outside of the range are settled by their size, so that no power of ten is larger
than the range asks for. -/
def ofDecimal (negative : Bool) (d : Decimal) : Binary64 :=
  if d.digits = 0 then ofMagnitude negative 0
  else if 400 < d.exponent then infinity negative
  else if d.exponent + d.digits.log2 < -400 then ofMagnitude negative 0
  else
    match d.exponent with
    | .ofNat n => ofRatio negative (d.digits * Nat.pow 10 n) 1
    | .negSucc n => ofRatio negative d.digits (Nat.pow 10 (n + 1))

/-! ### Shortest decimals -/

structure Neighbourhood where
  low : Nat
  value : Nat
  high : Nat
  den : Nat
  closed : Bool

/-- Below a power of two the numbers lie twice as close as above it. -/
def neighbourhood (mantissa : Nat) (exponent : Int) : Neighbourhood :=
  let below := if mantissa = Nat.pow 2 52 ∧ -1074 < exponent then 1 else 2
  let scale := fun n => scaleByTwo n 1 (exponent - 2)
  { low := (scale (4 * mantissa - below)).1
    value := (scale (4 * mantissa)).1
    high := (scale (4 * mantissa + 2)).1
    den := (scale 1).2
    closed := mantissa % 2 = 0 }

namespace Neighbourhood

def holds (b : Neighbourhood) (n : Nat) : Bool :=
  if b.closed then b.low ≤ n && n ≤ b.high else b.low < n && n < b.high

def inUnits (b : Neighbourhood) : (exponent : Int) → Neighbourhood
  | .ofNat n => { b with den := b.den * Nat.pow 10 n }
  | .negSucc n =>
    let scale := Nat.pow 10 (n + 1)
    { b with low := b.low * scale, value := b.value * scale, high := b.high * scale }

/-- The nearest of those that round to the number; a tie goes up. -/
def nearest? (b : Neighbourhood) (exponent : Int) : Option Decimal :=
  let b := b.inUnits exponent
  let down := b.value / b.den
  let nearerDown := 2 * b.value < (2 * down + 1) * b.den
  match b.holds (down * b.den), b.holds ((down + 1) * b.den) with
  | true, true => some ⟨if nearerDown then down else down + 1, exponent⟩
  | true, false => some ⟨down, exponent⟩
  | false, true => some ⟨down + 1, exponent⟩
  | false, false => none

def leading (b : Neighbourhood) : Int :=
  let guess : Int := ((Nat.toDigits 10 b.value).length : Int) - (Nat.toDigits 10 b.den).length
  let units := b.inUnits guess
  if units.value < units.den then guess - 1 else guess

def shortest (b : Neighbourhood) : Decimal :=
  let leading := b.leading
  ((List.range 17).findSome? fun n : Nat => b.nearest? (leading - n)).getD ⟨0, 0⟩

end Neighbourhood

def shortest (mantissa : Nat) (exponent : Int) : Decimal :=
  if mantissa = 0 then ⟨0, 0⟩ else (neighbourhood mantissa exponent).shortest.normal

def signText (negative : Bool) : String := if negative then "-" else ""

def text (x : Binary64) : String :=
  match x.meaning with
  | .nan => "NaN"
  | .infinite negative => signText negative ++ "Infinity"
  | .finite negative m e => signText negative ++ (shortest m e).positional

/-- Whole numbers end in `.0`, and numbers below `10 ^ -4` or from `10 ^ 16` on have an exponent. -/
def inspect (x : Binary64) : String :=
  match x.meaning with
  | .nan => "NaN"
  | .infinite negative => signText negative ++ "inf"
  | .finite negative m e =>
    let d := shortest m e
    let leading := d.exponent + d.figures.length - 1
    let body :=
      if d.digits ≠ 0 ∧ (leading < -4 ∨ 16 ≤ leading) then d.scientific
      else if 0 ≤ d.exponent then d.positional ++ ".0" else d.positional
    signText negative ++ body

def readMantissa? (cs : List Char) : Option Decimal :=
  let whole := cs.takeWhile Char.isDigit
  let fraction := match cs.dropWhile Char.isDigit with
    | [] => some []
    | '.' :: fraction => if fraction.all Char.isDigit then some fraction else none
    | _ => none
  fraction.bind fun fraction =>
    if whole.isEmpty && fraction.isEmpty then none
    else some ⟨Nat.ofDigitChars 10 (whole ++ fraction) 0, -fraction.length⟩

def readExponent? (cs : List Char) : Option Int :=
  let (negative, digits) := match cs with
    | '-' :: cs => (true, cs)
    | '+' :: cs => (false, cs)
    | cs => (false, cs)
  if digits.isEmpty || !digits.all Char.isDigit then none
  else
    let n := Nat.ofDigitChars 10 digits 0
    some (if negative then -n else n)

def readDecimal? (cs : List Char) : Option Decimal := do
  let isMark := fun c => c = 'e' || c = 'E'
  let mantissa ← readMantissa? (cs.takeWhile fun c => !isMark c)
  match cs.dropWhile fun c => !isMark c with
  | [] => pure mantissa
  | _ :: exponent =>
    pure { mantissa with exponent := mantissa.exponent + (← readExponent? exponent) }

def ofText? (s : String) : Option Binary64 :=
  let (negative, body) := match s.toList with
    | '-' :: cs => (true, cs)
    | '+' :: cs => (false, cs)
    | cs => (false, cs)
  let name := String.ofList (body.map Char.toLower)
  if name = "inf" ∨ name = "infinity" then some (infinity negative)
  else if name = "nan" then some (nan negative)
  else (readDecimal? body).map (ofDecimal negative)

end Binary64

end KeySubst

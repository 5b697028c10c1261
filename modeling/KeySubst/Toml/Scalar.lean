import KeySubst.Toml.Lexical
import KeySubst.Toml.Value

/-!
# Numbers, booleans and datetimes of a document

A number may be well written and yet stand for no value: one that is too large, one of a base
without digits, and one that has more than decimal digits behind its first underscore.
-/

namespace KeySubst.Toml

def readDigitGroups? (isDigit : Char → Bool) (cs : List Char) : Option (List Char) :=
  go true cs
where
  go (edge : Bool) : List Char → Option (List Char)
    | [] => if edge then none else some []
    | c :: cs =>
      if isDigit c then (go false cs).map (c :: ·)
      else if c = '_' ∧ !edge then go true cs
      else none

def readDecimalDigits? (cs : List Char) : Option (List Char) :=
  match readDigitGroups? Char.isDigit cs with
  | some ('0' :: _ :: _) => none
  | digits => digits

def readBase? (base : Nat) (cs : List Char) : Option Int := do
  let value := fun c => (Text.hexValue? c).filter (· < base)
  let digits ← readDigitGroups? (fun c => (value c).isSome) cs
  some (digits.foldl (fun n c => base * n + (value c).getD 0) 0 : Nat)

def underscoresFit (cs : List Char) : Bool :=
  let isDigit := fun c => (Text.hexValue? c).isSome
  (cs.zip cs.tail).all (fun (a, b) => (b ≠ '_' || isDigit a) && (a ≠ '_' || isDigit b)) &&
    cs.getLast? ≠ some '_'

def readSign : List Char → Bool × List Char
  | '-' :: cs => (true, cs)
  | '+' :: cs => (false, cs)
  | cs => (false, cs)

def readInteger? (cs : List Char) : Option Int := do
  let (negative, cs) := readSign cs
  let n := Nat.ofDigitChars 10 (← readDecimalDigits? cs) 0
  some (if negative then -n else n)

/-- Written like a decimal integer as far as the first underscore, with anything but a point or an
exponent behind it. -/
def isLooseInteger (cs : List Char) : Bool :=
  let (_, cs) := readSign cs
  let rest := cs.dropWhile Char.isDigit
  cs.head?.any (fun c => c.isDigit && c ≠ '0') && rest.head? = some '_' &&
    !rest.any (fun c => c = '.' || c = 'e' || c = 'E') && underscoresFit cs

def readDecimal? (cs : List Char) : Option Decimal := do
  let isMark := fun c => c = 'e' || c = 'E'
  guard (cs.any fun c => c = '.' || isMark c)
  let mantissa := cs.takeWhile fun c => !isMark c
  let whole ← readDecimalDigits? (mantissa.takeWhile (· ≠ '.'))
  let fraction ← match mantissa.dropWhile (· ≠ '.') with
    | [] => some []
    | _ :: fraction => readDigitGroups? Char.isDigit fraction
  let exponent ← match cs.dropWhile fun c => !isMark c with
    | [] => some 0
    | _ :: exponent => do
      let (negative, digits) := readSign exponent
      let n := Nat.ofDigitChars 10 (← readDigitGroups? Char.isDigit digits) 0
      some (if negative then -(n : Int) else n)
  some ⟨Nat.ofDigitChars 10 (whole ++ fraction) 0, exponent - fraction.length⟩

def Value.ofInteger? (n : Int) : Option Value :=
  if -Int.pow 2 63 ≤ n ∧ n < Int.pow 2 63 then some (.integer n) else none

def Value.ofDecimal? (negative : Bool) (d : Decimal) : Option Value :=
  ((some (Binary64.ofDecimal negative d)).filter Binary64.isFinite).map .float

def readFloat? (cs : List Char) : Option (Option Value) :=
  let (negative, cs) := readSign cs
  match cs with
  | ['i', 'n', 'f'] => some (some (.float (.infinity negative)))
  | ['n', 'a', 'n'] => some (some (.float (.nan negative)))
  | cs => (readDecimal? cs).map (Value.ofDecimal? negative)

def readScalar? (cs : List Char) : Option (Option Value) :=
  match cs with
  | ['t', 'r', 'u', 'e'] => some (some (.boolean true))
  | ['f', 'a', 'l', 's', 'e'] => some (some (.boolean false))
  | ['0', 'x'] | ['0', 'o'] | ['0', 'b'] => some none
  | '0' :: 'x' :: digits => (readBase? 16 digits).map Value.ofInteger?
  | '0' :: 'o' :: digits => (readBase? 8 digits).map Value.ofInteger?
  | '0' :: 'b' :: digits => (readBase? 2 digits).map Value.ofInteger?
  | cs =>
    ((readInteger? cs).map Value.ofInteger?).or <|
      ((Datetime.read? cs).map (some <| .datetime ·)).or <|
        (readFloat? cs).or <| if isLooseInteger cs then some none else none

namespace Reader

def runEnds : List Char := [' ', '\t', '\r', '\n', '#', '=', ',', '[', ']', '\x7b', '\x7d']

def isScalarChar (c : Char) : Bool := !runEnds.contains c

/-- A single space may part a date from its time. -/
def scalar : Reader (Option Value) := do
  let run ← takeWhile isScalarChar
  let isDate := match Date.read? run with
    | some (_, []) => true
    | _ => false
  let run ← match isDate, ← get with
    | true, ' ' :: c :: _ => do
      if c.isDigit then
        let _ ← next
        pure (run ++ ' ' :: (← takeWhile isScalarChar))
      else pure run
    | _, _ => pure run
  readScalar? run

end Reader

end KeySubst.Toml

/-!
# Dates and times

The normal form has a `T` between date and time, seconds always, and no more of a fraction than says
something. There is an offset only if both are there.
-/

namespace KeySubst.Toml

structure Date where
  year : Nat
  month : Nat
  day : Nat
  deriving DecidableEq, Repr

structure Time where
  hour : Nat
  minute : Nat
  second : Nat
  nanosecond : Nat
  deriving DecidableEq, Repr

inductive Offset where
  | universal
  | minutes (east : Int)
  deriving DecidableEq, Repr

inductive Datetime where
  | date (date : Date)
  | time (time : Time)
  | both (date : Date) (time : Time) (offset : Option Offset)
  deriving DecidableEq, Repr

def daysOfMonth (year month : Nat) : Nat :=
  if month = 2 then
    if year % 4 = 0 ∧ (year % 100 ≠ 0 ∨ year % 400 = 0) then 29 else 28
  else if month = 4 ∨ month = 6 ∨ month = 9 ∨ month = 11 then 30
  else 31

def Date.isValid (d : Date) : Bool :=
  1 ≤ d.month && d.month ≤ 12 && 1 ≤ d.day && d.day ≤ daysOfMonth d.year d.month

/-- A minute may have a leap second. -/
def Time.isValid (t : Time) : Bool := t.hour ≤ 23 && t.minute ≤ 59 && t.second ≤ 60

def padded (width n : Nat) : String :=
  let digits := Nat.toDigits 10 n
  String.ofList (List.replicate (width - digits.length) '0' ++ digits)

def Date.text (d : Date) : String :=
  padded 4 d.year ++ "-" ++ padded 2 d.month ++ "-" ++ padded 2 d.day

def Time.text (t : Time) : String :=
  let fraction := (padded 9 t.nanosecond).toList.reverse.dropWhile (· = '0') |>.reverse
  padded 2 t.hour ++ ":" ++ padded 2 t.minute ++ ":" ++ padded 2 t.second ++
    if fraction.isEmpty then "" else "." ++ String.ofList fraction

def Offset.text : Offset → String
  | universal => "Z"
  | minutes m =>
    (if m < 0 then "-" else "+") ++ padded 2 (m.natAbs / 60) ++ ":" ++ padded 2 (m.natAbs % 60)

def Datetime.text : Datetime → String
  | date d => d.text
  | time t => t.text
  | both d t offset => d.text ++ "T" ++ t.text ++ (offset.map Offset.text).getD ""

def readDigits? (n : Nat) (cs : List Char) : Option (Nat × List Char) :=
  let digits := cs.take n
  if digits.length = n ∧ digits.all Char.isDigit then
    some (Nat.ofDigitChars 10 digits 0, cs.drop n)
  else none

def readMark? (mark : Char) : List Char → Option (List Char)
  | c :: cs => if c = mark then some cs else none
  | [] => none

def Date.read? (cs : List Char) : Option (Date × List Char) := do
  let (year, cs) ← readDigits? 4 cs
  let cs ← readMark? '-' cs
  let (month, cs) ← readDigits? 2 cs
  let cs ← readMark? '-' cs
  let (day, cs) ← readDigits? 2 cs
  let d : Date := ⟨year, month, day⟩
  if d.isValid then some (d, cs) else none

/-- Digits after the ninth are dropped. -/
def readFraction? (cs : List Char) : Option (Nat × List Char) :=
  let digits := cs.takeWhile Char.isDigit
  if digits.isEmpty then none
  else
    let nine := digits.take 9
    some (Nat.ofDigitChars 10 nine 0 * Nat.pow 10 (9 - nine.length), cs.dropWhile Char.isDigit)

def Time.read? (cs : List Char) : Option (Time × List Char) := do
  let (hour, cs) ← readDigits? 2 cs
  let cs ← readMark? ':' cs
  let (minute, cs) ← readDigits? 2 cs
  let (second, nanosecond, cs) ← match cs with
    | ':' :: cs => do
      let (second, cs) ← readDigits? 2 cs
      match cs with
      | '.' :: cs => do
        let (nanosecond, cs) ← readFraction? cs
        some (second, nanosecond, cs)
      | cs => some (second, 0, cs)
    | cs => some (0, 0, cs)
  let t : Time := ⟨hour, minute, second, nanosecond⟩
  if t.isValid then some (t, cs) else none

def Offset.read? : List Char → Option Offset
  | [c] => if c = 'Z' ∨ c = 'z' then some universal else none
  | sign :: cs => do
    let negative ← if sign = '-' then some true else if sign = '+' then some false else none
    let (hours, cs) ← readDigits? 2 cs
    let cs ← readMark? ':' cs
    let (mins, cs) ← readDigits? 2 cs
    if cs.isEmpty ∧ hours ≤ 23 ∧ mins ≤ 59 then
      let distance : Int := hours * 60 + mins
      some (minutes (if negative then -distance else distance))
    else none
  | [] => none

def Datetime.read? (cs : List Char) : Option Datetime :=
  match Date.read? cs with
  | some (d, []) => some (date d)
  | some (d, mark :: cs) =>
    if mark = 'T' ∨ mark = 't' ∨ mark = ' ' then
      match Time.read? cs with
      | some (t, []) => some (both d t none)
      | some (t, cs) => (Offset.read? cs).map (both d t ·)
      | none => none
    else none
  | none =>
    match Time.read? cs with
    | some (t, []) => some (time t)
    | _ => none

end KeySubst.Toml

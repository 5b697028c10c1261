/-!
# Globs

A glob is read from left to right, and the first fault met is the one reported.
-/

namespace KeySubst

namespace Glob

def separator : UInt8 := 0x2F

inductive Part where
  | char (c : Char)
  | anyByte
  | anyRun
  /-- Nothing, one separator, or anything that ends in a separator. -/
  | leadingDirectories
  /-- One separator, or anything that starts and ends in one. -/
  | innerDirectories
  | trailingDirectories
  | oneOf (negated : Bool) (ranges : List (UInt8 × UInt8))
  | alternatives (branches : List (List Part))

def Part.char? : Part → Option Char
  | .char c => some c
  | _ => none

inductive Fault where
  | unclosedSet
  | reversedRange (first last : Char)
  | unopenedBrace
  | unclosedBrace
  | danglingEscape
  deriving DecidableEq, Repr

def Fault.message : Fault → String
  | unclosedSet => "unclosed character class; missing ']'"
  | reversedRange first last =>
    "invalid range; '" ++ first.toString ++ "' > '" ++ last.toString ++ "'"
  | unopenedBrace =>
    "unopened alternate group; missing '\x7b' (maybe escape '\x7d' with '[\x7d]'?)"
  | unclosedBrace =>
    "unclosed alternate group; missing '\x7d' (maybe escape '\x7b' with '[\x7b]'?)"
  | danglingEscape => "dangling '\\'"

/-- A character of several bytes names each of them, and the range itself runs from the last byte of
the one to the first byte of the other. -/
def byteRanges (first last : Char) : List (UInt8 × UInt8) :=
  let single := fun b => (b, b)
  let low := String.utf8EncodeChar first
  let high := String.utf8EncodeChar last
  if first = last then low.map single
  else
    low.dropLast.map single ++ (low.getLast?.toList.zip high.head?.toList) ++ high.tail.map single

def inRanges (ranges : List (UInt8 × UInt8)) (b : UInt8) : Bool :=
  ranges.any fun (first, last) => first ≤ b && b ≤ last

structure SetReader where
  ranges : List (Char × Char)
  dash : Bool

def SetReader.add (r : SetReader) (c : Char) : Except Fault SetReader :=
  match r.dash, r.ranges with
  | true, (first, _) :: others =>
    if c < first then .error (.reversedRange first c) else .ok ⟨(first, c) :: others, false⟩
  | _, ranges => .ok ⟨(c, c) :: ranges, false⟩

/-- A bracket or a `-` that comes first stands for itself, as does a `-` that comes last. -/
def readSet (r : SetReader) : List Char → Except Fault (List (Char × Char) × List Char)
  | [] => .error .unclosedSet
  | c :: cs =>
    if c = ']' ∧ r.ranges ≠ [] then
      let ranges := if r.dash then ('-', '-') :: r.ranges else r.ranges
      .ok (ranges.reverse, cs)
    else if c = '-' ∧ r.ranges ≠ [] ∧ !r.dash then readSet { r with dash := true } cs
    else
      match r.add c with
      | .error fault => .error fault
      | .ok r => readSet r cs

theorem readSet_rest {r : SetReader} {cs rest : List Char} {ranges : List (Char × Char)}
    (read : readSet r cs = .ok (ranges, rest)) : rest.length < cs.length := by
  induction cs generalizing r with
  | nil => simp [readSet] at read
  | cons c cs ih =>
    rw [readSet] at read
    split at read
    · simp only [Except.ok.injEq, Prod.mk.injEq] at read
      simp [← read.2]
    · split at read
      · exact Nat.lt_succ_of_lt (ih read)
      · split at read
        · simp at read
        · exact Nat.lt_succ_of_lt (ih read)

structure OpenBrace where
  outer : List Part
  finished : List (List Part)

/-- The parts of the current branch and the open braces are in reverse. -/
structure Reader where
  parts : List Part
  braces : List OpenBrace

namespace Reader

def push (r : Reader) (p : Part) : Reader := { r with parts := p :: r.parts }

def pushStars (r : Reader) : Reader := (r.push .anyRun).push .anyRun

def comma (r : Reader) : Reader :=
  match r.braces with
  | [] => r.push (.char ',')
  | brace :: outer =>
    ⟨[], { brace with finished := r.parts.reverse :: brace.finished } :: outer⟩

def openBrace (r : Reader) : Reader := ⟨[], ⟨r.parts, []⟩ :: r.braces⟩

def closeBrace (r : Reader) : Except Fault Reader :=
  match r.braces with
  | [] => .error .unopenedBrace
  | brace :: outer =>
    let branches := (r.parts.reverse :: brace.finished).reverse
    .ok ⟨.alternatives branches :: brace.outer, outer⟩

/-- Directories take the place of the part before a pair of stars; other leading or trailing
directories there take in the new ones. -/
def pushDirectories (r : Reader) (directories : Part) : Reader :=
  match r.parts with
  | .leadingDirectories :: _ => r
  | .trailingDirectories :: _ => r
  | _ :: parts => { r with parts := directories :: parts }
  | [] => r.push directories

/-- A pair of stars takes in directories if a separator or the start of the branch is before it and
a separator or an end after it. -/
def stars (r : Reader) (before : Option Char) (rest : List Char) : Reader × List Char :=
  if r.parts.isEmpty then
    match rest with
    | [] => (r.push .leadingDirectories, [])
    | '/' :: rest => (r.push .leadingDirectories, rest)
    | rest => (r.pushStars, rest)
  else if before = some '/' ∨ (!r.braces.isEmpty ∧ (before = some ',' ∨ before = some '\x7b')) then
    match rest with
    | [] => (r.pushDirectories .trailingDirectories, [])
    | '/' :: rest => (r.pushDirectories .innerDirectories, rest)
    | c :: rest =>
      if !r.braces.isEmpty ∧ (c = ',' ∨ c = '\x7d') then
        (r.pushDirectories .trailingDirectories, c :: rest)
      else (r.pushStars, c :: rest)
  else (r.pushStars, rest)

theorem stars_rest (r : Reader) (before : Option Char) (rest : List Char) :
    (r.stars before rest).2.length ≤ rest.length := by
  unfold stars
  repeat' split
  all_goals simp

def read (r : Reader) (before : Option Char) : List Char → Except Fault (List Part)
  | [] => if r.braces.isEmpty then .ok r.parts.reverse else .error .unclosedBrace
  | '*' :: '*' :: rest =>
    match h : r.stars before rest with
    | (r', rest') =>
      have : rest'.length ≤ rest.length := by
        have := stars_rest r before rest
        rwa [h] at this
      r'.read (some (if rest'.length < rest.length then '/' else '*')) rest'
  | '*' :: rest => (r.push .anyRun).read (some '*') rest
  | '?' :: rest => (r.push .anyByte).read (some '?') rest
  | '[' :: rest =>
    let negated := rest.head? = some '!' ∨ rest.head? = some '^'
    match h : readSet ⟨[], false⟩ (if negated then rest.tail else rest) with
    | .error fault => .error fault
    | .ok (ranges, rest') =>
      have : rest'.length < rest.length := by
        have := readSet_rest h
        split at this
        · simp only [List.length_tail] at this; omega
        · exact this
      let bytes := ranges.flatMap fun (first, last) => byteRanges first last
      (r.push (.oneOf negated bytes)).read (some ']') rest'
  | '\\' :: [] => .error .danglingEscape
  | '\\' :: c :: rest => (r.push (.char c)).read (some c) rest
  | ',' :: rest => r.comma.read (some ',') rest
  | c :: rest =>
    if c = '\x7b' then r.openBrace.read (some c) rest
    else if c = '\x7d' then
      match r.closeBrace with
      | .error fault => .error fault
      | .ok r => r.read (some c) rest
    else (r.push (.char c)).read (some c) rest
termination_by cs => cs.length
decreasing_by all_goals (simp only [List.length_cons]; omega)

end Reader

def parts (text : String) : Except Fault (List Part) := Reader.read ⟨[], []⟩ none text.toList

end Glob

end KeySubst

import KeySubst.Json.Quoted

/-!
# Tokens of JSON

A string is kept as it stands between its quotes; what its escapes stand for is looked at only where
it is used.
-/

namespace KeySubst.Json

inductive Token where
  | null
  | boolean (value : Bool)
  | number (text : List Char)
  | string (raw : List Char)
  | comma
  | colon
  | openArray
  | closeArray
  | openObject
  | closeObject
  deriving DecidableEq, Repr

def isBlank (c : Char) : Bool := c = ' ' || c = '\t' || c = '\n' || c = '\r'

def scanString? : List Char → Option (List Char × List Char)
  | [] => none
  | '"' :: rest => some ([], rest)
  | '\\' :: 'u' :: a :: b :: c :: d :: rest =>
    if [a, b, c, d].all fun h => (Text.hexValue? h).isSome then
      (scanString? rest).map fun (raw, rest) => ('\\' :: 'u' :: a :: b :: c :: d :: raw, rest)
    else none
  | '\\' :: c :: rest =>
    if (namedEscape? c).isSome then
      (scanString? rest).map fun (raw, rest) => ('\\' :: c :: raw, rest)
    else none
  | c :: rest =>
    if c = '\\' ∨ c.toNat < 0x20 then none
    else (scanString? rest).map fun (raw, rest) => (c :: raw, rest)

def scanDigits? (cs : List Char) : Option (List Char × List Char) :=
  let digits := cs.takeWhile Char.isDigit
  if digits.isEmpty then none else some (digits, cs.dropWhile Char.isDigit)

def scanWhole? : List Char → Option (List Char × List Char)
  | '0' :: rest => some (['0'], rest)
  | cs => scanDigits? cs

def scanFraction? : List Char → Option (List Char × List Char)
  | '.' :: rest => (scanDigits? rest).map fun (digits, rest) => ('.' :: digits, rest)
  | cs => some ([], cs)

def scanExponent? : List Char → Option (List Char × List Char)
  | [] => some ([], [])
  | c :: rest =>
    if c = 'e' ∨ c = 'E' then
      match rest with
      | '+' :: rest => (scanDigits? rest).map fun (digits, rest) => (c :: '+' :: digits, rest)
      | '-' :: rest => (scanDigits? rest).map fun (digits, rest) => (c :: '-' :: digits, rest)
      | rest => (scanDigits? rest).map fun (digits, rest) => (c :: digits, rest)
    else some ([], c :: rest)

def scanNumber? (cs : List Char) : Option (List Char × List Char) := do
  let (sign, cs) := match cs with
    | '-' :: rest => (['-'], rest)
    | cs => ([], cs)
  let (whole, cs) ← scanWhole? cs
  let (fraction, cs) ← scanFraction? cs
  let (exponent, cs) ← scanExponent? cs
  return (sign ++ whole ++ fraction ++ exponent, cs)

def Token.scan? (c : Char) (rest : List Char) : Option (Token × List Char) :=
  if c = '"' then (scanString? rest).map fun (raw, rest) => (.string raw, rest)
  else if c = ',' then some (.comma, rest)
  else if c = ':' then some (.colon, rest)
  else if c = '[' then some (.openArray, rest)
  else if c = ']' then some (.closeArray, rest)
  else if c = '\x7b' then some (.openObject, rest)
  else if c = '\x7d' then some (.closeObject, rest)
  else if ['n', 'u', 'l', 'l'].isPrefixOf (c :: rest) then some (.null, rest.drop 3)
  else if ['t', 'r', 'u', 'e'].isPrefixOf (c :: rest) then some (.boolean true, rest.drop 3)
  else if ['f', 'a', 'l', 's', 'e'].isPrefixOf (c :: rest) then some (.boolean false, rest.drop 4)
  else (scanNumber? (c :: rest)).map fun (text, rest) => (.number text, rest)

theorem scanString?_rest {cs raw rest : List Char} (read : scanString? cs = some (raw, rest)) :
    rest.length < cs.length := by
  fun_induction scanString? cs generalizing raw
  all_goals simp_all [Option.map_eq_some_iff]
  all_goals grind

theorem scanDigits?_rest {cs digits rest : List Char}
    (read : scanDigits? cs = some (digits, rest)) : rest.length < cs.length := by
  unfold scanDigits? at read
  simp only at read
  split at read
  · simp at read
  · rename_i some_digit
    simp only [Option.some.injEq, Prod.mk.injEq] at read
    obtain ⟨-, rfl⟩ := read
    have split := congrArg List.length
      (List.takeWhile_append_dropWhile (p := Char.isDigit) (l := cs))
    have := List.length_pos_iff.2 (by simpa using some_digit : cs.takeWhile Char.isDigit ≠ [])
    rw [List.length_append] at split
    omega

theorem scanWhole?_rest {cs digits rest : List Char} (read : scanWhole? cs = some (digits, rest)) :
    rest.length < cs.length := by
  unfold scanWhole? at read
  split at read
  · simp only [Option.some.injEq, Prod.mk.injEq] at read
    simp [read.2]
  · exact scanDigits?_rest read

theorem scanFraction?_rest {cs digits rest : List Char}
    (read : scanFraction? cs = some (digits, rest)) : rest.length ≤ cs.length := by
  unfold scanFraction? at read
  split at read
  · obtain ⟨⟨d, r⟩, h, eq⟩ := Option.map_eq_some_iff.1 read
    simp only [Prod.mk.injEq] at eq
    have := scanDigits?_rest h
    simp only [List.length_cons, ← eq.2]
    omega
  · simp only [Option.some.injEq, Prod.mk.injEq] at read
    simp [read.2]

theorem scanExponent?_rest {cs digits rest : List Char}
    (read : scanExponent? cs = some (digits, rest)) : rest.length ≤ cs.length := by
  unfold scanExponent? at read
  repeat' split at read
  all_goals first
    | (obtain ⟨⟨d, r⟩, h, eq⟩ := Option.map_eq_some_iff.1 read
       simp only [Prod.mk.injEq] at eq
       have := scanDigits?_rest h
       simp only [List.length_cons, ← eq.2] at this ⊢
       omega)
    | (simp only [Option.some.injEq, Prod.mk.injEq] at read
       simp [← read.2])

theorem scanNumber?_rest {cs text rest : List Char} (read : scanNumber? cs = some (text, rest)) :
    rest.length < cs.length := by
  unfold scanNumber? at read
  simp only [Option.bind_eq_bind, Option.bind_eq_some_iff, Option.pure_def, Option.some.injEq,
    Prod.mk.injEq, Prod.exists] at read
  obtain ⟨w, r₁, whole, f, r₂, fraction, e, r₃, exponent, -, rfl⟩ := read
  have h₁ := scanWhole?_rest whole
  have h₂ := scanFraction?_rest fraction
  have h₃ := scanExponent?_rest exponent
  split at h₁
  · simp only [List.length_cons] at h₁ ⊢; omega
  · simp only at h₁; omega

theorem Token.scan?_rest {c : Char} {cs rest : List Char} {t : Token}
    (read : Token.scan? c cs = some (t, rest)) : rest.length ≤ cs.length := by
  revert read
  fun_cases Token.scan? c cs
  all_goals
    intro read
    first
    | (simp only [Option.some.injEq, Prod.mk.injEq] at read
       simp [← read.2])
    | (obtain ⟨⟨d, r⟩, h, eq⟩ := Option.map_eq_some_iff.1 read
       simp only [Prod.mk.injEq] at eq
       obtain ⟨-, rfl⟩ := eq
       first
         | exact Nat.le_of_lt (scanString?_rest h)
         | exact Nat.le_of_lt_succ (scanNumber?_rest h))

def tokens? : List Char → Option (List Token)
  | [] => some []
  | c :: rest =>
    if isBlank c then tokens? rest
    else
      match _read : Token.scan? c rest with
      | none => none
      | some (t, rest') => (tokens? rest').map (t :: ·)
termination_by cs => cs.length
decreasing_by
  · exact Nat.lt_succ_self _
  · exact Nat.lt_succ_of_le (Token.scan?_rest _read)

end KeySubst.Json

import KeySubst.Text.Hex

/-!
# JSON strings

The quote, the backslash and the characters below U+0020 are escaped and all others stand for
themselves.
-/

namespace KeySubst.Json

open Text (hexNumber?)

def hexDigit (n : Nat) : Char := Nat.digitChar (n % 16)

def encodeChar (c : Char) : List Char :=
  if c = '"' then ['\\', '"']
  else if c = '\\' then ['\\', '\\']
  else if c = '\x08' then ['\\', 'b']
  else if c = '\x0c' then ['\\', 'f']
  else if c = '\n' then ['\\', 'n']
  else if c = '\r' then ['\\', 'r']
  else if c = '\t' then ['\\', 't']
  else if c.toNat < 0x20 then ['\\', 'u', '0', '0', hexDigit (c.toNat / 16), hexDigit c.toNat]
  else [c]

def encode (cs : List Char) : List Char := cs.flatMap encodeChar

def quote (s : String) : String := String.ofList ('"' :: encode s.toList ++ ['"'])

def namedEscape? : Char → Option Char
  | '"' => some '"'
  | '\\' => some '\\'
  | '/' => some '/'
  | 'b' => some '\x08'
  | 'f' => some '\x0c'
  | 'n' => some '\n'
  | 'r' => some '\r'
  | 't' => some '\t'
  | _ => none

/-- Every escape of JSON is known, and a surrogate only as half of a pair. -/
def decode? : List Char → Option (List Char)
  | [] => some []
  | '\\' :: 'u' :: a :: b :: c :: d :: rest =>
    match hexNumber? [a, b, c, d] with
    | none => none
    | some high =>
      if high < 0xD800 ∨ 0xDFFF < high then (decode? rest).map (Char.ofNat high :: ·)
      else
        match rest with
        | '\\' :: 'u' :: e :: f :: g :: h :: rest =>
          match hexNumber? [e, f, g, h] with
          | none => none
          | some low =>
            if high < 0xDC00 ∧ 0xDC00 ≤ low ∧ low ≤ 0xDFFF then
              let code := 0x10000 + (high - 0xD800) * 0x400 + (low - 0xDC00)
              (decode? rest).map (Char.ofNat code :: ·)
            else none
        | _ => none
  | '\\' :: c :: rest => (namedEscape? c).bind fun c => (decode? rest).map (c :: ·)
  | c :: rest =>
    if c = '"' ∨ c = '\\' ∨ c.toNat < 0x20 then none else (decode? rest).map (c :: ·)

private theorem hexNumber?_control (n : Nat) (control : n < 0x20) :
    hexNumber? ['0', '0', hexDigit (n / 16), hexDigit n] = some n := by
  have all : ∀ m : Fin 0x20, hexNumber? ['0', '0', hexDigit (m / 16), hexDigit m] = some m.val := by
    decide
  exact all ⟨n, control⟩

theorem decode?_encodeChar_append (c : Char) (rest : List Char) :
    decode? (encodeChar c ++ rest) = (decode? rest).map (c :: ·) := by
  simp only [encodeChar]
  split; · subst_vars; simp [decode?, namedEscape?]
  split; · subst_vars; simp [decode?, namedEscape?]
  split; · subst_vars; simp [decode?, namedEscape?]
  split; · subst_vars; simp [decode?, namedEscape?]
  split; · subst_vars; simp [decode?, namedEscape?]
  split; · subst_vars; simp [decode?, namedEscape?]
  split; · subst_vars; simp [decode?, namedEscape?]
  split
  · rename_i control
    simp only [List.cons_append, List.nil_append, decode?, hexNumber?_control _ control]
    rw [if_pos (by omega), Char.ofNat_toNat]
  · simp [decode?, *]

theorem decode?_encode_append (s rest : List Char) :
    decode? (encode s ++ rest) = (decode? rest).map (s ++ ·) := by
  induction s with
  | nil => simp [encode]
  | cons c s ih =>
    rw [encode, List.flatMap_cons, List.append_assoc, decode?_encodeChar_append]
    rw [encode] at ih
    simp [ih, Function.comp_def]

theorem decode?_encode (s : List Char) : decode? (encode s) = some s := by
  simpa [decode?] using decode?_encode_append s []

end KeySubst.Json

import KeySubst.Json.Value
import Mathlib.Data.List.Forall2

/-!
# Written JSON

A row of tokens that is written without blanks is read token by token (`tokens?_flatMap`).
-/

namespace KeySubst.Json

def Token.text : Token → List Char
  | .null => ['n', 'u', 'l', 'l']
  | .boolean true => ['t', 'r', 'u', 'e']
  | .boolean false => ['f', 'a', 'l', 's', 'e']
  | .number text => text
  | .string raw => '"' :: raw ++ ['"']
  | .comma => [',']
  | .colon => [':']
  | .openArray => ['[']
  | .closeArray => [']']
  | .openObject => ['\x7b']
  | .closeObject => ['\x7d']

inductive Token.Plain : Token → Prop
  | null : Plain .null
  | boolean (b : Bool) : Plain (.boolean b)
  | string (s : List Char) : Plain (.string (encode s))
  | comma : Plain .comma
  | colon : Plain .colon
  | openArray : Plain .openArray
  | closeArray : Plain .closeArray
  | openObject : Plain .openObject
  | closeObject : Plain .closeObject

/-- A row of tokens that can be told from each other; behind a number comes a comma. -/
inductive Legible : List Token → Prop
  | nil : Legible []
  | plain {t : Token} {ts : List Token} (plain : t.Plain) (rest : Legible ts) : Legible (t :: ts)
  | number (n : Nat) {ts : List Token} (rest : Legible (.comma :: ts)) :
      Legible (.number (Nat.toDigits 10 n) :: .comma :: ts)

theorem Legible.of_plain {ts : List Token} (plain : ∀ t ∈ ts, t.Plain) : Legible ts := by
  induction ts with
  | nil => exact .nil
  | cons t ts ih =>
    exact .plain (plain t List.mem_cons_self) (ih fun u member => plain u (.tail _ member))

theorem hexDigit_isSome (n : Nat) : (Text.hexValue? (hexDigit n)).isSome = true := by
  have all : ∀ m : Fin 16, (Text.hexValue? (Nat.digitChar m)).isSome = true := by decide
  exact all ⟨n % 16, Nat.mod_lt _ (by decide)⟩

theorem encodeChar_eq (c : Char) :
    (c = '"' ∧ encodeChar c = ['\\', '"']) ∨ (c = '\\' ∧ encodeChar c = ['\\', '\\']) ∨
      (∃ d, (d = 'b' ∨ d = 'f' ∨ d = 'n' ∨ d = 'r' ∨ d = 't') ∧ encodeChar c = ['\\', d]) ∨
      encodeChar c = ['\\', 'u', '0', '0', hexDigit (c.toNat / 16), hexDigit c.toNat] ∨
      (0x20 ≤ c.toNat ∧ c ≠ '"' ∧ c ≠ '\\' ∧ encodeChar c = [c]) := by
  unfold encodeChar
  by_cases isQuote : c = '"'
  · exact .inl ⟨isQuote, if_pos isQuote⟩
  rw [if_neg isQuote]
  by_cases isBackslash : c = '\\'
  · exact .inr (.inl ⟨isBackslash, if_pos isBackslash⟩)
  rw [if_neg isBackslash]
  by_cases named : c = '\x08'
  · exact .inr (.inr (.inl ⟨'b', by decide, if_pos named⟩))
  rw [if_neg named]
  by_cases named : c = '\x0c'
  · exact .inr (.inr (.inl ⟨'f', by decide, if_pos named⟩))
  rw [if_neg named]
  by_cases named : c = '\n'
  · exact .inr (.inr (.inl ⟨'n', by decide, if_pos named⟩))
  rw [if_neg named]
  by_cases named : c = '\r'
  · exact .inr (.inr (.inl ⟨'r', by decide, if_pos named⟩))
  rw [if_neg named]
  by_cases named : c = '\t'
  · exact .inr (.inr (.inl ⟨'t', by decide, if_pos named⟩))
  rw [if_neg named]
  by_cases control : c.toNat < 0x20
  · exact .inr (.inr (.inr (.inl (if_pos control))))
  · exact .inr (.inr (.inr (.inr
      ⟨Nat.le_of_not_lt control, isQuote, isBackslash, if_neg control⟩)))

theorem scanString?_encodeChar_append (c : Char) (rest : List Char) :
    scanString? (encodeChar c ++ rest) =
      (scanString? rest).map fun (raw, rest) => (encodeChar c ++ raw, rest) := by
  rcases encodeChar_eq c with ⟨-, form⟩ | ⟨-, form⟩ | ⟨d, named, form⟩ | form |
    ⟨visible, noQuote, noBackslash, form⟩
  all_goals rw [form]
  · simp [scanString?, namedEscape?]
  · simp [scanString?, namedEscape?]
  · rcases named with rfl | rfl | rfl | rfl | rfl
    all_goals simp [scanString?, namedEscape?]
  · have zero : (Text.hexValue? '0').isSome = true := by decide
    simp [scanString?, hexDigit_isSome, zero]
  · simp [scanString?, noBackslash, Nat.not_lt.2 visible]

theorem scanString?_encode (s rest : List Char) :
    scanString? (encode s ++ '"' :: rest) = some (encode s, rest) := by
  induction s with
  | nil => simp [encode, scanString?]
  | cons c s ih =>
    rw [encode] at ih ⊢
    rw [List.flatMap_cons, List.append_assoc, scanString?_encodeChar_append, ih]
    rfl

theorem toDigits_eq_zero_or (n : Nat) :
    Nat.toDigits 10 n = ['0'] ∨
      ∃ c digits, Nat.toDigits 10 n = c :: digits ∧ c ≠ '0' ∧ ∀ d ∈ c :: digits, d.isDigit := by
  induction n using Nat.strongRecOn with
  | ind n ih =>
    have all : ∀ d ∈ Nat.toDigits 10 n, d.isDigit := fun d member =>
      Nat.isDigit_of_mem_toDigits (by decide) (by decide) member
    by_cases small : n < 10
    · have digit : ∀ m : Fin 10, Nat.digitChar m = '0' ∨ Nat.digitChar m ≠ '0' := by decide
      rw [Nat.toDigits_of_lt_base small] at all ⊢
      rcases digit ⟨n, small⟩ with zero | nonzero
      · exact .inl (by rw [zero])
      · exact .inr ⟨_, [], rfl, nonzero, all⟩
    · have large : 10 ≤ n := Nat.le_of_not_lt small
      rw [Nat.toDigits_of_base_le (by decide) large] at all ⊢
      rcases ih (n / 10) (by omega) with zero | ⟨c, digits, starts, nonzero, -⟩
      · have back := Nat.ofDigitChars_toDigits (b := 10) (n := n / 10) (by decide) (by decide)
        rw [zero] at back
        have : 0 = n / 10 := back
        omega
      · rw [starts] at all ⊢
        exact .inr ⟨c, _, rfl, nonzero, all⟩

theorem toDigits_eq_cons (n : Nat) : ∃ c digits, Nat.toDigits 10 n = c :: digits ∧ c.isDigit := by
  rcases toDigits_eq_zero_or n with zero | ⟨c, digits, starts, -, all⟩
  · exact ⟨'0', [], zero, by decide⟩
  · exact ⟨c, digits, starts, all c List.mem_cons_self⟩

theorem scanWhole?_toDigits (n : Nat) (rest : List Char) :
    scanWhole? (Nat.toDigits 10 n ++ ',' :: rest) = some (Nat.toDigits 10 n, ',' :: rest) := by
  rcases toDigits_eq_zero_or n with zero | ⟨c, digits, starts, nonzero, all⟩
  · rw [zero]
    rfl
  · rw [starts, List.cons_append, scanWhole?]
    · have taken : (c :: digits ++ ',' :: rest).takeWhile Char.isDigit = c :: digits := by
        rw [List.takeWhile_append_of_pos all]
        simp
      have left : (c :: digits ++ ',' :: rest).dropWhile Char.isDigit = ',' :: rest := by
        rw [List.dropWhile_append_of_pos all]
        simp
      rw [List.cons_append] at taken left
      simp only [scanDigits?, taken, left]
      rfl
    · rintro _ ⟨rfl, -⟩
      exact nonzero rfl

theorem scanNumber?_toDigits (n : Nat) (rest : List Char) :
    scanNumber? (Nat.toDigits 10 n ++ ',' :: rest) = some (Nat.toDigits 10 n, ',' :: rest) := by
  obtain ⟨c, digits, starts, digit⟩ := toDigits_eq_cons n
  have whole := scanWhole?_toDigits n rest
  rw [starts, List.cons_append] at whole ⊢
  unfold scanNumber?
  split
  rename_i sign _ split
  split at split
  · rename_i signed
    obtain ⟨rfl, -⟩ := List.cons.inj signed
    exact absurd digit (by decide)
  · cases split
    rw [whole]
    simp [scanFraction?, scanExponent?]

/-! ### Rows of tokens -/

theorem tokens?_of_scan? {c : Char} {cs rest : List Char} {t : Token} (visible : isBlank c = false)
    (read : Token.scan? c cs = some (t, rest)) :
    tokens? (c :: cs) = (tokens? rest).map (t :: ·) := by
  rw [tokens?, visible]
  simp only [Bool.false_eq_true, if_false]
  split
  · rename_i unread
    rw [read] at unread
    cases unread
  · rename_i u others reads
    rw [read] at reads
    cases reads
    rfl

theorem tokens?_plain {t : Token} (plain : t.Plain) (rest : List Char) :
    tokens? (t.text ++ rest) = (tokens? rest).map (t :: ·) := by
  cases plain with
  | string s =>
    apply tokens?_of_scan? (by decide)
    have scanned : scanString? (encode s ++ ['"'] ++ rest) = some (encode s, rest) := by
      rw [List.append_assoc]
      exact scanString?_encode s rest
    change (scanString? (encode s ++ ['"'] ++ rest)).map _ = _
    rw [scanned]
    rfl
  | boolean b => cases b <;> exact tokens?_of_scan? (by decide) rfl
  | _ => exact tokens?_of_scan? (by decide) rfl

theorem tokens?_toDigits (n : Nat) (rest : List Char) :
    tokens? (Nat.toDigits 10 n ++ ',' :: rest) =
      (tokens? (',' :: rest)).map (.number (Nat.toDigits 10 n) :: ·) := by
  obtain ⟨c, digits, starts, digit⟩ := toDigits_eq_cons n
  have scanned := scanNumber?_toDigits n rest
  rw [starts, List.cons_append] at scanned ⊢
  have other (d : Char) (noDigit : d.isDigit = false) : c ≠ d := by
    rintro rfl
    exact absurd (digit.symm.trans noDigit) (by decide)
  apply tokens?_of_scan?
  · simp [isBlank, other ' ' rfl, other '\t' rfl, other '\n' rfl, other '\r' rfl]
  · simp [Token.scan?, scanned, other '"' rfl, other ',' rfl, other ':' rfl, other '[' rfl,
      other ']' rfl, other '\x7b' rfl, other '\x7d' rfl, (other 'n' rfl).symm, (other 't' rfl).symm,
      (other 'f' rfl).symm]

theorem tokens?_flatMap {ts : List Token} (legible : Legible ts) :
    tokens? (ts.flatMap Token.text) = some ts := by
  induction legible with
  | nil => simp [tokens?]
  | plain plain _ ih => rw [List.flatMap_cons, tokens?_plain plain, ih, Option.map_some]
  | @number n ts _ ih =>
    rw [List.flatMap_cons] at ih ⊢
    exact (tokens?_toDigits n _).trans (congrArg (Option.map _) ih)

/-- The tokens are taken for the value wherever one is expected. -/
def Writes (ts : List Token) (v : Value) : Prop :=
  ∀ orEnd stack rest, run stack (.value orEnd) (ts ++ rest) = run stack (.next v) rest

theorem Writes.null : Writes [.null] .null := fun _ _ _ => rfl

theorem Writes.number (text : List Char) : Writes [.number text] (.number text) := fun _ _ _ => rfl

theorem Writes.string (raw : List Char) : Writes [.string raw] (.string raw) := fun _ _ _ => rfl

def separated (parts : List (List Token)) : List Token := [.comma].intercalate parts

theorem separated_cons_append (part : List Token) (parts : List (List Token)) (rest : List Token) :
    separated (part :: parts) ++ rest = part ++ (parts.flatMap (.comma :: ·) ++ rest) := by
  induction parts generalizing part with
  | nil => simp [separated]
  | cons next parts ih =>
    have := ih next
    simp_all [separated, List.intercalate_cons_cons]

theorem separated_text (parts : List (List Token)) :
    (separated parts).flatMap Token.text =
      [','].intercalate (parts.map fun part => part.flatMap Token.text) := by
  induction parts with
  | nil => rfl
  | cons part parts ih =>
    cases parts with
    | nil => simp [separated]
    | cons next parts =>
      rw [separated] at ih ⊢
      rw [List.intercalate_cons_cons, List.map_cons, List.map_cons, List.intercalate_cons_cons,
        List.flatMap_append, List.flatMap_append, ih]
      rfl

theorem commas_plain {parts : List (List Token)} (plain : ∀ part ∈ parts, ∀ t ∈ part, t.Plain) :
    ∀ t ∈ parts.flatMap (.comma :: ·), t.Plain := by
  intro t member
  obtain ⟨part, listed, member⟩ := List.mem_flatMap.1 member
  rcases List.mem_cons.1 member with rfl | member
  · exact .comma
  · exact plain part listed t member

theorem separated_plain {parts : List (List Token)} (plain : ∀ part ∈ parts, ∀ t ∈ part, t.Plain) :
    ∀ t ∈ separated parts, t.Plain := by
  cases parts with
  | nil => simp [separated]
  | cons part parts =>
    have cut := separated_cons_append part parts []
    rw [List.append_nil, List.append_nil] at cut
    intro t member
    rw [cut, List.mem_append] at member
    rcases member with first | later
    · exact plain part List.mem_cons_self t first
    · exact commas_plain (fun other listed => plain other (.tail _ listed)) t later

def arrayTokens (items : List (List Token)) : List Token :=
  .openArray :: separated items ++ [.closeArray]

def memberTokens (member : List Char × List Token) : List Token :=
  .string member.1 :: .colon :: member.2

def objectTokens (members : List (List Char × List Token)) : List Token :=
  .openObject :: separated (members.map memberTokens) ++ [.closeObject]

theorem run_items {parts : List (List Token)} {items : List Value}
    (write : List.Forall₂ Writes parts items) (stack : List Open) (done : Value)
    (before : List Value) (rest : List Token) :
    run (.array before :: stack) (.next done)
        (parts.flatMap (.comma :: ·) ++ .closeArray :: rest) =
      run stack (.next (.array (before.reverse ++ done :: items))) rest := by
  induction write generalizing before done with
  | nil => simp [run]
  | cons first _ ih =>
    rw [List.flatMap_cons, List.cons_append, List.cons_append, List.append_assoc]
    refine (first false _ _).trans ((ih _ _).trans ?_)
    simp

theorem Writes.array {parts : List (List Token)} {items : List Value}
    (write : List.Forall₂ Writes parts items) : Writes (arrayTokens parts) (.array items) := by
  intro orEnd stack rest
  cases write with
  | nil => rfl
  | cons first others =>
    rw [arrayTokens, List.cons_append, List.cons_append, List.append_assoc, separated_cons_append]
    refine (first true _ _).trans ?_
    exact run_items others stack _ [] rest

theorem run_members {parts : List (List Char × List Token)} {members : List (List Char × Value)}
    (write : List.Forall₂ (fun p m => p.1 = m.1 ∧ Writes p.2 m.2) parts members)
    (stack : List Open) (name : List Char) (done : Value) (before : List (List Char × Value))
    (rest : List Token) :
    run (.object name before :: stack) (.next done)
        ((parts.map memberTokens).flatMap (.comma :: ·) ++ .closeObject :: rest) =
      run stack (.next (.object (before.reverse ++ (name, done) :: members))) rest := by
  induction write generalizing before name done with
  | nil => simp [run]
  | @cons p m _ _ first _ ih =>
    obtain ⟨_, part⟩ := p
    obtain ⟨name', value⟩ := m
    obtain ⟨rfl, first⟩ := first
    rw [List.map_cons, List.flatMap_cons, List.cons_append, List.cons_append, List.append_assoc]
    refine (first false _ _).trans ((ih _ _ _).trans ?_)
    simp

theorem Writes.object {parts : List (List Char × List Token)} {members : List (List Char × Value)}
    (write : List.Forall₂ (fun p m => p.1 = m.1 ∧ Writes p.2 m.2) parts members) :
    Writes (objectTokens parts) (.object members) := by
  intro orEnd stack rest
  cases write with
  | nil => rfl
  | @cons p m _ _ first others =>
    obtain ⟨_, part⟩ := p
    obtain ⟨name, value⟩ := m
    obtain ⟨rfl, first⟩ := first
    rw [objectTokens, List.cons_append, List.cons_append, List.append_assoc, List.map_cons,
      separated_cons_append]
    refine (first false _ _).trans ?_
    exact run_members others stack _ _ [] rest

theorem parse?_written {ts : List Token} {v : Value} (legible : Legible ts) (writes : Writes ts v) :
    parse? (String.ofList (ts.flatMap Token.text)) = some v := by
  have ran := writes false [] []
  rw [List.append_nil] at ran
  rw [parse?, String.toList_ofList, tokens?_flatMap legible]
  exact ran

end KeySubst.Json

import KeySubst.Matcher.Basic
import KeySubst.Proofs.Text.Bytes

/-!
# Which keys a text holds

What the matches of a text are, told from the keys and the text alone: nothing here searches for a
pattern, ranks keys or falls back.
-/

namespace KeySubst

def whiteSpace : List Char :=
  ['\t', '\n', '\x0b', '\x0c', '\r', ' ', '\u00a0', '\u1680', '\u2000', '\u2001', '\u2002',
    '\u2003', '\u2004', '\u2005', '\u2006', '\u2007', '\u2008', '\u2009', '\u200a', '\u2028',
    '\u2029', '\u202f', '\u205f', '\u3000', '\ufeff']

/-- A text begins as behind the target of an assignment: with white space, an `=` and a character
other than that. -/
def Assigns (after : String) : Prop :=
  ∃ blanks c rest, after.toList = blanks ++ '=' :: c :: rest ∧
    (∀ blank ∈ blanks, blank ∈ whiteSpace) ∧ c ≠ '='

def MatchOptions.spelling (options : MatchOptions) (key : String) : String :=
  match options.delimiters with
  | some (opening, closing) => opening ++ key ++ closing
  | none => key

/-- A key that may be replaced between two offsets of a text. -/
def Acceptable (options : MatchOptions) (text : String) (found : Match) : Prop :=
  ∃ before after : String, text = before ++ options.spelling found.key ++ after ∧
    found.start = before.utf8ByteSize ∧
    found.stop = found.start + (options.spelling found.key).utf8ByteSize ∧
    (options.delimiters = none →
      Text.isByteEdge text found.start = true ∧ Text.isByteEdge text found.stop = true) ∧
    (options.preventAssignment = true → ¬ Assigns after)

/-- Of the acceptable keys from an offset on, the longest of those that start first. -/
structure Foremost (options : MatchOptions) (keys : List String) (text : String) (offset : Nat)
    (found : Match) : Prop where
  known : found.key ∈ keys
  acceptable : Acceptable options text found
  ahead : offset ≤ found.start
  first : ∀ other : Match, other.key ∈ keys → Acceptable options text other →
    offset ≤ other.start → found.start ≤ other.start
  longest : ∀ other : Match, other.key ∈ keys → Acceptable options text other →
    other.start = found.start → other.key.utf8ByteSize ≤ found.key.utf8ByteSize

/-- The matches from an offset on: the foremost key, and then the matches from its end on. -/
inductive Leftmost (options : MatchOptions) (keys : List String) (text : String) :
    Nat → List Match → Prop
  | done {offset : Nat} (absent : ∀ found : Match, found.key ∈ keys →
      Acceptable options text found → found.start < offset) : Leftmost options keys text offset []
  | found {offset : Nat} {found : Match} {others : List Match}
      (foremost : Foremost options keys text offset found)
      (rest : Leftmost options keys text found.stop others) :
      Leftmost options keys text offset (found :: others)

section

variable {options : MatchOptions} {keys : List String} {text : String}

theorem MatchOptions.utf8ByteSize_spelling (options : MatchOptions) (key : String) :
    (options.spelling key).utf8ByteSize =
      key.utf8ByteSize + (options.spelling "").utf8ByteSize := by
  unfold spelling
  split
  · simp only [String.utf8ByteSize_append, String.utf8ByteSize_empty]
    omega
  · simp

theorem MatchOptions.spelling_injective {options : MatchOptions} {k l : String}
    (same : options.spelling k = options.spelling l) : k = l := by
  unfold spelling at same
  split at same
  · simpa [← String.toList_inj, String.toList_append] using same
  · exact same

theorem Acceptable.key_eq {a b : Match} (left : Acceptable options text a)
    (right : Acceptable options text b) (start : a.start = b.start)
    (size : a.key.utf8ByteSize = b.key.utf8ByteSize) : a = b := by
  obtain ⟨before, after, split, begins, ends, -⟩ := left
  obtain ⟨before', after', split', begins', ends', -⟩ := right
  have spelled : (options.spelling a.key).utf8ByteSize = (options.spelling b.key).utf8ByteSize := by
    rw [options.utf8ByteSize_spelling a.key, options.utf8ByteSize_spelling b.key, size]
  rw [split, ← String.toList_inj] at split'
  simp only [String.toList_append, List.append_assoc] at split'
  obtain ⟨-, behind⟩ := Text.eq_of_append_eq_append split' (by
    rw [Text.byteSize_toList, Text.byteSize_toList, ← begins, ← begins', start])
  obtain ⟨same, -⟩ := Text.eq_of_append_eq_append behind (by
    rw [Text.byteSize_toList, Text.byteSize_toList, spelled])
  have key := MatchOptions.spelling_injective (String.toList_inj.1 same)
  have stop : a.stop = b.stop := by rw [ends, ends', spelled, start]
  cases a
  cases b
  simp_all

theorem Acceptable.start_lt_stop {found : Match} (acceptable : Acceptable options text found)
    (nonempty : found.key ≠ "") : found.start < found.stop := by
  obtain ⟨-, -, -, -, ends, -⟩ := acceptable
  have := options.utf8ByteSize_spelling found.key
  have : found.key.utf8ByteSize ≠ 0 := fun zero => nonempty (String.utf8ByteSize_eq_zero_iff.1 zero)
  omega

theorem Acceptable.stop_le {found : Match} (acceptable : Acceptable options text found) :
    found.stop ≤ text.utf8ByteSize := by
  obtain ⟨before, after, split, begins, ends, -⟩ := acceptable
  rw [split, ends, begins, String.utf8ByteSize_append, String.utf8ByteSize_append]
  exact Nat.le_add_right _ _

theorem Acceptable.begins {found : Match} {before rest : List Char}
    (acceptable : Acceptable options text found) (split : text.toList = before ++ rest)
    (start : found.start = Text.byteSize before) :
    ∃ after, rest = (options.spelling found.key).toList ++ after ∧
      found.stop = Text.byteSize (before ++ (options.spelling found.key).toList) := by
  obtain ⟨before', after, same, begins, ends, -⟩ := acceptable
  rw [← String.toList_inj, split] at same
  simp only [String.toList_append, List.append_assoc] at same
  obtain ⟨-, behind⟩ := Text.eq_of_append_eq_append same (by
    rw [Text.byteSize_toList, ← begins, start])
  exact ⟨after.toList, behind, by rw [ends, start]; simp⟩

theorem Acceptable.starts {found : Match} {before rest : List Char}
    (acceptable : Acceptable options text found) (split : text.toList = before ++ rest)
    (ahead : Text.byteSize before ≤ found.start) :
    ∃ mid after, rest = mid ++ after ∧ found.start = Text.byteSize (before ++ mid) := by
  obtain ⟨before', after, same, begins, -⟩ := acceptable
  rw [← String.toList_inj, split] at same
  simp only [String.toList_append, List.append_assoc] at same
  obtain ⟨mid, longer, behind⟩ := Text.prefix_of_append_eq_append same (by
    rwa [Text.byteSize_toList, ← begins])
  exact ⟨mid, _, behind, by rw [begins, ← longer, Text.byteSize_toList]⟩

theorem not_assigns_empty : ¬ Assigns "" := by
  rintro ⟨blanks, c, rest, empty, -⟩
  simp at empty

theorem Acceptable.of_spelling (options : MatchOptions) (key : String)
    (edges : options.delimiters = none → Text.isByteEdge (options.spelling key) 0 = true ∧
      Text.isByteEdge (options.spelling key) (options.spelling key).utf8ByteSize = true) :
    Acceptable options (options.spelling key)
      ⟨0, (options.spelling key).utf8ByteSize, key⟩ :=
  ⟨"", "", by simp, rfl, (Nat.zero_add _).symm, edges, fun _ => not_assigns_empty⟩

theorem Foremost.unique {offset : Nat} {a b : Match} (left : Foremost options keys text offset a)
    (right : Foremost options keys text offset b) : a = b := by
  have start : a.start = b.start := Nat.le_antisymm
    (left.first b right.known right.acceptable right.ahead)
    (right.first a left.known left.acceptable left.ahead)
  exact left.acceptable.key_eq right.acceptable start (Nat.le_antisymm
    (right.longest a left.known left.acceptable start)
    (left.longest b right.known right.acceptable start.symm))

theorem Foremost.congr {keys' : List String} {offset : Nat} {found : Match}
    (foremost : Foremost options keys text offset found) (same : ∀ key, key ∈ keys ↔ key ∈ keys') :
    Foremost options keys' text offset found where
  known := (same _).1 foremost.known
  acceptable := foremost.acceptable
  ahead := foremost.ahead
  first := fun other known => foremost.first other ((same _).2 known)
  longest := fun other known => foremost.longest other ((same _).2 known)

namespace Leftmost

theorem congr {keys' : List String} {offset : Nat} {all : List Match}
    (matched : Leftmost options keys text offset all) (same : ∀ key, key ∈ keys ↔ key ∈ keys') :
    Leftmost options keys' text offset all := by
  induction matched with
  | done absent => exact .done fun found known => absent found ((same _).2 known)
  | found foremost _ ih => exact .found (foremost.congr same) ih

theorem unique {offset : Nat} {a b : List Match} (left : Leftmost options keys text offset a)
    (right : Leftmost options keys text offset b) : a = b := by
  induction left generalizing b with
  | done absent =>
    cases right with
    | done => rfl
    | found foremost =>
      exact absurd foremost.ahead
        (Nat.not_le.2 (absent _ foremost.known foremost.acceptable))
  | found foremost _ ih =>
    cases right with
    | done absent =>
      exact absurd foremost.ahead
        (Nat.not_le.2 (absent _ foremost.known foremost.acceptable))
    | found foremost' rest' =>
      obtain rfl := foremost.unique foremost'
      rw [ih rest']

theorem earlier {offset start : Nat} {all : List Match}
    (matched : Leftmost options keys text offset all) (le : start ≤ offset)
    (absent : ∀ found : Match, found.key ∈ keys → Acceptable options text found →
      start ≤ found.start → offset ≤ found.start) :
    Leftmost options keys text start all := by
  cases matched with
  | done none =>
    apply Leftmost.done
    intro found known acceptable
    have := none found known acceptable
    have := absent found known acceptable
    omega
  | found foremost rest =>
    refine .found { foremost with ahead := Nat.le_trans le foremost.ahead, first := ?_ } rest
    intro other known acceptable ahead
    exact foremost.first other known acceptable (absent other known acceptable ahead)

theorem acceptable {offset : Nat} {all : List Match}
    (matched : Leftmost options keys text offset all) :
    ∀ found ∈ all, found.key ∈ keys ∧ Acceptable options text found := by
  induction matched with
  | done => simp
  | found foremost _ ih =>
    intro other member
    rcases List.mem_cons.1 member with rfl | member
    · exact ⟨foremost.known, foremost.acceptable⟩
    · exact ih other member

theorem ahead {offset : Nat} {all : List Match} (matched : Leftmost options keys text offset all) :
    ∀ found ∈ all, offset ≤ found.start := by
  induction matched with
  | done => simp
  | found foremost _ ih =>
    intro other member
    rcases List.mem_cons.1 member with rfl | member
    · exact foremost.ahead
    · obtain ⟨-, -, -, -, stop, -⟩ := foremost.acceptable
      have later := ih other member
      have first := foremost.ahead
      omega

theorem ordered {offset : Nat} {all : List Match} (matched : Leftmost options keys text offset all) :
    all.Pairwise fun a b => a.stop ≤ b.start := by
  induction matched with
  | done => exact .nil
  | found _ rest ih => exact .cons rest.ahead ih

/-- An acceptable key that starts at an offset or after it starts within a match. -/
theorem covers {offset : Nat} {all : List Match}
    (matched : Leftmost options keys text offset all) {other : Match}
    (known : other.key ∈ keys) (acceptable : Acceptable options text other)
    (ahead : offset ≤ other.start) :
    ∃ found ∈ all, found.start ≤ other.start ∧ other.start < found.stop := by
  induction matched with
  | done absent => exact absurd ahead (Nat.not_le.2 (absent other known acceptable))
  | @found offset found others foremost _ ih =>
    by_cases within : other.start < found.stop
    · exact ⟨found, List.mem_cons_self, foremost.first other known acceptable ahead, within⟩
    · obtain ⟨inside, member, spans⟩ := ih (Nat.not_lt.1 within)
      exact ⟨inside, List.mem_cons_of_mem _ member, spans⟩

theorem of_spelling {key : String} (nonempty : ∀ key ∈ keys, key ≠ "") (known : key ∈ keys)
    (acceptable : Acceptable options (options.spelling key)
      ⟨0, (options.spelling key).utf8ByteSize, key⟩) :
    Leftmost options keys (options.spelling key) 0
      [⟨0, (options.spelling key).utf8ByteSize, key⟩] := by
  refine .found ⟨known, acceptable, Nat.le_refl _, fun _ _ _ _ => Nat.zero_le _, ?_⟩ (.done ?_)
  · intro other _ fits start
    have stop := fits.stop_le
    obtain ⟨-, -, -, -, ends, -⟩ := fits
    have left := options.utf8ByteSize_spelling other.key
    have right := options.utf8ByteSize_spelling key
    simp only at start ⊢
    omega
  · intro other member fits
    exact Nat.lt_of_lt_of_le (fits.start_lt_stop (nonempty _ member)) fits.stop_le

end Leftmost

end

end KeySubst

import KeySubst.Error
import KeySubst.Pattern.Search
import KeySubst.Table.Basic
import KeySubst.Text.Assignment

/-!
# Matchers

Keys are found from left to right and the longest first. A key that may not be replaced where it
stands gives way to shorter ones at the same place before the scan moves on.
-/

namespace KeySubst

open Text (Cursor)

structure MatchOptions where
  /-- Texts that must surround a key; without them it must be a whole word. -/
  delimiters : Option (String × String) := none
  preventAssignment : Bool := true
  deriving DecidableEq, Repr

def MatchOptions.frame (options : MatchOptions) : Frame :=
  match options.delimiters with
  | some (opening, closing) => .delimited opening closing
  | none => .word

/-- A key found between two offsets that take in its delimiters. -/
structure Match where
  start : Nat
  stop : Nat
  key : String
  deriving DecidableEq, Repr

structure Matcher (σ : Type) where
  pattern : Pattern
  rank : Std.HashMap String Nat
  table : Table σ
  preventAssignment : Bool

namespace Matcher

variable {σ : Type}

/-- Makes a matcher unless a key is empty. That the engine refuses the pattern of the keys, as for
its size, is left out. -/
def compile (table : Table σ) (options : MatchOptions) : Except Error (Matcher σ) :=
  if table.keys.any String.isEmpty then .error .emptyKey
  else
    let keys := Pattern.longestFirst table.keys
    .ok
      { pattern := { keys, frame := options.frame }
        rank := Std.HashMap.ofList keys.zipIdx
        table := table
        preventAssignment := options.preventAssignment }

def keys (m : Matcher σ) : List String := m.pattern.keys

def isEmpty (m : Matcher σ) : Bool := m.keys.isEmpty

def replacement? (m : Matcher σ) (key : String) : Option (Replacement σ) := m.table.get? key

def accepts (m : Matcher σ) (stop : Cursor) : Bool :=
  !(m.preventAssignment && Text.startsAssignment stop.rest)

/-- The hit itself or, among the keys of lower rank, the first that stands there and is accepted. -/
def choose? (m : Matcher σ) (hit : Hit) (rank : Nat) : Option Hit :=
  if m.accepts hit.stop then some hit
  else m.pattern.frame.firstOf? (m.pattern.spelled.drop (rank + 1)) m.accepts hit.start

structure Round where
  found : Option Match
  next : Option Cursor

/-- The scan goes on where the key ends, or one character after the start of the hit if none is
accepted. -/
def round? (m : Matcher σ) (c : Cursor) : Option Round :=
  match m.pattern.search? c with
  | none => none
  | some hit =>
    match m.rank[hit.key]? with
    | none => none
    | some rank =>
      match m.choose? hit rank with
      | none => some ⟨none, hit.start.next?⟩
      | some chosen =>
        some
          { found := some ⟨hit.start.offset, chosen.stop.offset, chosen.key⟩
            next := if hit.start.offset < chosen.stop.offset then some chosen.stop
              else hit.start.next? }

theorem choose?_stop {m : Matcher σ} {hit chosen : Hit} {rank : Nat}
    (stands : m.pattern.frame.stop? hit.key.toList hit.start = some hit.stop)
    (choice : m.choose? hit rank = some chosen) :
    m.accepts chosen.stop = true ∧
      ∃ chars, m.pattern.frame.stop? chars hit.start = some chosen.stop := by
  unfold choose? at choice
  split at choice
  · rename_i accepted
    obtain rfl := Option.some.inj choice
    exact ⟨accepted, _, stands⟩
  · obtain ⟨-, accepted, chars, -, stops⟩ := Frame.firstOf?_start choice
    exact ⟨accepted, chars, stops⟩

theorem round?_shorter {m : Matcher σ} {c next : Cursor} {found : Option Match}
    (made : m.round? c = some ⟨found, some next⟩) : next.rest.length < c.rest.length := by
  unfold round? at made
  split at made
  · simp at made
  rename_i hit search
  obtain ⟨le, stops⟩ := Pattern.search?_start search
  split at made
  · simp at made
  split at made
  · simp only [Option.some.injEq, Round.mk.injEq] at made
    exact Nat.lt_of_lt_of_le (Cursor.next?_rest made.2) le
  · rename_i chosen choice
    simp only [Option.some.injEq, Round.mk.injEq] at made
    obtain ⟨-, resumed⟩ := made
    split at resumed
    · rename_i moved
      obtain rfl := Option.some.inj resumed
      obtain ⟨-, chars, stops'⟩ := choose?_stop stops choice
      exact Nat.lt_of_lt_of_le (Frame.stop?_shorter stops' moved) le
    · exact Nat.lt_of_lt_of_le (Cursor.next?_rest resumed) le

def scan (m : Matcher σ) (c : Cursor) : List Match :=
  match _made : m.round? c with
  | none => []
  | some ⟨found, none⟩ => found.toList
  | some ⟨found, some next⟩ => found.toList ++ m.scan next
termination_by c.rest.length
decreasing_by exact round?_shorter _made

def find (m : Matcher σ) (text : String) : List Match :=
  if m.isEmpty then [] else m.scan (Cursor.start text.toList)

end Matcher

end KeySubst

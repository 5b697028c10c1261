import KeySubst.Pattern.Basic
import KeySubst.Text.Cursor

/-!
# Searching for a pattern

A search finds the first place where any key stands, and there the most preferred one.
`Pattern.hitAt?_eq` says which that is in terms of the keys alone.
-/

namespace KeySubst

open Text (Cursor)

namespace Frame

def enter? (f : Frame) (c : Cursor) : Option Cursor :=
  match f with
  | .word => if c.atWordEdge then some c else none
  | .delimited opening _ => c.read? opening.toList

def leave? (f : Frame) (c : Cursor) : Option Cursor :=
  match f with
  | .word => if c.atWordEdge then some c else none
  | .delimited _ closing => c.read? closing.toList

def stop? (f : Frame) (key : List Char) (c : Cursor) : Option Cursor := do
  let inner ← f.enter? c
  let last ← inner.read? key
  f.leave? last

end Frame

structure Hit where
  start : Cursor
  key : String
  stop : Cursor
  deriving DecidableEq, Repr

/-- The first of some keys that stands at a place and ends where it may. -/
def Frame.firstOf? (f : Frame) (keys : List Spelled) (may : Cursor → Bool) (c : Cursor) :
    Option Hit :=
  match f.enter? c with
  | none => none
  | some inner =>
    keys.findSome? fun (key, chars) =>
      (((inner.read? chars).bind f.leave?).filter may).map (⟨c, key, ·⟩)

namespace Pattern

def hitAt? (p : Pattern) (c : Cursor) : Option Hit := p.frame.firstOf? p.spelled (fun _ => true) c

def search? (p : Pattern) (c : Cursor) : Option Hit := go c.before c.offset c.rest
where
  go (before : Option Char) (offset : Nat) (rest : List Char) : Option Hit :=
    match p.hitAt? ⟨before, offset, rest⟩ with
    | some hit => some hit
    | none =>
      match rest with
      | [] => none
      | d :: rest => go (some d) (offset + d.utf8Size) rest

end Pattern

namespace Frame

theorem firstOf?_eq (f : Frame) (keys : List Spelled) (may : Cursor → Bool) (c : Cursor) :
    f.firstOf? keys may c =
      keys.findSome? fun (key, chars) => ((f.stop? chars c).filter may).map (⟨c, key, ·⟩) := by
  unfold firstOf? stop?
  cases f.enter? c with
  | none => exact (List.findSome?_eq_none_iff.2 fun _ _ => rfl).symm
  | some inner => rfl

theorem firstOf?_start {f : Frame} {keys : List Spelled} {may : Cursor → Bool} {c : Cursor}
    {hit : Hit} (found : f.firstOf? keys may c = some hit) :
    hit.start = c ∧ may hit.stop = true ∧
      ∃ chars, (hit.key, chars) ∈ keys ∧ f.stop? chars c = some hit.stop := by
  rw [firstOf?_eq] at found
  obtain ⟨⟨key, chars⟩, member, stands⟩ := List.exists_of_findSome?_eq_some found
  obtain ⟨stop, stops, rfl⟩ := Option.map_eq_some_iff.1 stands
  obtain ⟨stops, allowed⟩ := Option.filter_eq_some_iff.1 stops
  exact ⟨rfl, allowed, chars, member, stops⟩

end Frame

theorem Pattern.hitAt?_eq (p : Pattern) (c : Cursor) :
    p.hitAt? c =
      p.keys.findSome? fun key => (p.frame.stop? key.toList c).map fun stop => ⟨c, key, stop⟩ := by
  rw [hitAt?, Frame.firstOf?_eq, p.spelled_eq, spell, List.findSome?_map]
  congr 1
  funext key
  simp only [Function.comp_apply]
  cases p.frame.stop? key.toList c <;> rfl

namespace Frame

theorem enter?_eq_pass {f : Frame} {c d : Cursor} (enters : f.enter? c = some d) :
    ∃ w, c.rest = w ++ d.rest ∧ d = c.pass w d.rest := by
  cases f with
  | word =>
    simp only [enter?, Option.ite_none_right_eq_some, Option.some.injEq] at enters
    obtain ⟨-, rfl⟩ := enters
    exact ⟨[], rfl, by simp⟩
  | delimited opening closing =>
    obtain ⟨rest, split, rfl⟩ := Cursor.read?_eq_some_iff.1 enters
    exact ⟨_, split, rfl⟩

theorem leave?_eq_pass {f : Frame} {c d : Cursor} (leaves : f.leave? c = some d) :
    ∃ w, c.rest = w ++ d.rest ∧ d = c.pass w d.rest := by
  cases f with
  | word =>
    simp only [leave?, Option.ite_none_right_eq_some, Option.some.injEq] at leaves
    obtain ⟨-, rfl⟩ := leaves
    exact ⟨[], rfl, by simp⟩
  | delimited opening closing =>
    obtain ⟨rest, split, rfl⟩ := Cursor.read?_eq_some_iff.1 leaves
    exact ⟨_, split, rfl⟩

theorem stop?_eq_pass {f : Frame} {key : List Char} {c d : Cursor}
    (stops : f.stop? key c = some d) : ∃ w, c.rest = w ++ d.rest ∧ d = c.pass w d.rest := by
  simp only [stop?, Option.bind_eq_bind, Option.bind_eq_some_iff] at stops
  obtain ⟨inner, enters, last, read, leaves⟩ := stops
  obtain ⟨u, hu, inner_eq⟩ := enter?_eq_pass enters
  obtain ⟨rest, hv, last_eq⟩ := Cursor.read?_eq_some_iff.1 read
  obtain ⟨w, hw, d_eq⟩ := leave?_eq_pass leaves
  rw [last_eq, Cursor.pass_rest] at hw
  refine ⟨u ++ key ++ w, by rw [hu, hv, hw]; simp, ?_⟩
  rw [d_eq, last_eq, inner_eq]
  simp

theorem stop?_shorter {f : Frame} {key : List Char} {c d : Cursor}
    (stops : f.stop? key c = some d) (moved : c.offset < d.offset) :
    d.rest.length < c.rest.length := by
  obtain ⟨w, split, pass⟩ := stop?_eq_pass stops
  cases w with
  | nil => rw [pass] at moved; simp at moved
  | cons x w =>
    rw [split]
    simp only [List.cons_append, List.length_cons, List.length_append]
    omega

end Frame

namespace Pattern

theorem hitAt?_start {p : Pattern} {c : Cursor} {hit : Hit} (found : p.hitAt? c = some hit) :
    hit.start = c ∧ p.frame.stop? hit.key.toList c = some hit.stop := by
  rw [hitAt?_eq] at found
  obtain ⟨key, -, stands⟩ := List.exists_of_findSome?_eq_some found
  obtain ⟨stop, stops, rfl⟩ := Option.map_eq_some_iff.1 stands
  exact ⟨rfl, stops⟩

theorem search?_go_start {p : Pattern} {before : Option Char} {offset : Nat} {rest : List Char}
    {hit : Hit} (found : search?.go p before offset rest = some hit) :
    hit.start.rest.length ≤ rest.length ∧
      p.frame.stop? hit.key.toList hit.start = some hit.stop := by
  induction rest generalizing before offset with
  | nil =>
    unfold search?.go at found
    split at found
    · obtain rfl := Option.some.inj found
      rename_i h
      obtain ⟨start, stop⟩ := hitAt?_start h
      exact ⟨by simp [start], start ▸ stop⟩
    · simp at found
  | cons d rest ih =>
    unfold search?.go at found
    split at found
    · obtain rfl := Option.some.inj found
      rename_i h
      obtain ⟨start, stop⟩ := hitAt?_start h
      exact ⟨by simp [start], start ▸ stop⟩
    · obtain ⟨le, stop⟩ := ih found
      exact ⟨Nat.le_succ_of_le le, stop⟩

theorem search?_start {p : Pattern} {c : Cursor} {hit : Hit} (found : p.search? c = some hit) :
    hit.start.rest.length ≤ c.rest.length ∧
      p.frame.stop? hit.key.toList hit.start = some hit.stop :=
  search?_go_start found

end Pattern

end KeySubst

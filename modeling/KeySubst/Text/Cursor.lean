import KeySubst.Text.CharClass
import KeySubst.Text.Size

/-!
# A place in a text

A cursor stands between two characters of a text and knows the character before it, its offset and
all that follows.
-/

namespace KeySubst.Text

structure Cursor where
  before : Option Char
  offset : Nat
  rest : List Char
  deriving DecidableEq, Repr

namespace Cursor

def start (text : List Char) : Cursor := ⟨none, 0, text⟩

def next? (c : Cursor) : Option Cursor :=
  match c.rest with
  | [] => none
  | d :: rest => some ⟨some d, c.offset + d.utf8Size, rest⟩

def atWordEdge (c : Cursor) : Bool := isWordEdge c.before c.rest.head?

def pass (c : Cursor) (w rest : List Char) : Cursor :=
  ⟨w.getLast?.or c.before, c.offset + byteSize w, rest⟩

def read? (c : Cursor) (w : List Char) : Option Cursor :=
  if w.isPrefixOf c.rest then some (c.pass w (c.rest.drop w.length)) else none

@[simp] theorem pass_rest (c : Cursor) (w rest : List Char) : (c.pass w rest).rest = rest := rfl

@[simp] theorem pass_offset (c : Cursor) (w rest : List Char) :
    (c.pass w rest).offset = c.offset + byteSize w := rfl

@[simp] theorem pass_nil (c : Cursor) : c.pass [] c.rest = c := by simp [pass]

@[simp] theorem pass_pass (c : Cursor) (v w mid rest : List Char) :
    (c.pass v mid).pass w rest = c.pass (v ++ w) rest := by
  simp only [pass, byteSize_append, Nat.add_assoc, List.getLast?_append, Option.or_assoc]

theorem read?_eq_some_iff {c d : Cursor} {w : List Char} :
    c.read? w = some d ↔ ∃ rest, c.rest = w ++ rest ∧ d = c.pass w rest := by
  unfold read?
  split
  · rename_i follows
    obtain ⟨rest, split⟩ := List.isPrefixOf_iff_prefix.1 follows
    simp only [← split, List.drop_left, Option.some.injEq, List.append_cancel_left_eq]
    exact ⟨fun h => ⟨rest, rfl, h.symm⟩, fun ⟨_, same, h⟩ => by rw [h, same]⟩
  · rename_i differs
    simp only [reduceCtorEq, false_iff, not_exists, not_and]
    intro rest split
    exact absurd (List.isPrefixOf_iff_prefix.2 ⟨rest, split.symm⟩) differs

theorem next?_rest {c d : Cursor} (moved : c.next? = some d) : d.rest.length < c.rest.length := by
  unfold next? at moved
  split at moved
  · simp at moved
  · rename_i h
    obtain rfl := Option.some.inj moved
    simp [h]

end Cursor

end KeySubst.Text

import KeySubst.Proofs.Text.Location
import KeySubst.SourceMap.Layout

/-!
# Lines of mappings

Marked text is laid out one character after the other, and `Layout.Of` is what holds after each of
them.
-/

namespace KeySubst

open Text (positionAfter)

def Mappings.Has (ms : Mappings) (line : Nat) (m : Mapping) : Prop :=
  ∃ found, ms[line]? = some found ∧ m ∈ found

/-- Marks call for a mapping on a line: at the column of a marked character, to its mark. -/
def Mark.Call (marks : List Mark) (line : Nat) (m : Mapping) : Prop :=
  ∃ before c p after, marks = before ++ (c, some p) :: after ∧ c ≠ '\n' ∧
    positionAfter (before.map Prod.fst) = ⟨line, m.column⟩ ∧ m = ⟨m.column, 0, p.line, p.column⟩

namespace Mappings

theorem has_append_empty (ms : Mappings) (line : Nat) (m : Mapping) :
    (ms ++ [[]]).Has line m ↔ ms.Has line m := by
  unfold Has
  rw [List.getElem?_append]
  split
  · exact Iff.rfl
  · rename_i outside
    rw [List.getElem?_eq_none (Nat.not_lt.1 outside), List.getElem?_singleton]
    split <;> simp

theorem has_append_line (ms : Mappings) (first : List Mapping) (added : Mapping) (line : Nat)
    (m : Mapping) :
    (ms ++ [first ++ [added]]).Has line m ↔
      (ms ++ [first]).Has line m ∨ (line = ms.length ∧ m = added) := by
  unfold Has
  rw [List.getElem?_append, List.getElem?_append]
  split
  · rename_i inside
    simp [Nat.ne_of_lt inside]
  · rename_i outside
    rw [List.getElem?_singleton, List.getElem?_singleton]
    split
    · have last : line = ms.length := by omega
      simp [last]
    · have past : line ≠ ms.length := by omega
      simp [past]

end Mappings

namespace Mark

theorem call_concat (marks : List Mark) (mark : Mark) (line : Nat) (m : Mapping) :
    Call (marks ++ [mark]) line m ↔
      Call marks line m ∨ ∃ p, mark.2 = some p ∧ mark.1 ≠ '\n' ∧
        positionAfter (marks.map Prod.fst) = ⟨line, m.column⟩ ∧
        m = ⟨m.column, 0, p.line, p.column⟩ := by
  constructor
  · rintro ⟨before, c, p, after, split, other, place, mapping⟩
    rcases List.eq_nil_or_concat after with rfl | ⟨after, last, rfl⟩
    · obtain ⟨rfl, same⟩ := List.append_inj' split rfl
      obtain ⟨rfl, -⟩ := List.cons.inj same
      exact .inr ⟨p, rfl, other, place, mapping⟩
    · rw [List.concat_eq_append, ← List.cons_append, ← List.append_assoc] at split
      obtain ⟨rfl, -⟩ := List.append_inj' split rfl
      exact .inl ⟨before, c, p, after, rfl, other, place, mapping⟩
  · rintro (⟨before, c, p, after, rfl, other, place, mapping⟩ | ⟨p, marked, other, place, mapping⟩)
    · exact ⟨before, c, p, after ++ [mark], by simp, other, place, mapping⟩
    · exact ⟨marks, mark.1, p, [], by rw [← marked], other, place, mapping⟩

end Mark

namespace Layout

structure Of (marks : List Mark) (l : Layout) : Prop where
  position : positionAfter (marks.map Prod.fst) = ⟨l.done.length, l.column⟩
  passed : ∀ m ∈ l.line, m.column < l.column
  increasing : ∀ line ∈ l.mappings, line.Pairwise fun a b => a.column < b.column
  has_iff : ∀ line m, l.mappings.Has line m ↔ Mark.Call marks line m

theorem mappings_eq (l : Layout) : l.mappings = l.done.reverse ++ [l.line.reverse] := by
  rw [mappings, List.reverse_cons]

theorem of_empty : Of [] ⟨[], [], 0⟩ where
  position := rfl
  passed := by simp
  increasing := by simp [mappings]
  has_iff := by
    intro line m
    constructor
    · rintro ⟨found, stored, member⟩
      cases line with
      | zero =>
        obtain rfl := Option.some.inj stored
        cases member
      | succ line => cases stored
    · rintro ⟨before, c, p, after, split, -⟩
      simp at split

theorem Of.lineEnd {marks : List Mark} {l : Layout} (laid : Of marks l) {mark : Mark}
    (same : mark.1 = '\n') : Of (marks ++ [mark]) (l.add mark) := by
  have added : l.add mark = ⟨l.line.reverse :: l.done, [], 0⟩ := if_pos same
  have lines : (l.add mark).mappings = l.mappings ++ [[]] := by
    rw [added, mappings, mappings]
    simp
  refine ⟨?_, ?_, ?_, ?_⟩
  · rw [List.map_append, List.map_singleton, Text.positionAfter_concat, laid.position, added, same]
    rfl
  · rw [added]
    simp
  · intro line member
    rw [lines, List.mem_append] at member
    rcases member with member | empty
    · exact laid.increasing line member
    · rw [List.mem_singleton.1 empty]
      exact .nil
  · intro line m
    rw [lines, Mappings.has_append_empty, laid.has_iff, Mark.call_concat]
    simp [same]

theorem Of.unmarked {marks : List Mark} {l : Layout} (laid : Of marks l) {c : Char}
    (other : c ≠ '\n') : Of (marks ++ [(c, none)]) (l.add (c, none)) := by
  have added : l.add (c, none) = { l with column := l.column + Text.utf16Units c } := if_neg other
  refine ⟨?_, ?_, ?_, ?_⟩
  · rw [List.map_append, List.map_singleton, Text.positionAfter_concat, laid.position, added,
      Text.Position.advance, if_neg other]
  · intro m member
    rw [added] at member ⊢
    exact Nat.lt_add_right _ (laid.passed m member)
  · rw [added]
    exact laid.increasing
  · intro line m
    rw [Mark.call_concat, ← laid.has_iff, added]
    simp [mappings]

theorem Of.marked {marks : List Mark} {l : Layout} (laid : Of marks l) {c : Char}
    (other : c ≠ '\n') (p : Text.Position) :
    Of (marks ++ [(c, some p)]) (l.add (c, some p)) := by
  have added : l.add (c, some p) =
      ⟨l.done, ⟨l.column, 0, p.line, p.column⟩ :: l.line, l.column + Text.utf16Units c⟩ :=
    if_neg other
  have lines : (l.add (c, some p)).mappings =
      l.done.reverse ++ [l.line.reverse ++ [⟨l.column, 0, p.line, p.column⟩]] := by
    rw [added, mappings_eq, List.reverse_cons]
  refine ⟨?_, ?_, ?_, ?_⟩
  · rw [List.map_append, List.map_singleton, Text.positionAfter_concat, laid.position, added,
      Text.Position.advance, if_neg other]
  · intro m member
    rw [added] at member ⊢
    rcases List.mem_cons.1 member with rfl | member
    · exact Nat.lt_add_of_pos_right (Text.utf16Units_pos c)
    · exact Nat.lt_add_right _ (laid.passed m member)
  · intro line member
    have increasing := laid.increasing
    rw [mappings_eq] at increasing
    rw [lines, List.mem_append, List.mem_singleton] at member
    rcases member with member | rfl
    · exact increasing line (List.mem_append_left _ member)
    · refine List.pairwise_append.2 ⟨increasing _ (by simp), List.pairwise_singleton _ _, ?_⟩
      intro a before b last
      rw [List.mem_singleton.1 last]
      exact laid.passed a (List.mem_reverse.1 before)
  · intro line m
    rw [lines, Mappings.has_append_line, ← mappings_eq, laid.has_iff, Mark.call_concat,
      laid.position]
    apply or_congr_right
    simp only [Option.some.injEq, exists_eq_left', Text.Position.mk.injEq, List.length_reverse]
    constructor
    · rintro ⟨rfl, rfl⟩
      exact ⟨other, ⟨rfl, rfl⟩, rfl⟩
    · rintro ⟨-, ⟨rfl, column⟩, mapping⟩
      rw [column]
      exact ⟨rfl, mapping⟩

theorem Of.add {marks : List Mark} {l : Layout} (laid : Of marks l) (mark : Mark) :
    Of (marks ++ [mark]) (l.add mark) := by
  by_cases same : mark.1 = '\n'
  · exact laid.lineEnd same
  · obtain ⟨c, none | p⟩ := mark
    · exact laid.unmarked same
    · exact laid.marked same p

theorem Of.foldl {before : List Mark} {l : Layout} (laid : Of before l) (marks : List Mark) :
    Of (before ++ marks) (marks.foldl Layout.add l) := by
  induction marks generalizing before l with
  | nil => rwa [List.append_nil]
  | cons mark marks ih =>
    have more := ih (laid.add mark)
    rwa [List.append_assoc] at more

end Layout

theorem Mappings.ofMarks_of (marks : List Mark) :
    ∃ l, Mappings.ofMarks marks = l.mappings ∧ Layout.Of marks l :=
  ⟨_, rfl, Layout.of_empty.foldl marks⟩

end KeySubst

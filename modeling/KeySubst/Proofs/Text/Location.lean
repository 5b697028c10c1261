import KeySubst.Proofs.Text.Bytes
import KeySubst.Text.Position
import Mathlib.Data.List.Induction

namespace KeySubst.Text

def lastLine (cs : List Char) : List Char := (cs.reverse.takeWhile (· ≠ '\n')).reverse

def positionAfter (before : List Char) : Position :=
  ⟨before.count '\n', utf16Size (lastLine before)⟩

/-- A position is that of an offset of a text. -/
def IsPosition (text : String) (offset : Nat) (p : Position) : Prop :=
  ∃ before after, text.toList = before ++ after ∧ byteSize before = offset ∧
    p = positionAfter before

theorem IsPosition.eq_positionAfter {text : String} {before after : List Char} {p : Position}
    (place : IsPosition text (byteSize before) p) (split : text.toList = before ++ after) :
    p = positionAfter before := by
  obtain ⟨before', after', split', size, rfl⟩ := place
  rw [(eq_of_append_eq_append (split'.symm.trans split) size).1]

theorem isPosition_positionAfter {text : String} (before after : List Char)
    (split : text.toList = before ++ after) :
    IsPosition text (byteSize before) (positionAfter before) :=
  ⟨before, after, split, rfl, rfl⟩

theorem lastLine_of_not_mem {cs : List Char} (single : '\n' ∉ cs) : lastLine cs = cs := by
  have others : ∀ c ∈ cs.reverse, decide (c ≠ '\n') = true := by
    intro c member
    rw [List.mem_reverse] at member
    exact decide_eq_true fun same => single (same ▸ member)
  rw [lastLine, ← List.append_nil cs.reverse, List.takeWhile_append_of_pos others,
    List.takeWhile_nil, List.append_nil, List.reverse_reverse]

theorem lastLine_append_cons (a b : List Char) : lastLine (a ++ '\n' :: b) = lastLine b := by
  simp only [lastLine, List.reverse_append, List.reverse_cons, List.append_assoc,
    List.takeWhile_append, List.singleton_append]
  split
  · rename_i whole
    rw [(List.takeWhile_prefix _).eq_of_length whole, List.takeWhile_cons_of_neg (by simp),
      List.append_nil]
  · rfl

theorem lastLine_concat {cs : List Char} {c : Char} (other : c ≠ '\n') :
    lastLine (cs ++ [c]) = lastLine cs ++ [c] := by
  simp [lastLine, other]

theorem exists_append_lastLine (cs : List Char) :
    ∃ lines, cs = lines ++ lastLine cs ∧ '\n' ∉ lastLine cs ∧
      (lines = [] ∨ lines.getLast? = some '\n') := by
  refine ⟨(cs.reverse.dropWhile (· ≠ '\n')).reverse, ?_, ?_, ?_⟩
  · rw [lastLine, ← List.reverse_append, List.takeWhile_append_dropWhile, List.reverse_reverse]
  · intro member
    have others : (cs.reverse.takeWhile (· ≠ '\n')).all (· ≠ '\n') = true := List.all_takeWhile
    simpa using List.all_eq_true.1 others '\n' (List.mem_reverse.1 member)
  · have head := List.head?_dropWhile_not (· ≠ '\n') cs.reverse
    rw [List.reverse_eq_nil_iff, List.getLast?_reverse]
    cases rest : cs.reverse.dropWhile (· ≠ '\n') with
    | nil => exact .inl rfl
    | cons c lines =>
      rw [rest] at head
      exact .inr (by simpa using head)

theorem positionAfter_concat (before : List Char) (c : Char) :
    positionAfter (before ++ [c]) = (positionAfter before).advance c := by
  rw [Position.advance]
  split
  · rename_i line
    rw [line, positionAfter, lastLine_append_cons]
    simp [positionAfter, lastLine]
  · rename_i other
    rw [positionAfter, lastLine_concat other]
    simp [positionAfter, other]

theorem utf16Units_le (c : Char) : utf16Units c ≤ c.utf8Size := by
  have positive := c.utf8Size_pos
  unfold utf16Units
  split
  · omega
  · rename_i large
    have wide : c.utf8Size ≠ 1 := fun one =>
      large (Nat.lt_of_le_of_lt (Char.utf8Size_eq_one_iff.1 one) (by decide))
    omega

theorem positionAfter_le (before : List Char) :
    (positionAfter before).line ≤ byteSize before ∧
      (positionAfter before).column ≤ byteSize before := by
  induction before using List.reverseRecOn with
  | nil => simp [positionAfter, lastLine]
  | append_singleton before c ih =>
    have units := utf16Units_le c
    have size := c.utf8Size_pos
    rw [positionAfter_concat, byteSize_append, byteSize_cons, Position.advance]
    split
    · exact ⟨by dsimp only; omega, Nat.zero_le _⟩
    · exact ⟨by dsimp only; omega, by dsimp only; omega⟩

theorem IsPosition.le {text : String} {offset : Nat} {p : Position}
    (place : IsPosition text offset p) :
    p.line ≤ text.utf8ByteSize ∧ p.column ≤ text.utf8ByteSize := by
  obtain ⟨before, after, split, -, rfl⟩ := place
  have le := positionAfter_le before
  rw [← byteSize_toList, split, byteSize_append]
  omega

def Position.Before (p q : Position) : Prop :=
  p.line < q.line ∨ p.line = q.line ∧ p.column < q.column

theorem Position.Before.trans {p q r : Position} (first : p.Before q) (second : q.Before r) :
    p.Before r := by
  unfold Before at *
  omega

theorem utf16Units_pos (c : Char) : 0 < utf16Units c := by
  unfold utf16Units
  split <;> decide

theorem Position.before_advance (p : Position) (c : Char) : p.Before (p.advance c) := by
  unfold Before advance
  split
  · exact .inl (Nat.lt_succ_self _)
  · exact .inr ⟨rfl, Nat.lt_add_of_pos_right (utf16Units_pos c)⟩

theorem positionAfter_before_append (before : List Char) {more : List Char} (nonempty : more ≠ []) :
    (positionAfter before).Before (positionAfter (before ++ more)) := by
  induction more generalizing before with
  | nil => exact absurd rfl nonempty
  | cons c more ih =>
    have step := (positionAfter before).before_advance c
    rw [← positionAfter_concat] at step
    cases more with
    | nil => exact step
    | cons d more =>
      have later := ih (before ++ [c]) (List.cons_ne_nil d more)
      rw [List.append_assoc] at later
      exact step.trans later

/-- Of two starts of one text, the one whose position is not before that of the other goes on from
it. -/
theorem append_of_not_before {a b x y : List Char} (same : a ++ x = b ++ y)
    (order : ¬(positionAfter b).Before (positionAfter a)) :
    ∃ more, b = a ++ more ∧ x = more ++ y := by
  rcases List.append_eq_append_iff.1 same with ⟨more, rfl, rfl⟩ | ⟨more, rfl, rfl⟩
  · exact ⟨more, rfl, rfl⟩
  · cases more with
    | nil => exact ⟨[], by simp⟩
    | cons c more => exact absurd (positionAfter_before_append b (List.cons_ne_nil c more)) order

theorem positionAfter_append_of_not_mem (before : List Char) {more : List Char}
    (single : '\n' ∉ more) :
    positionAfter (before ++ more) =
      ⟨(positionAfter before).line, (positionAfter before).column + utf16Size more⟩ := by
  induction more generalizing before with
  | nil => simp
  | cons c more ih =>
    have other : c ≠ '\n' := fun same => single (same ▸ List.mem_cons_self)
    have whole := ih (before ++ [c]) fun member => single (.tail _ member)
    rw [List.append_assoc, List.singleton_append, positionAfter_concat, Position.advance,
      if_neg other] at whole
    rw [whole, utf16Size_cons, Nat.add_assoc]

namespace LineIndex

theorem linesFrom_first (start size : Nat) (line rest : List Char) :
    ∃ more, (linesFrom start size line rest).1 = ⟨start, line.reverse ++ more⟩ ∧
      ∀ next ∈ (linesFrom start size line rest).2.head?, start + size < next.start := by
  induction rest generalizing start size line with
  | nil => exact ⟨[], by simp [linesFrom]⟩
  | cons c rest ih =>
    rw [linesFrom]
    split
    · obtain ⟨_, next, _⟩ := ih (start + size + 1) 0 []
      exact ⟨[c], by simp, by simp [next]⟩
    · obtain ⟨more, first, others⟩ := ih start (size + c.utf8Size) (c :: line)
      refine ⟨c :: more, by simp [first], fun next member => ?_⟩
      have := others next member
      omega

theorem lineAt_linesFrom {line : List Char} (single : '\n' ∉ line) (start number : Nat)
    (a b : List Char) :
    ∃ found more,
      lineAt (start + byteSize (line.reverse ++ a)) number
          (linesFrom start (byteSize line.reverse) line (a ++ b)).1
          (linesFrom start (byteSize line.reverse) line (a ++ b)).2 =
        (number + a.count '\n', found) ∧
      found.text = lastLine (line.reverse ++ a) ++ more ∧
      found.start + byteSize (lastLine (line.reverse ++ a)) =
        start + byteSize (line.reverse ++ a) := by
  induction a generalizing line start number with
  | nil =>
    obtain ⟨more, first, others⟩ := linesFrom_first start (byteSize line.reverse) line b
    have whole : lastLine line.reverse = line.reverse :=
      lastLine_of_not_mem (by simpa using single)
    refine ⟨⟨start, line.reverse ++ more⟩, more, ?_, by simp [whole], by simp [whole]⟩
    simp only [List.append_nil, List.nil_append, first]
    cases later : (linesFrom start (byteSize line.reverse) line b).2 with
    | nil => rfl
    | cons next lines =>
      have behind := others next (by rw [later]; rfl)
      rw [lineAt, if_neg (by omega)]
      rfl
  | cons c a ih =>
    rw [List.cons_append, linesFrom]
    split
    · rename_i lineEnd
      subst lineEnd
      obtain ⟨found, more, at_, text, sizes⟩ :=
        ih List.not_mem_nil (start + byteSize line.reverse + 1) (number + 1)
      obtain ⟨_, first, _⟩ := linesFrom_first (start + byteSize line.reverse + 1) 0 [] (a ++ b)
      have offset : start + byteSize (line.reverse ++ '\n' :: a) =
          start + byteSize line.reverse + 1 + byteSize a := by
        rw [byteSize_append, byteSize_cons, show '\n'.utf8Size = 1 from rfl]
        omega
      simp only [List.reverse_nil, List.nil_append, byteSize_nil] at at_ text sizes
      rw [lastLine_append_cons, offset]
      refine ⟨found, more, ?_, text, sizes⟩
      rw [lineAt, if_pos (by rw [first]; exact Nat.le_add_right _ _), at_, List.count_cons_self,
        Nat.add_assoc, Nat.add_comm 1]
    · rename_i other
      have single' : '\n' ∉ c :: line := by
        simpa [eq_comm, other] using single
      obtain ⟨found, more, at_, text, sizes⟩ := ih single' start number
      simp only [List.reverse_cons, List.append_assoc, List.singleton_append, byteSize_append,
        byteSize_cons, byteSize_nil, Nat.add_zero] at at_ text sizes ⊢
      exact ⟨found, more, by simpa [other] using at_, text, sizes⟩

theorem locate?_append (before after : List Char) :
    (ofText (before ++ after)).locate? (byteSize before) = some (positionAfter before) := by
  obtain ⟨found, more, at_, text, sizes⟩ :=
    lineAt_linesFrom (List.not_mem_nil (a := '\n')) 0 0 before after
  simp only [List.reverse_nil, List.nil_append, byteSize_nil, Nat.zero_add] at at_ text sizes
  have rest : byteSize before - found.start = byteSize (lastLine before) := by omega
  rw [locate?, ofText, at_]
  simp only [rest, text, unitsBefore?_eq, splitBytes?_append, Option.map_some]
  rfl

end LineIndex

end KeySubst.Text

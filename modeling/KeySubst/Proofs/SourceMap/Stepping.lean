import KeySubst.Proofs.Text.Boundary
import KeySubst.SourceMap.Layout

namespace KeySubst

namespace Text

/-- A position is told by the text before an offset: by its line ends, and by the UTF-16 units of
what follows the last of them. -/
def Position.Measures (p : Position) (text : String) (offset : Nat) : Prop :=
  ∃ lines line after, text.toList = lines ++ line ++ after ∧ byteSize (lines ++ line) = offset ∧
    (lines = [] ∨ lines.getLast? = some '\n') ∧ '\n' ∉ line ∧
    p = ⟨(lines ++ line).count '\n', utf16Size line⟩

theorem lastLine_append {lines line : List Char} (whole : lines = [] ∨ lines.getLast? = some '\n')
    (single : '\n' ∉ line) : lastLine (lines ++ line) = line := by
  rcases whole with rfl | last
  · exact lastLine_of_not_mem single
  · obtain ⟨init, rfl⟩ := List.getLast?_eq_some_iff.1 last
    rw [List.append_assoc, List.singleton_append, lastLine_append_cons,
      lastLine_of_not_mem single]

theorem Position.measures_iff {p : Position} {text : String} {offset : Nat} :
    p.Measures text offset ↔ IsPosition text offset p := by
  constructor
  · rintro ⟨lines, line, after, split, size, whole, single, rfl⟩
    exact ⟨lines ++ line, after, split, size, by rw [positionAfter, lastLine_append whole single]⟩
  · rintro ⟨before, after, split, size, rfl⟩
    obtain ⟨lines, parts, single, whole⟩ := exists_append_lastLine before
    exact ⟨lines, lastLine before, after, by rw [← parts, split], by rw [← parts, size], whole,
      single, by rw [← parts]; rfl⟩

theorem isBoundary_iff_isPosition {text : String} {offset : Nat} :
    IsBoundary text offset ↔ ∃ p, IsPosition text offset p := by
  rw [isBoundary_iff]
  constructor
  · rintro ⟨before, after, split, rfl⟩
    exact ⟨_, isPosition_positionAfter before after split⟩
  · rintro ⟨_, before, after, split, rfl, -⟩
    exact ⟨before, after, split, rfl⟩

namespace LineIndex

theorem linesFrom_mem (start : Nat) (line rest : List Char) {l : Line}
    (member : l ∈ (linesFrom start (byteSize line.reverse) line rest).1 ::
      (linesFrom start (byteSize line.reverse) line rest).2) :
    ∃ a b, line.reverse ++ rest = a ++ l.text ++ b ∧ l.start = start + byteSize a := by
  induction rest generalizing start line with
  | nil =>
    obtain rfl : l = ⟨start, line.reverse⟩ := by simpa [linesFrom] using member
    exact ⟨[], [], by simp, rfl⟩
  | cons c rest ih =>
    rw [linesFrom] at member
    split at member
    · rename_i lineEnd
      subst lineEnd
      rcases List.mem_cons.1 member with rfl | later
      · exact ⟨[], rest, by simp, rfl⟩
      · obtain ⟨a, b, split, place⟩ := ih (start + byteSize line.reverse + 1) [] later
        refine ⟨line.reverse ++ '\n' :: a, b, ?_, ?_⟩
        · rw [List.reverse_nil, List.nil_append] at split
          simp [split]
        · rw [place, byteSize_append, byteSize_cons, show '\n'.utf8Size = 1 from rfl]
          omega
    · have size : byteSize line.reverse + c.utf8Size = byteSize (c :: line).reverse := by simp
      rw [size] at member
      obtain ⟨a, b, split, place⟩ := ih start (c :: line) member
      exact ⟨a, b, by simpa using split, place⟩

theorem lineAt_mem {offset : Nat} {first : Line} (others : List Line)
    (starts : first.start ≤ offset) (number : Nat) :
    (lineAt offset number first others).2 ∈ first :: others ∧
      (lineAt offset number first others).2.start ≤ offset := by
  induction others generalizing first number with
  | nil => exact ⟨List.mem_cons_self, starts⟩
  | cons next others ih =>
    rw [lineAt]
    split
    · rename_i reached
      obtain ⟨member, le⟩ := ih reached (number + 1)
      exact ⟨.tail _ member, le⟩
    · exact ⟨List.mem_cons_self, starts⟩

theorem isBoundary_of_locate? {text : String} {offset : Nat} {p : Position}
    (located : (ofText text.toList).locate? offset = some p) : IsBoundary text offset := by
  obtain ⟨_, first, -⟩ := linesFrom_first 0 0 [] text.toList
  have starts : (linesFrom 0 0 [] text.toList).1.start ≤ offset := by
    rw [first]
    exact Nat.zero_le _
  obtain ⟨member, le⟩ := lineAt_mem (linesFrom 0 0 [] text.toList).2 starts 0
  simp only [locate?, ofText, unitsBefore?_eq, Option.map_map, Option.map_eq_some_iff] at located
  generalize (lineAt offset 0 (linesFrom 0 0 [] text.toList).1
    (linesFrom 0 0 [] text.toList).2).2 = l at member le located
  obtain ⟨a, b, split, place⟩ := linesFrom_mem 0 [] text.toList member
  obtain ⟨⟨x, y⟩, cut, -⟩ := located
  obtain ⟨line, size⟩ := splitBytes?_eq_some_iff.1 cut
  rw [List.reverse_nil, List.nil_append, line] at split
  refine isBoundary_iff.2 ⟨a ++ x, y ++ b, by simp [split], ?_⟩
  rw [byteSize_append]
  omega

theorem locate?_eq_some_iff {text : String} {offset : Nat} {p : Position} :
    (ofText text.toList).locate? offset = some p ↔ IsPosition text offset p := by
  constructor
  · intro located
    obtain ⟨before, after, split, rfl⟩ := isBoundary_iff.1 (isBoundary_of_locate? located)
    rw [split, locate?_append, Option.some.injEq] at located
    exact located ▸ isPosition_positionAfter before after split
  · rintro ⟨before, after, split, rfl, rfl⟩
    rw [split]
    exact locate?_append before after

end LineIndex

theorem Position.Before.irrefl (p : Position) : ¬ p.Before p := by
  unfold Before
  omega

theorem IsPosition.before {text : String} {offset offset' : Nat} {p p' : Position}
    (place : IsPosition text offset p) (place' : IsPosition text offset' p')
    (lt : offset < offset') : p.Before p' := by
  obtain ⟨before, after, split, rfl, rfl⟩ := place
  obtain ⟨before', after', split', rfl, rfl⟩ := place'
  obtain ⟨more, rfl, -⟩ :=
    prefix_of_append_eq_append (split.symm.trans split') (Nat.le_of_lt lt)
  refine positionAfter_before_append before ?_
  rintro rfl
  rw [List.append_nil] at lt
  exact Nat.lt_irrefl _ lt

theorem IsPosition.offset_eq {text : String} {offset offset' : Nat} {p : Position}
    (place : IsPosition text offset p) (place' : IsPosition text offset' p) : offset = offset' := by
  rcases Nat.lt_trichotomy offset offset' with lt | same | gt
  · exact absurd (place.before place' lt) (Position.Before.irrefl p)
  · exact same
  · exact absurd (place'.before place gt) (Position.Before.irrefl p)

theorem IsPosition.lt_iff_before {text : String} {offset offset' : Nat} {p p' : Position}
    (place : IsPosition text offset p) (place' : IsPosition text offset' p') :
    offset < offset' ↔ p.Before p' := by
  refine ⟨place.before place', fun before => ?_⟩
  rcases Nat.lt_trichotomy offset offset' with lt | rfl | gt
  · exact lt
  · obtain ⟨a, b, split, rfl, rfl⟩ := place
    obtain rfl := place'.eq_positionAfter split
    exact absurd before (Position.Before.irrefl _)
  · exact absurd (before.trans (place'.before place gt)) (Position.Before.irrefl p)

theorem foldl_advance (before more : List Char) :
    more.foldl Position.advance (positionAfter before) = positionAfter (before ++ more) := by
  induction more generalizing before with
  | nil => rw [List.append_nil]; rfl
  | cons c more ih =>
    rw [List.foldl_cons, ← positionAfter_concat, ih, List.append_assoc, List.singleton_append]

end Text

open Text (Position LineIndex IsBoundary byteSize positionAfter)

namespace Mark

theorem copied_append (marks : List Mark) (p : Position) (cs rest : List Char) :
    copied marks p (cs ++ rest) =
      copied (copied marks p cs) (cs.foldl Position.advance p) rest := by
  induction cs generalizing marks p with
  | nil => rfl
  | cons c cs ih => rw [List.cons_append, copied, copied, ih, List.foldl_cons]

theorem copied_eq_append (marks : List Mark) (p : Position) (cs : List Char) :
    copied marks p cs = copied [] p cs ++ marks := by
  induction cs generalizing marks p with
  | nil => rfl
  | cons c cs ih =>
    rw [copied, copied, ih, ih [_], List.append_assoc, List.singleton_append]

theorem length_copied (p : Position) (cs : List Char) : (copied [] p cs).length = cs.length := by
  induction cs generalizing p with
  | nil => rfl
  | cons c cs ih => rw [copied, copied_eq_append, List.length_append, ih]; rfl

theorem getElem?_copied (p : Position) (a : List Char) (c : Char) (b : List Char) :
    (copied [] p (a ++ c :: b)).reverse[a.length]? =
      some (c, if c = '\n' then none else some (a.foldl Position.advance p)) := by
  rw [copied_append, copied, copied_eq_append, List.reverse_append, List.reverse_cons,
    List.append_assoc, ← length_copied p a, ← List.length_reverse,
    List.getElem?_append_right (Nat.le_refl _), Nat.sub_self]
  rfl

end Mark

/-- The index of a text gives the offsets between two characters, and no others, the positions that
the text before them tells. These are in the order of the offsets and all different. Steps over a
span lead to the position of each boundary in it, and copied text is marked with them. -/
theorem Text.LineIndex.locate?_steps (text : String) :
    let index := LineIndex.ofText text.toList
    (∀ offset, IsBoundary text offset ↔ ∃ p, index.locate? offset = some p) ∧
    (∀ offset p, index.locate? offset = some p ↔ p.Measures text offset) ∧
    (∀ offset offset' p p', index.locate? offset = some p → index.locate? offset' = some p' →
      (offset < offset' ↔ p.Before p') ∧ (p = p' → offset = offset')) ∧
    ∀ before span after, text.toList = before ++ span ++ after →
      ∃ p, index.locate? (byteSize before) = some p ∧
        (∀ a b, span = a ++ b →
          index.locate? (byteSize (before ++ a)) = some (a.foldl Position.advance p)) ∧
        ∀ a c b, span = a ++ c :: b → (Mark.copied [] p span).reverse[a.length]? =
          some (c, if c = '\n' then none else index.locate? (byteSize (before ++ a))) := by
  intro index
  have located : ∀ offset p, index.locate? offset = some p ↔ Text.IsPosition text offset p :=
    fun _ _ => locate?_eq_some_iff
  simp only [located, Text.isBoundary_iff_isPosition, Position.measures_iff, implies_true, true_and]
  refine ⟨fun offset offset' p p' place place' => ⟨place.lt_iff_before place', ?_⟩, ?_⟩
  · rintro rfl
    exact place.offset_eq place'
  · intro before span after split
    have walked : ∀ a b, span = a ++ b →
        Text.IsPosition text (byteSize (before ++ a))
          (a.foldl Position.advance (positionAfter before)) := by
      rintro a b rfl
      rw [Text.foldl_advance]
      exact Text.isPosition_positionAfter (before ++ a) (b ++ after) (by simp [split])
    refine ⟨positionAfter before, ?_, walked, ?_⟩
    · exact Text.isPosition_positionAfter before (span ++ after) (by simp [split])
    · rintro a c b rfl
      rw [(located _ _).2 (walked a (c :: b) rfl)]
      exact Mark.getElem?_copied (positionAfter before) a c b

theorem Text.LineIndex.locate?_steps_second_line :
    let text := "a\n😀b"
    let index := LineIndex.ofText text.toList
    index.locate? 2 = some ⟨1, 0⟩ ∧ IsBoundary text 6 ∧ index.locate? 6 = some ⟨1, 2⟩ ∧
      (⟨1, 0⟩ : Position).Before ⟨1, 2⟩ ∧ ¬ IsBoundary text 3 ∧
      (Mark.copied [] ⟨1, 0⟩ ['😀', 'b']).reverse[1]? = some ('b', some ⟨1, 2⟩) := by
  intro text index
  have start : index.locate? 2 = some ⟨1, 0⟩ := by decide +kernel
  have behind : index.locate? 6 = some ⟨1, 2⟩ := by decide +kernel
  have inside : index.locate? 3 = none := by decide +kernel
  obtain ⟨boundaries, -, order, walks⟩ := locate?_steps text
  obtain ⟨p, at_, -, marks⟩ := walks ['a', '\n'] ['😀', 'b'] [] (by decide +kernel)
  have two : byteSize ['a', '\n'] = 2 := by decide
  have six : byteSize (['a', '\n'] ++ ['😀']) = 6 := by decide
  rw [two] at at_
  obtain rfl := Option.some.inj (at_.symm.trans start)
  have marked := marks ['😀'] 'b' [] rfl
  rw [six, if_neg (by decide)] at marked
  refine ⟨start, (boundaries 6).2 ⟨_, behind⟩, behind, (order 2 6 _ _ start behind).1.1 (by decide),
    fun boundary => ?_, ?_⟩
  · obtain ⟨q, located⟩ := (boundaries 3).1 boundary
    rw [inside] at located
    cases located
  · exact marked.trans (congrArg (fun mark => some ('b', mark)) behind)

end KeySubst

import KeySubst.Proofs.Text.Location

/-!
# Boundaries of characters

UTF-8 synchronises itself: the bytes of a text that is not empty stand in another one only between
two boundaries.
-/

namespace KeySubst.Text

/-- An offset at which a character starts, as its byte shows, or the end of the text. -/
def IsBoundary (text : String) (offset : Nat) : Prop :=
  offset = text.utf8ByteSize ∨ ∃ b, (bytes text)[offset]? = some b ∧ b.IsUTF8FirstByte

/-- A slice of a text that is in range and divides no character. -/
structure Slices (text : String) (start stop : Nat) : Prop where
  le : start ≤ stop
  starts : IsBoundary text start
  stops : IsBoundary text stop

theorem isBoundary_iff_isValid {text : String} {offset : Nat} :
    IsBoundary text offset ↔ String.Pos.Raw.IsValid text ⟨offset⟩ := by
  have byte : ∀ small : offset < text.utf8ByteSize,
      (bytes text)[offset]? = some (text.getUTF8Byte ⟨offset⟩ small) := by
    intro small
    rw [List.getElem?_eq_getElem (show offset < (bytes text).length by simpa using small)]
    rfl
  rw [String.Pos.Raw.isValid_iff_isUTF8FirstByte, String.Pos.Raw.ext_iff]
  refine or_congr_right ⟨?_, ?_⟩
  · rintro ⟨b, stored, first⟩
    have small : offset < text.utf8ByteSize := by
      simpa using (List.getElem?_eq_some_iff.1 stored).1
    rw [byte small, Option.some.injEq] at stored
    exact ⟨small, stored ▸ first⟩
  · rintro ⟨small, first⟩
    exact ⟨_, byte small, first⟩

theorem isBoundary_iff {text : String} {offset : Nat} :
    IsBoundary text offset ↔
      ∃ before after, text.toList = before ++ after ∧ offset = byteSize before := by
  rw [isBoundary_iff_isValid, String.Pos.Raw.isValid_iff_exists_append]
  constructor
  · rintro ⟨before, after, rfl, place⟩
    refine ⟨before.toList, after.toList, String.toList_append, ?_⟩
    rw [byteSize_toList]
    exact congrArg String.Pos.Raw.byteIdx place
  · rintro ⟨before, after, split, rfl⟩
    refine ⟨.ofList before, .ofList after, ?_, ?_⟩
    · rw [← String.toList_inj, split]
      simp
    · rw [← utf8ByteSize_ofList]
      rfl

theorem isBoundary_append {text : String} {before after : List Char}
    (split : text.toList = before ++ after) : IsBoundary text (byteSize before) :=
  isBoundary_iff.2 ⟨before, after, split, rfl⟩

theorem IsBoundary.le {text : String} {offset : Nat} (boundary : IsBoundary text offset) :
    offset ≤ text.utf8ByteSize := by
  obtain ⟨before, after, split, rfl⟩ := isBoundary_iff.1 boundary
  rw [← byteSize_toList, split, byteSize_append]
  exact Nat.le_add_right _ _

theorem isBoundary_zero (text : String) : IsBoundary text 0 :=
  isBoundary_iff.2 ⟨[], text.toList, rfl, rfl⟩

theorem isBoundary_size (text : String) : IsBoundary text text.utf8ByteSize := .inl rfl

theorem slices_append {text : String} {before mid after : List Char}
    (split : text.toList = before ++ mid ++ after) :
    Slices text (byteSize before) (byteSize (before ++ mid)) := by
  refine ⟨?_, isBoundary_append (split.trans (List.append_assoc ..)), isBoundary_append split⟩
  rw [byteSize_append]
  exact Nat.le_add_right _ _

theorem slices_of_occurs {text part : String} (nonempty : part ≠ "") {before after : List UInt8}
    (occurs : bytes text = before ++ bytes part ++ after) :
    Slices text before.length (before.length + part.utf8ByteSize) := by
  have length : text.utf8ByteSize = before.length + part.utf8ByteSize + after.length := by
    rw [← length_bytes, occurs, List.length_append, List.length_append, length_bytes]
  have taken : text.toByteArray.extract before.length (before.length + part.utf8ByteSize) =
      part.toByteArray := by
    apply ByteArray.ext
    apply Array.toList_inj.1
    rw [ByteArray.data_extract, Array.toList_extract, List.extract_eq_take_drop,
      Nat.add_sub_cancel_left]
    change ((bytes text).drop before.length).take part.utf8ByteSize = bytes part
    rw [occurs, List.append_assoc, List.drop_left, ← length_bytes, List.take_left]
  have valid := (String.Pos.Raw.isValidUTF8_extract_iff (s := text) ⟨before.length⟩
    ⟨before.length + part.utf8ByteSize⟩ (Nat.le_add_right _ _)
    (show _ ≤ text.utf8ByteSize by rw [length]; exact Nat.le_add_right _ _)).1
    (taken ▸ part.isValidUTF8)
  rcases valid with same | ⟨starts, stops⟩
  · have size : part.utf8ByteSize = 0 := by simpa using congrArg String.Pos.Raw.byteIdx same
    exact absurd (String.utf8ByteSize_eq_zero_iff.1 size) nonempty
  · exact ⟨Nat.le_add_right _ _, isBoundary_iff_isValid.2 starts, isBoundary_iff_isValid.2 stops⟩

theorem isUTF8FirstByte_of_isWordByte {b : UInt8} (word : isWordByte b = true) :
    b.IsUTF8FirstByte := by
  have small : b.toNat < 2 ^ 7 := by
    simp only [isWordByte, UInt8.le_iff_toNat_le, ← UInt8.toNat_inj, Bool.or_eq_true,
      Bool.and_eq_true, decide_eq_true_eq] at word
    simp at word
    omega
  left
  rw [← UInt8.toNat_inj, UInt8.toNat_and]
  change b.toNat &&& 2 ^ 7 = 0
  apply Nat.eq_of_testBit_eq
  intro i
  rw [Nat.testBit_and, Nat.testBit_two_pow, Nat.zero_testBit]
  by_cases top : 7 = i
  · rw [← top, Nat.testBit_lt_two_pow small, Bool.false_and]
  · rw [decide_eq_false top, Bool.and_false]

theorem isBoundary_of_isByteEdge {text : String} {offset : Nat}
    (edge : isByteEdge text offset = true) : IsBoundary text offset := by
  cases behind : (bytes text)[offset]?.any isWordByte with
  | true =>
    obtain ⟨b, stored, word⟩ := (Option.any_eq_true _ _).1 behind
    exact .inr ⟨b, stored, isUTF8FirstByte_of_isWordByte word⟩
  | false =>
    rw [isByteEdge, behind, Bool.bne_false, Bool.and_eq_true, decide_eq_true_eq] at edge
    -- The byte in front of the edge is a whole character, so that the next one starts at the edge.
    obtain ⟨positive, ahead⟩ := edge
    obtain ⟨b, stored, word⟩ := (Option.any_eq_true _ _).1 ahead
    have boundary : IsBoundary text (offset - 1) :=
      .inr ⟨b, stored, isUTF8FirstByte_of_isWordByte word⟩
    obtain ⟨before, after, split, place⟩ := isBoundary_iff.1 boundary
    have head : after.head?.any isWordChar = true := by
      rw [← head_word, ← ahead, bytes_eq_flatMap, split, List.flatMap_append, place,
        byteSize_eq_length, List.getElem?_append_right (Nat.le_refl _), Nat.sub_self,
        List.head?_eq_getElem?]
    cases after with
    | nil => cases head
    | cons c after =>
      obtain ⟨-, b, single, -⟩ | ⟨other, -⟩ := encodeChar_word c
      · have size : c.utf8Size = 1 := by
          rw [← String.length_utf8EncodeChar, single]
          rfl
        have next : IsBoundary text (byteSize (before ++ [c])) :=
          isBoundary_iff.2 ⟨_, after, by rw [split]; simp, rfl⟩
        rw [byteSize_append, byteSize_cons, byteSize_nil, size, ← place] at next
        rwa [show offset - 1 + (1 + 0) = offset by omega] at next
      · rw [List.head?_cons, Option.any_some, other] at head
        cases head

/-- The line of an offset is the last one that starts there or before it. It exists, what stands
between its start and the offset is a slice of the text, and the offset has a position. -/
def Located (text : String) (offset : Nat) : Prop :=
  let index := LineIndex.ofText text.toList
  let lines := index.first :: index.others
  ∃ number line p, LineIndex.lineAt offset 0 index.first index.others = (number, line) ∧
    lines[number]? = some line ∧ lines.countP (·.start ≤ offset) = number + 1 ∧
    Slices text line.start offset ∧ index.locate? offset = some p

namespace LineIndex

theorem linesFrom_sorted (start size : Nat) (line rest : List Char) :
    ((linesFrom start size line rest).1 :: (linesFrom start size line rest).2).Pairwise
      fun a b => a.start < b.start := by
  induction rest generalizing start size line with
  | nil => exact List.pairwise_singleton _ _
  | cons c rest ih =>
    rw [linesFrom]
    split
    · have later := ih (start + size + 1) 0 []
      obtain ⟨_, first, _⟩ := linesFrom_first (start + size + 1) 0 [] rest
      refine .cons ?_ later
      intro next member
      have ahead : start + size + 1 ≤ next.start := by
        rcases List.mem_cons.1 member with rfl | member
        · exact Nat.le_of_eq (congrArg Line.start first).symm
        · have behind := (List.pairwise_cons.1 later).1 next member
          rw [first] at behind
          exact Nat.le_of_lt behind
      change start < next.start
      omega
    · exact ih start (size + c.utf8Size) (c :: line)

theorem lineAt_of_sorted {offset : Nat} {first : Line} {others : List Line}
    (sorted : (first :: others).Pairwise fun a b => a.start < b.start)
    (starts : first.start ≤ offset) (number : Nat) :
    ∃ line, lineAt offset number first others =
        (number + others.countP (·.start ≤ offset), line) ∧
      (first :: others)[others.countP (·.start ≤ offset)]? = some line := by
  induction others generalizing first number with
  | nil => exact ⟨first, rfl, rfl⟩
  | cons next others ih =>
    obtain ⟨-, later⟩ := List.pairwise_cons.1 sorted
    rw [lineAt]
    split
    · rename_i reached
      obtain ⟨line, at_, stored⟩ := ih later reached (number + 1)
      rw [List.countP_cons_of_pos (by simpa using reached)]
      exact ⟨line, by rw [at_]; congr 1; omega, stored⟩
    · rename_i beyond
      -- The lines behind the next one start even further on, and none of them is counted.
      have none : (next :: others).countP (·.start ≤ offset) = 0 := by
        rw [List.countP_eq_zero]
        intro other member
        rcases List.mem_cons.1 member with rfl | member
        · simpa using beyond
        · have behind := (List.pairwise_cons.1 later).1 other member
          simp only [decide_eq_true_eq]
          omega
      rw [none]
      exact ⟨first, rfl, rfl⟩

end LineIndex

theorem IsBoundary.located {text : String} {offset : Nat} (boundary : IsBoundary text offset) :
    Located text offset := by
  obtain ⟨before, after, split, rfl⟩ := isBoundary_iff.1 boundary
  obtain ⟨_, first, -⟩ := LineIndex.linesFrom_first 0 0 [] text.toList
  have starts : (LineIndex.linesFrom 0 0 [] text.toList).1.start ≤ byteSize before := by
    rw [first]
    exact Nat.zero_le _
  obtain ⟨line, at_, stored⟩ :=
    LineIndex.lineAt_of_sorted (LineIndex.linesFrom_sorted 0 0 [] text.toList) starts 0
  obtain ⟨found, _, at', -, sizes⟩ :=
    LineIndex.lineAt_linesFrom (List.not_mem_nil (a := '\n')) 0 0 before after
  simp only [List.reverse_nil, List.nil_append, byteSize_nil, Nat.zero_add, ← split] at at' sizes
  obtain rfl : line = found := (Prod.mk.inj (at_.symm.trans at')).2
  obtain ⟨lines, whole, -⟩ := exists_append_lastLine before
  have place : line.start = byteSize lines := by
    have size := congrArg byteSize whole
    rw [byteSize_append] at size
    omega
  have slice : Slices text line.start (byteSize before) := by
    have parts : text.toList = lines ++ lastLine before ++ after := by rw [split, ← whole]
    have slice := slices_append parts
    rwa [← whole, ← place] at slice
  refine ⟨_, line, positionAfter before, at_, ?_, ?_, slice, ?_⟩
  · rw [Nat.zero_add]
    exact stored
  · rw [Nat.zero_add]
    exact List.countP_cons_of_pos (decide_eq_true starts)
  · rw [split]
    exact LineIndex.locate?_append before after

end KeySubst.Text

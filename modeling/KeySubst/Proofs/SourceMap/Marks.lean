import KeySubst.Proofs.SourceMap.Lines
import KeySubst.Proofs.Substitution.Pieces

/-!
# Marks of an output

Each piece of an output is marked on its own, since no other segment holds its characters.
-/

namespace KeySubst

open Text (byteSize positionAfter IsPosition LineIndex)

def Span.Holds (span : Span) (offset : Nat) : Prop := span.start ≤ offset ∧ offset < span.stop

/-- A segment maps the character behind some of the output to a position. Copied text is mapped
character by character, and text that was put in at its start and behind each of its line ends. -/
def Segment.Maps (s : Segment) (text : String) (before : List Char) (p : Text.Position) : Prop :=
  s.output.Holds (byteSize before) ∧
    match s.kind with
    | .unchanged => IsPosition text (s.input.start + (byteSize before - s.output.start)) p
    | .replaced =>
      (byteSize before = s.output.start ∨ before.getLast? = some '\n') ∧
        IsPosition text s.input.start p

def Maps (text : String) (segments : List Segment) (before : List Char) (c : Char)
    (p : Text.Position) : Prop :=
  c ≠ '\n' ∧ ∃ s ∈ segments, s.Maps text before p

/-- Marks of an output, from some of it on, say what its characters are mapped to. -/
def Marked (text : String) (segments : List Segment) : List Char → List Mark → Prop
  | _, [] => True
  | before, (c, mark) :: marks =>
    (∀ p, mark = some p ↔ Maps text segments before c p) ∧
      Marked text segments (before ++ [c]) marks

namespace Marked

variable {text : String} {segments : List Segment} {before : List Char} {marks : List Mark}

theorem append_iff {a b : List Mark} :
    Marked text segments before (a ++ b) ↔
      Marked text segments before a ∧ Marked text segments (before ++ a.map Prod.fst) b := by
  induction a generalizing before with
  | nil => simp [Marked]
  | cons mark a ih =>
    rw [List.cons_append, Marked, Marked, ih, List.map_cons, List.append_assoc,
      List.singleton_append, and_assoc]

theorem of_segments {others : List Segment} (marked : Marked text segments before marks)
    (same : ∀ offset, byteSize before ≤ offset → offset < byteSize (before ++ marks.map Prod.fst) →
      ∀ s : Segment, s.output.Holds offset → (s ∈ segments ↔ s ∈ others)) :
    Marked text others before marks := by
  induction marks generalizing before with
  | nil => trivial
  | cons mark marks ih =>
    obtain ⟨c, mark⟩ := mark
    have positive := c.utf8Size_pos
    simp only [List.map_cons, Text.byteSize_append, Text.byteSize_cons] at same
    refine ⟨fun p => (marked.1 p).trans ?_, ih marked.2 fun offset low high => ?_⟩
    · have here := same (byteSize before) (Nat.le_refl _) (by omega)
      refine and_congr_right fun _ => exists_congr fun s => and_congr_left fun maps => ?_
      exact here s maps.1
    · rw [Text.byteSize_append] at low
      rw [List.append_assoc, Text.byteSize_append, List.singleton_append,
        Text.byteSize_cons] at high
      exact same offset (Nat.le_of_add_right_le low) high

theorem call_iff {code : List Char} (marked : Marked text segments [] marks)
    (characters : marks.map Prod.fst = code) (line : Nat) (m : Mapping) :
    Mark.Call marks line m ↔
      ∃ before c after p, code = before ++ c :: after ∧ Maps text segments before c p ∧
        positionAfter before = ⟨line, m.column⟩ ∧ m = ⟨m.column, 0, p.line, p.column⟩ := by
  subst characters
  constructor
  · rintro ⟨before, c, p, after, rfl, -, place, mapping⟩
    have maps := ((append_iff.1 marked).2.1 p).1 rfl
    exact ⟨before.map Prod.fst, c, after.map Prod.fst, p, by simp, maps, place, mapping⟩
  · rintro ⟨before, c, after, p, split, maps, place, mapping⟩
    obtain ⟨front, back, rfl, rfl, later⟩ := List.map_eq_append_iff.1 split
    obtain ⟨⟨d, mark⟩, back, rfl, rfl, rfl⟩ := List.map_eq_cons_iff.1 later
    have marked := ((append_iff.1 marked).2.1 p).2 maps
    exact ⟨front, d, p, back, by rw [marked], maps.1, place, mapping⟩

end Marked

namespace Mark

theorem copied_eq {text : String} {passed written cs rest : List Char} {s : Segment}
    (split : text.toList = passed ++ cs ++ rest) (kind : s.kind = .unchanged)
    (start : byteSize written = s.output.start + (byteSize passed - s.input.start))
    (input : s.input.start ≤ byteSize passed) (stop : s.output.stop = byteSize (written ++ cs))
    (marks : List Mark) :
    ∃ added, copied marks (positionAfter passed) cs = added.reverse ++ marks ∧
      added.map Prod.fst = cs ∧ Marked text [s] written added := by
  induction cs generalizing passed written marks with
  | nil => exact ⟨[], rfl, rfl, trivial⟩
  | cons c cs ih =>
    have positive := c.utf8Size_pos
    have sizes : byteSize (written ++ c :: cs) = byteSize written + (c.utf8Size + byteSize cs) := by
      rw [Text.byteSize_append, Text.byteSize_cons]
    have split' : text.toList = passed ++ [c] ++ cs ++ rest := by simp [split]
    have start' : byteSize (written ++ [c]) =
        s.output.start + (byteSize (passed ++ [c]) - s.input.start) := by
      simp only [Text.byteSize_append]
      omega
    have input' : s.input.start ≤ byteSize (passed ++ [c]) := by
      rw [Text.byteSize_append]
      omega
    have stop' : s.output.stop = byteSize (written ++ [c] ++ cs) := by simp [stop]
    obtain ⟨added, same, characters, marked⟩ := ih split' start' input' stop'
      ((c, if c = '\n' then none else some (positionAfter passed)) :: marks)
    refine ⟨(c, if c = '\n' then none else some (positionAfter passed)) :: added, ?_,
      by simp [characters], fun p => ?_, marked⟩
    · rw [copied, ← Text.positionAfter_concat, same]
      simp
    · have place : s.input.start + (byteSize written - s.output.start) = byteSize passed := by omega
      have holds : s.output.Holds (byteSize written) := ⟨by omega, by omega⟩
      have after : text.toList = passed ++ (c :: cs ++ rest) := by rw [split, List.append_assoc]
      simp only [Maps, Segment.Maps, kind, place, holds, List.mem_singleton, exists_eq_left,
        true_and]
      split
      · rename_i lineEnd
        simp [lineEnd]
      · rename_i other
        rw [Option.some.injEq]
        constructor
        · rintro rfl
          exact ⟨other, Text.isPosition_positionAfter _ _ after⟩
        · rintro ⟨-, position⟩
          exact (position.eq_positionAfter after).symm

theorem lineStart_iff {written done : List Char} {lineStart : Bool}
    (first : lineStart = true ↔ done = [] ∨ done.getLast? = some '\n') :
    lineStart = true ↔
      byteSize (written ++ done) = byteSize written ∨ (written ++ done).getLast? = some '\n' := by
  rw [first, Text.byteSize_append, Nat.add_eq_left, Text.byteSize_eq_zero_iff]
  by_cases empty : done = []
  · simp [empty]
  · rw [List.getLast?_append, Option.or_of_isSome (List.getLast?_isSome.2 empty)]

theorem inserted_eq {text : String} {passed rest written done cs : List Char} {s : Segment}
    (split : text.toList = passed ++ rest) (kind : s.kind = .replaced)
    (input : s.input.start = byteSize passed) (start : s.output.start = byteSize written)
    (stop : s.output.stop = byteSize (written ++ done ++ cs)) {lineStart : Bool}
    (first : lineStart = true ↔ done = [] ∨ done.getLast? = some '\n') (marks : List Mark) :
    ∃ added, inserted marks (positionAfter passed) lineStart cs = added.reverse ++ marks ∧
      added.map Prod.fst = cs ∧ Marked text [s] (written ++ done) added := by
  induction cs generalizing done lineStart marks with
  | nil => exact ⟨[], rfl, rfl, trivial⟩
  | cons c cs ih =>
    have positive := c.utf8Size_pos
    have holds : s.output.Holds (byteSize (written ++ done)) := by
      rw [Text.byteSize_append (written ++ done), Text.byteSize_cons] at stop
      rw [Text.byteSize_append] at stop ⊢
      exact ⟨by omega, by omega⟩
    have later : s.output.stop = byteSize (written ++ (done ++ [c]) ++ cs) := by simp [stop]
    have maps : ∀ p, Maps text [s] (written ++ done) c p ↔
        c ≠ '\n' ∧ lineStart = true ∧ p = positionAfter passed := by
      intro p
      simp only [Maps, Segment.Maps, kind, holds, List.mem_singleton, exists_eq_left, true_and]
      rw [start, ← lineStart_iff first, input]
      refine and_congr_right fun _ => and_congr_right fun _ => ⟨?_, ?_⟩
      · exact fun position => position.eq_positionAfter split
      · rintro rfl
        exact Text.isPosition_positionAfter _ _ split
    rw [inserted]
    split
    · rename_i lineEnd
      have behind : true = true ↔ done ++ [c] = [] ∨ (done ++ [c]).getLast? = some '\n' := by
        simp [lineEnd]
      obtain ⟨added, same, characters, marked⟩ := ih later behind ((c, none) :: marks)
      rw [← List.append_assoc] at marked
      refine ⟨(c, none) :: added, by simp [same], by simp [characters], fun p => ?_, marked⟩
      rw [maps]
      simp [lineEnd]
    · rename_i other
      have behind : false = true ↔ done ++ [c] = [] ∨ (done ++ [c]).getLast? = some '\n' := by
        simp [other]
      obtain ⟨added, same, characters, marked⟩ := ih later behind
        ((c, if lineStart then some (positionAfter passed) else none) :: marks)
      rw [← List.append_assoc] at marked
      refine ⟨(c, if lineStart then some (positionAfter passed) else none) :: added,
        by simp [same], by simp [characters], fun p => ?_, marked⟩
      rw [maps]
      cases lineStart <;> simp [other, eq_comm]

end Mark

/-! ### Marks of all pieces -/

namespace Piece

theorem le_of_mem_segments {offset : Nat} {pieces : List Piece} {s : Segment}
    (member : s ∈ segments offset pieces) : offset ≤ s.output.start := by
  obtain ⟨front, p, back, -, rfl⟩ := mem_segments_iff.1 member
  exact Nat.le_add_right _ _

def mark (marks : List Mark) (q : Text.Position) (p : Piece) : List Mark :=
  match p.kind with
  | .unchanged => Mark.copied marks q p.text
  | .replaced => Mark.inserted marks q true p.text

def segmentAfter (written : List Char) (p : Piece) : Segment :=
  ⟨p.kind, ⟨byteSize written, byteSize (written ++ p.text)⟩, p.input⟩

theorem mark_eq {text : String} {passed span rest : List Char} {p : Piece}
    (split : text.toList = passed ++ span ++ rest) (start : p.input.start = byteSize passed)
    (same : p.kind = .unchanged → p.text = span) (written : List Char) (marks : List Mark) :
    ∃ added, p.mark marks (positionAfter passed) = added.reverse ++ marks ∧
      added.map Prod.fst = p.text ∧ Marked text [p.segmentAfter written] written added := by
  unfold mark
  cases kind : p.kind with
  | unchanged =>
    rw [← same kind] at split
    have begins : byteSize written = (p.segmentAfter written).output.start +
        (byteSize passed - (p.segmentAfter written).input.start) := by
      simp [segmentAfter, start]
    exact Mark.copied_eq split kind begins (Nat.le_of_eq start) rfl marks
  | replaced =>
    rw [List.append_assoc] at split
    have whole : (p.segmentAfter written).output.stop = byteSize (written ++ [] ++ p.text) := by
      simp [segmentAfter]
    have marked := Mark.inserted_eq split kind start rfl whole
      (show true = true ↔ [] = [] ∨ [].getLast? = some '\n' by simp) marks
    rwa [List.append_nil] at marked

theorem marksFrom?_cons (index : LineIndex) (marks : List Mark) (offset : Nat) {p : Piece}
    (pieces : List Piece) {q : Text.Position} (located : index.locate? p.input.start = some q) :
    PositionMap.marksFrom? index marks offset ((p :: pieces).flatMap Piece.text)
        (segments offset (p :: pieces)) =
      PositionMap.marksFrom? index (p.mark marks q) (offset + byteSize p.text)
        (pieces.flatMap Piece.text)
        (segments (offset + byteSize p.text) pieces) := by
  have nothing : Text.dropBytes? 0 (p.text ++ pieces.flatMap Piece.text) =
      some (p.text ++ pieces.flatMap Piece.text) := Text.dropBytes?_append [] _
  have ordered : ¬(offset < offset ∨ offset + byteSize p.text < offset) := by omega
  rw [segments, PositionMap.marksFrom?, if_neg ordered]
  simp only [List.flatMap_cons, Nat.sub_self, Nat.add_sub_cancel_left, nothing,
    Text.splitBytes?_append, located, Option.bind_eq_bind, Option.bind_some]
  unfold mark
  cases p.kind <;> rfl

theorem marked_cons {text : String} {written : List Char} {p : Piece} {pieces : List Piece}
    {first others : List Mark} (characters : first.map Prod.fst = p.text)
    (here : Marked text [p.segmentAfter written] written first)
    (behind : Marked text (segments (byteSize (written ++ p.text)) pieces) (written ++ p.text)
      others) :
    Marked text (segments (byteSize written) (p :: pieces)) written (first ++ others) := by
  have split : segments (byteSize written) (p :: pieces) =
      p.segmentAfter written :: segments (byteSize (written ++ p.text)) pieces := by
    rw [segments, ← Text.byteSize_append, segmentAfter]
  rw [split, Marked.append_iff, characters]
  refine ⟨here.of_segments fun offset _ high s holds => ?_,
    behind.of_segments fun offset low _ s holds => ?_⟩
  · rw [List.mem_singleton, List.mem_cons, iff_self_or]
    intro later
    have := le_of_mem_segments later
    rw [characters] at high
    unfold Span.Holds at holds
    omega
  · rw [List.mem_cons, iff_or_self]
    rintro rfl
    exact absurd holds.2 (Nat.not_lt.2 low)

/-- Wherever pieces are written, their marks can be told, and are what their segments say. -/
def Marks (text : String) (pieces : List Piece) : Prop :=
  ∀ written marks, ∃ added,
    PositionMap.marksFrom? (LineIndex.ofText text.toList) marks (byteSize written)
      (pieces.flatMap Piece.text) (segments (byteSize written) pieces) =
        some (added.reverse ++ marks) ∧
    added.map Prod.fst = pieces.flatMap Piece.text ∧
    Marked text (segments (byteSize written) pieces) written added

theorem Marks.cons {text : String} {passed span rest : List Char} {p : Piece} {pieces : List Piece}
    (split : text.toList = passed ++ span ++ rest) (start : p.input.start = byteSize passed)
    (same : p.kind = .unchanged → p.text = span) (later : Marks text pieces) :
    Marks text (p :: pieces) := by
  intro written marks
  have located : (LineIndex.ofText text.toList).locate? p.input.start =
      some (positionAfter passed) := by
    rw [split, List.append_assoc, start, LineIndex.locate?_append]
  obtain ⟨first, firstMarks, firstText, firstMarked⟩ := mark_eq split start same written marks
  obtain ⟨others, otherMarks, otherText, otherMarked⟩ :=
    later (written ++ p.text) (first.reverse ++ marks)
  refine ⟨first ++ others, ?_, ?_, marked_cons firstText firstMarked otherMarked⟩
  · rw [marksFrom?_cons _ _ _ _ located, firstMarks, ← Text.byteSize_append, otherMarks,
      List.reverse_append, List.append_assoc]
  · rw [List.map_append, firstText, otherText, List.flatMap_cons]

theorem Fit.marks {text : String} {passed rest : List Char} {pieces : List Piece}
    (fit : Fit passed rest pieces) (split : text.toList = passed ++ rest) : Marks text pieces := by
  induction fit with
  | nil => exact fun _ _ => ⟨[], rfl, rfl, trivial⟩
  | unchanged _ _ ih =>
    rw [← List.append_assoc] at split
    exact (ih split).cons split rfl fun _ => rfl
  | replaced _ _ ih =>
    rw [← List.append_assoc] at split
    exact (ih split).cons split rfl fun same => by cases same

theorem Fit.marks?_eq_some {text : String} {pieces : List Piece} (fit : Fit [] text.toList pieces) :
    ∃ marks, (PositionMap.ofPieces pieces text.toList).marks? text (join pieces) = some marks ∧
      marks.map Prod.fst = (join pieces).toList ∧ Marked text (segments 0 pieces) [] marks := by
  obtain ⟨marks, same, characters, marked⟩ := fit.marks (List.nil_append _).symm [] []
  rw [List.append_nil] at same
  have made : (join pieces).toList = pieces.flatMap Piece.text := String.toList_ofList
  refine ⟨marks, ?_, characters.trans made.symm, marked⟩
  rw [PositionMap.marks?, made]
  exact (congrArg (Option.map List.reverse) same).trans (by simp)

end Piece

end KeySubst

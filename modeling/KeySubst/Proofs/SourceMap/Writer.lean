import KeySubst.Proofs.SourceMap.Decoded
import KeySubst.Proofs.SourceMap.Words

/-!
# Mappings in machine words

Words of 64 bits have room for all differences between mappings of texts that have less than 2 ^ 62
bytes.
-/

namespace KeySubst

structure Mapping.Fits (m : Mapping) : Prop where
  column : m.column < 2 ^ 62
  source : m.source < 2 ^ 62
  sourceLine : m.sourceLine < 2 ^ 62
  sourceColumn : m.sourceColumn < 2 ^ 62

namespace Mapping

theorem fits_origin : origin.Fits := ⟨by decide, by decide, by decide, by decide⟩

theorem Fits.atLineStart {m : Mapping} (fits : m.Fits) : m.atLineStart.Fits :=
  { fits with column := Nat.two_pow_pos 62 }

theorem Fits.differences {before m : Mapping} (left : before.Fits) (right : m.Fits) :
    ∀ v ∈ before.differences m, v.natAbs < 2 ^ 62 := by
  obtain ⟨_, _, _, _⟩ := left
  obtain ⟨_, _, _, _⟩ := right
  simp only [Mapping.differences, List.forall_mem_cons, List.not_mem_nil, false_implies,
    implies_true, and_true]
  omega

end Mapping

namespace Mappings

open Mapping (written)

theorem Writer.add_eq_some {w : Writer} {m : Mapping} (before : w.before.Fits) (fits : m.Fits) :
    w.add m = some ⟨(if w.started then w.out.push ',' else w.out) ++
      String.ofList (written w.before m), m, true⟩ := by
  rw [add, Vlq.appendAll_eq_some (before.differences fits)]
  rfl

theorem Writer.addAll_started {out : String} {before : Mapping} (first : before.Fits)
    {line : List Mapping} (fits : ∀ m ∈ line, m.Fits) :
    line.foldlM add ⟨out, before, true⟩ =
      some ⟨out ++ String.ofList ((List.zipWith written (before :: line) line).flatMap (',' :: ·)),
        line.getLast?.getD before, true⟩ := by
  induction line generalizing out before with
  | nil => simp
  | cons m line ih =>
    obtain ⟨here, rest⟩ := List.forall_mem_cons.1 fits
    rw [List.foldlM_cons, add_eq_some first here]
    refine (ih here rest).trans ?_
    rw [Option.some.injEq, Writer.mk.injEq, ← String.toList_inj]
    simp [List.getLast?_cons]

theorem intercalate_cons_flatMap (segment : List Char) (segments : List (List Char)) :
    [','].intercalate (segment :: segments) = segment ++ segments.flatMap (',' :: ·) := by
  induction segments generalizing segment with
  | nil => simp
  | cons next segments ih =>
    rw [List.intercalate_cons_of_ne_nil (by simp), ih]
    simp

theorem Writer.addAll (out : String) {before : Mapping} (first : before.Fits) {line : List Mapping}
    (fits : ∀ m ∈ line, m.Fits) :
    ∃ started, line.foldlM add ⟨out, before.atLineStart, false⟩ =
      some ⟨out ++ String.ofList (encodeLine before line),
        line.getLast?.getD before.atLineStart, started⟩ := by
  cases line with
  | nil => exact ⟨false, by simp [encodeLine]⟩
  | cons m line =>
    obtain ⟨here, rest⟩ := List.forall_mem_cons.1 fits
    refine ⟨true, ?_⟩
    rw [List.foldlM_cons, add_eq_some first.atLineStart here]
    refine (addAll_started here rest).trans ?_
    have text : encodeLine before (m :: line) = written before.atLineStart m ++
        (List.zipWith written (m :: line) line).flatMap (',' :: ·) := intercalate_cons_flatMap _ _
    rw [text, Option.some.injEq, Writer.mk.injEq, ← String.toList_inj]
    simp [List.getLast?_cons]

theorem Writer.addLines_eq_some (out : String) {before : Mapping} (first : before.Fits)
    {lines : Mappings} (fits : ∀ line ∈ lines, ∀ m ∈ line, m.Fits) :
    (addLines ⟨out, before.atLineStart, false⟩ lines).map Writer.out =
      some (out ++ String.ofList (encodeLines before lines)) := by
  -- The mapping before a line is the last one of the lines before it, whose column does not count.
  induction lines generalizing out before with
  | nil => simp [addLines, encodeLines]
  | cons line lines ih =>
    obtain ⟨here, rest⟩ := List.forall_mem_cons.1 fits
    obtain ⟨started, added⟩ := addAll out first here
    cases lines with
    | nil => simp [addLines, encodeLines, added]
    | cons next lines =>
      have last : (line.getLast?.getD before).Fits := by
        cases found : line.getLast? with
        | none => exact first
        | some m => exact here m (List.mem_of_getLast? found)
      have same : (line.getLast?.getD before.atLineStart).atLineStart =
          (line.getLast?.getD before).atLineStart := by
        cases line.getLast? <;> rfl
      have text : encodeLines before (line :: next :: lines) = encodeLine before line ++
          ';' :: encodeLines (line.getLast?.getD before) (next :: lines) := rfl
      have steps : addLines ⟨out, before.atLineStart, false⟩ (line :: next :: lines) =
          (line.foldlM add ⟨out, before.atLineStart, false⟩).bind
            fun w => addLines w.endLine (next :: lines) := rfl
      rw [steps, added, Option.bind_some, endLine, same, ih _ last rest, text, Option.some.injEq,
        ← String.toList_inj]
      simp

theorem write?_eq_some {m : Mappings} (fits : ∀ line ∈ m, ∀ mapping ∈ line, mapping.Fits) :
    m.write? = some m.encode := by
  have written := Writer.addLines_eq_some "" Mapping.fits_origin fits
  rw [String.empty_append] at written
  exact written

end Mappings

theorem Mappings.Lead.fits {text code : String} {segments : List Segment} {mappings : Mappings}
    (lead : mappings.Lead text segments code) (input : text.utf8ByteSize < 2 ^ 62)
    (output : code.utf8ByteSize < 2 ^ 62) : ∀ line ∈ mappings, ∀ m ∈ line, m.Fits := by
  intro line member m inLine
  obtain ⟨i, found⟩ := List.mem_iff_getElem?.1 member
  obtain ⟨before, c, after, p, split, ⟨-, s, -, maps⟩, place, same⟩ :=
    (lead.has_iff i m).1 ⟨line, found, inLine⟩
  have le := (Segment.maps_iff.1 maps).2.2.le
  have here := (Text.isPosition_positionAfter before (c :: after) split).le
  rw [place] at here
  rw [same]
  exact ⟨Nat.lt_of_le_of_lt here.2 output, Nat.two_pow_pos 62, Nat.lt_of_le_of_lt le.1 input,
    Nat.lt_of_le_of_lt le.2 input⟩

/-- The mappings of a substitution are written in words of 64 bits as they are encoded without a
bound, if its texts have less than 2 ^ 62 bytes. -/
theorem Matcher.substitute_writes {σ : Type} {m : Matcher σ} {table : Table σ}
    {options : MatchOptions} (compiled : compile table options = .ok m) {text name code : String}
    {map : PositionMap} {s s' : σ}
    (ran : (m.substitute text name true).outcome s = (.ok (some ⟨code, some map⟩), s'))
    (input : text.utf8ByteSize < 2 ^ 62) (output : code.utf8ByteSize < 2 ^ 62)
    (sourceName : String) :
    ∃ mappings document, map.mappings? text code = some mappings ∧
      SourceMap.ofPositionMap? map sourceName text code = some document ∧
      mappings.write? = some document.mappings := by
  obtain ⟨pieces, fit, rfl, rfl⟩ := fit_of_substitute compiled ran
  obtain ⟨marks, same, characters, marked⟩ := fit.marks?_eq_some
  have laidOut : (PositionMap.ofPieces pieces text.toList).mappings? text (Piece.join pieces) =
      some (.ofMarks marks) := by
    rw [PositionMap.mappings?, same, Option.map_some]
  have fits := (Mappings.lead_of_marked marked characters).fits input output
  refine ⟨_, ⟨3, none, [sourceName], [some text], [], (Mappings.ofMarks marks).encode⟩, laidOut, ?_,
    Mappings.write?_eq_some fits⟩
  rw [SourceMap.ofPositionMap?, laidOut]
  rfl

end KeySubst

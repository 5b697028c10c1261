import KeySubst.Proofs.Matcher.Rounds
import KeySubst.Proofs.SourceMap.Marks
import KeySubst.Proofs.Substitution.Sequence

namespace KeySubst

open Text (byteSize IsBoundary Slices Located)

/-- What is copied of a text from an offset on is cut out of it before each match and behind the
last. -/
def Gaps (text : String) : Nat → List Match → Prop
  | offset, [] => Slices text offset text.utf8ByteSize
  | offset, found :: others => Slices text offset found.start ∧ Gaps text found.stop others

structure PositionMap.Safe (map : PositionMap) (input output : String) : Prop where
  outputs : ∀ s ∈ map.segments, Slices output s.output.start s.output.stop
  inputs : ∀ s ∈ map.segments, Slices input s.input.start s.input.stop ∧
    Located input s.input.start
  mapped : ∃ ms, map.mappings? input output = some ms

structure Matcher.Safe {σ : Type} (m : Matcher σ) (text : String) : Prop where
  rounds : ∀ c, m.Starts text c → Round.Safe m text c
  found : ∀ found ∈ m.find text, ∃ c next, m.Starts text c ∧
    m.round? c = some ⟨some found, next⟩
  spans : ∀ found ∈ m.find text, found.start < found.stop ∧ Slices text found.start found.stop
  ordered : (m.find text).Pairwise fun a b => a.stop ≤ b.start
  gaps : Gaps text 0 (m.find text)
  substitutes : ∀ name withMap s, ∃ s',
    (∃ key reason, (m.substitute text name withMap).outcome s =
      (.error (.producerFailed key name reason), s')) ∨
    (m.substitute text name withMap).outcome s = (.ok none, s') ∨
    ∃ code map, map.Safe text code ∧ (m.substitute text name withMap).outcome s =
      (.ok (some ⟨code, if withMap then some map else none⟩), s')

theorem Leftmost.gaps {options : MatchOptions} {keys : List String} {text : String} {offset : Nat}
    {all : List Match} (matched : Leftmost options keys text offset all)
    (boundary : IsBoundary text offset) : Gaps text offset all := by
  induction matched with
  | done => exact ⟨boundary.le, boundary, Text.isBoundary_size text⟩
  | found foremost _ ih =>
    have slices := foremost.acceptable.slices
    exact ⟨⟨foremost.ahead, boundary, slices.starts⟩, ih slices.stops⟩

theorem Piece.Fit.safe {text : String} {pieces : List Piece} (fit : Fit [] text.toList pieces) :
    (PositionMap.ofPieces pieces text.toList).Safe text (join pieces) := by
  have made : (join pieces).toList = pieces.flatMap Piece.text := String.toList_ofList
  obtain ⟨marks, same, -⟩ := fit.marks?_eq_some
  refine ⟨?_, ?_, Mappings.ofMarks marks, ?_⟩
  · intro s member
    obtain ⟨front, p, back, rfl, rfl⟩ := mem_segments_iff.1 member
    have written : (join (front ++ p :: back)).toList =
        front.flatMap Piece.text ++ p.text ++ back.flatMap Piece.text := by
      rw [made]
      simp
    have slices := Text.slices_append written
    simpa using slices
  · intro s member
    obtain ⟨front, p, back, rfl, rfl⟩ := mem_segments_iff.1 member
    obtain ⟨before, span, after, split, input, -⟩ := fit.find rfl
    have slices := Text.slices_append split
    rw [input]
    exact ⟨slices, slices.starts.located⟩
  · rw [PositionMap.mappings?, same]
    rfl

namespace Matcher

variable {σ : Type} {m : Matcher σ} {table : Table σ} {options : MatchOptions}

theorem MadeFrom.safe (made : m.MadeFrom table options) (text : String) : m.Safe text := by
  have leftmost := find_leftmost made text
  refine ⟨fun c starts => starts.safe made, fun _ => round_of_mem_find, ?_, leftmost.ordered,
    leftmost.gaps (Text.isBoundary_zero text), ?_⟩
  · intro found member
    obtain ⟨known, acceptable⟩ := leftmost.acceptable found member
    have nonempty := made.keys_nonempty _ (made.keys_perm.mem_iff.2 known)
    exact ⟨acceptable.start_lt_stop nonempty, acceptable.slices⟩
  · intro name withMap s
    obtain ⟨calls, s', -, ended⟩ := exists_calls made text name s
    refine ⟨s', ?_⟩
    cases ended with
    | failed _ _ _ _ outcome => exact .inl ⟨_, _, outcome withMap⟩
    | succeeded _ _ outcome =>
      obtain ⟨out, ran⟩ := outcome withMap
      cases out with
      | none => exact .inr (.inl ran)
      | some out =>
        obtain ⟨texts, pieces, -, cut, rfl⟩ := produced_of_substitute made ran
        exact .inr (.inr ⟨_, _, (cut.fit rfl).safe, ran⟩)

/-- From every table without an empty key a matcher can be made, and all that is cut out of any text
for it is in range and divides no character. That holds of every place at which the bytes of a key in
its frame stand, of every edge of a word, and of all that a scan and a substitution reach. -/
theorem compile_safe (table : Table σ) (options : MatchOptions)
    (nonempty : ∀ key ∈ table.keys, key ≠ "") :
    ∃ m, compile table options = .ok m ∧ ∀ text,
      (∀ key ∈ table.keys, ∀ before after,
        Text.bytes text = before ++ Text.bytes (options.spelling key) ++ after →
          Slices text before.length (before.length + (options.spelling key).utf8ByteSize)) ∧
      (∀ offset, Text.isByteEdge text offset = true → IsBoundary text offset) ∧
      m.Safe text := by
  obtain ⟨m, compiled⟩ := exists_compile nonempty options
  refine ⟨m, compiled, fun text => ⟨?_, ?_, (madeFrom_of_compile compiled).safe text⟩⟩
  · intro key known before after occurs
    apply Text.slices_of_occurs _ occurs
    intro empty
    have size := options.utf8ByteSize_spelling key
    rw [empty, String.utf8ByteSize_empty] at size
    exact nonempty key known (String.utf8ByteSize_eq_zero_iff.1 (by omega))
  · intro offset edge
    exact Text.isBoundary_of_isByteEdge edge

theorem compile_safe_two_bytes :
    (∀ key ∈ ["é"], key ≠ "") ∧
      ∃ m : Matcher Unit,
        compile (.ofList [("é", .ofString "e")]) ⟨some ("«", "»"), true⟩ = .ok m ∧
        m.find "«é»" = [⟨0, 6, "é"⟩] ∧ Slices "«é»" 0 6 ∧ ¬ IsBoundary "«é»" 3 ∧ m.Safe "«é»" := by
  have keys : (Table.ofList (σ := Unit) [("é", .ofString "e")]).keys = ["é"] :=
    Table.keys_ofList (by decide)
  have nonempty : ∀ key ∈ ["é"], key ≠ "" := by decide
  obtain ⟨m, compiled, safe⟩ := compile_safe (Table.ofList (σ := Unit) [("é", .ofString "e")])
    ⟨some ("«", "»"), true⟩ (by rw [keys]; exact nonempty)
  obtain ⟨-, -, safe⟩ := safe "«é»"
  have acceptable : Acceptable ⟨some ("«", "»"), true⟩ "«é»" ⟨0, 6, "é"⟩ :=
    .of_spelling ⟨some ("«", "»"), true⟩ "é" fun bare => by cases bare
  have known : "é" ∈ (Table.ofList (σ := Unit) [("é", .ofString "e")]).keys := by
    rw [keys]
    exact .head _
  have found : m.find "«é»" = [⟨0, 6, "é"⟩] :=
    find_spelling (madeFrom_of_compile compiled) known acceptable
  have slices := (safe.spans _ (by rw [found]; exact .head _)).2
  have inside : ¬ IsBoundary "«é»" 3 := by
    have whole : Text.bytes "«é»" = [0xC2, 0xAB, 0xC3, 0xA9, 0xC2, 0xBB] := by decide +kernel
    rintro (same | ⟨b, stored, first⟩)
    · cases same
    · rw [whole] at stored
      cases stored
      revert first
      decide
  exact ⟨nonempty, m, compiled, found, slices, inside, safe⟩

end Matcher

end KeySubst

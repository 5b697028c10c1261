import KeySubst.Proofs.SourceMap.Marks
import KeySubst.Proofs.SourceMap.Reading
import KeySubst.Proofs.Substitution.Tiling
import KeySubst.SourceMap.Document

/-!
# Source maps of substitutions

A line of mappings stands for each line of the output, and on it are the mappings that the position
map asks for.
-/

namespace KeySubst

open Text (byteSize positionAfter IsPosition)

structure Mappings.Lead (text : String) (segments : List Segment) (code : String)
    (mappings : Mappings) : Prop where
  lines : mappings.length = code.toList.count '\n' + 1
  increasing : ∀ line ∈ mappings, line.Pairwise fun a b => a.column < b.column
  /-- Every character that is mapped has its mapping, and there are no others. -/
  has_iff : ∀ line m, mappings.Has line m ↔
    ∃ before c after p, code.toList = before ++ c :: after ∧ Maps text segments before c p ∧
      positionAfter before = ⟨line, m.column⟩ ∧ m = ⟨m.column, 0, p.line, p.column⟩

theorem Mappings.lead_of_marked {text code : String} {segments : List Segment} {marks : List Mark}
    (marked : Marked text segments [] marks) (characters : marks.map Prod.fst = code.toList) :
    (Mappings.ofMarks marks).Lead text segments code := by
  obtain ⟨l, laidOut, laid⟩ := Mappings.ofMarks_of marks
  rw [laidOut]
  refine ⟨?_, laid.increasing, fun line m => (laid.has_iff line m).trans ?_⟩
  · have place := laid.position
    rw [characters] at place
    rw [Layout.mappings_eq, List.length_append, List.length_reverse, List.length_singleton]
    exact congrArg (·.line + 1) place.symm
  · exact marked.call_iff characters line m

theorem Piece.Fit.decode?_eq_some {text : String} {pieces : List Piece}
    (fit : Fit [] text.toList pieces) (sourceName : String) :
    ∃ document mappings,
      SourceMap.ofPositionMap? (.ofPieces pieces text.toList) sourceName text (join pieces) =
        some document ∧
      Mappings.decode? document.mappings = some mappings ∧
      mappings.Lead text (segments 0 pieces) (join pieces) := by
  obtain ⟨marks, same, characters, marked⟩ := fit.marks?_eq_some
  have lead := Mappings.lead_of_marked marked characters
  have nonempty : Mappings.ofMarks marks ≠ [] := by
    intro empty
    have lines := lead.lines
    rw [empty, List.length_nil] at lines
    omega
  have written : SourceMap.ofPositionMap? (.ofPieces pieces text.toList) sourceName text
      (join pieces) =
        some ⟨3, none, [sourceName], [some text], [], (Mappings.ofMarks marks).encode⟩ := by
    simp only [SourceMap.ofPositionMap?, PositionMap.mappings?, same, Option.map_some]
  exact ⟨_, _, written, Mappings.decode?_encode nonempty, lead⟩

theorem Mappings.getLast?_filter {line : List Mapping} {m : Mapping} {column : Nat}
    (increasing : line.Pairwise fun a b => a.column < b.column) (member : m ∈ line)
    (reached : m.column ≤ column)
    (last : ∀ other ∈ line, other.column ≤ column → other.column ≤ m.column) :
    (line.filter (·.column ≤ column)).getLast? = some m := by
  obtain ⟨front, back, rfl⟩ := List.append_of_mem member
  obtain ⟨-, behind, -⟩ := List.pairwise_append.1 increasing
  have past : back.filter (·.column ≤ column) = [] := by
    apply List.filter_eq_nil_iff.2
    intro other inBack
    have more := (List.pairwise_cons.1 behind).1 other inBack
    have atMost := last other (by simp [inBack])
    rw [decide_eq_true_eq]
    omega
  rw [List.filter_append, List.filter_cons_of_pos (by simpa using reached), past,
    List.getLast?_concat]

/-- Where a character is mapped and none behind it up to a place is, on one line, its mapping is the
last one up to that place. -/
theorem Mappings.Lead.last {text code : String} {segments : List Segment} {mappings : Mappings}
    (lead : mappings.Lead text segments code) {before more after rest : List Char} {c : Char}
    {p : Text.Position} (here : code.toList = before ++ c :: after)
    (maps : Maps text segments before c p) (there : code.toList = before ++ more ++ rest)
    (single : '\n' ∉ more)
    (none : ∀ u d v q, more = u ++ v → u ≠ [] → ¬Maps text segments (before ++ u) d q) :
    ∃ line m, mappings[(positionAfter (before ++ more)).line]? = some line ∧
      (line.filter (·.column ≤ (positionAfter (before ++ more)).column)).getLast? = some m ∧
      m = ⟨m.column, 0, p.line, p.column⟩ := by
  have place := Text.positionAfter_append_of_not_mem before single
  obtain ⟨line, found, member⟩ := (lead.has_iff (positionAfter before).line
    ⟨(positionAfter before).column, 0, p.line, p.column⟩).2
    ⟨before, c, after, p, here, maps, rfl, rfl⟩
  rw [place]
  refine ⟨line, _, found, Mappings.getLast?_filter (lead.increasing line
    (List.mem_of_getElem? found)) member (Nat.le_add_right _ _) fun other inLine reached => ?_, rfl⟩
  obtain ⟨before', d, after', q, split, maps', position, -⟩ :=
    (lead.has_iff _ other).1 ⟨line, found, inLine⟩
  apply Nat.not_lt.1
  intro exceeds
  -- The other character stands behind the first one and up to the place, so it is not mapped.
  have notPast : ¬(positionAfter (before ++ more)).Before (positionAfter before') := by
    unfold Text.Position.Before
    rw [place, position]
    simp only at reached ⊢
    omega
  obtain ⟨v, upTo, -⟩ := Text.append_of_not_before (split.symm.trans there) notPast
  have notBefore : ¬(positionAfter before').Before (positionAfter before) := by
    unfold Text.Position.Before
    rw [position]
    simp only at exceeds ⊢
    omega
  obtain ⟨u, rfl, -⟩ := Text.append_of_not_before (here.symm.trans split) notBefore
  rw [List.append_assoc, List.append_cancel_left_eq] at upTo
  refine none u d v q upTo ?_ maps'
  rintro rfl
  rw [List.append_nil] at position
  rw [position] at exceeds
  exact Nat.lt_irrefl _ exceeds

namespace Segment

theorem inputOffset_of_replaced {s : Segment} (kind : s.kind = .replaced) (offset : Nat) :
    s.inputOffset offset = s.input.start := by
  rw [inputOffset, kind]

theorem maps_iff {s : Segment} {text : String} {before : List Char} {p : Text.Position} :
    s.Maps text before p ↔ s.output.Holds (byteSize before) ∧
      (s.kind = .replaced → byteSize before = s.output.start ∨ before.getLast? = some '\n') ∧
      IsPosition text (s.inputOffset (byteSize before)) p := by
  unfold Maps inputOffset
  cases s.kind <;> simp

end Segment

namespace Piece

theorem exists_piece {pieces : List Piece} {before after : List Char} {c : Char}
    (split : pieces.flatMap Piece.text = before ++ c :: after) :
    ∃ front p back x y, pieces = front ++ p :: back ∧ p.text = x ++ c :: y ∧
      before = front.flatMap Piece.text ++ x := by
  induction pieces generalizing before with
  | nil => simp at split
  | cons q pieces ih =>
    have later : ∀ rest, pieces.flatMap Piece.text = rest ++ c :: after →
        before = q.text ++ rest → ∃ front p back x y, q :: pieces = front ++ p :: back ∧
          p.text = x ++ c :: y ∧ before = front.flatMap Piece.text ++ x := by
      rintro rest inRest rfl
      obtain ⟨front, p, back, x, y, rfl, inPiece, rfl⟩ := ih inRest
      exact ⟨q :: front, p, back, x, y, rfl, inPiece, by simp⟩
    rw [List.flatMap_cons] at split
    rcases List.append_eq_append_iff.1 split with ⟨rest, rfl, inRest⟩ | ⟨more, inPiece, inRest⟩
    · exact later rest inRest rfl
    · cases more with
      | nil => exact later [] inRest.symm (by simpa using inPiece.symm)
      | cons d more =>
        obtain ⟨rfl, -⟩ := List.cons.inj inRest
        exact ⟨[], q, pieces, before, more, rfl, inPiece, rfl⟩

theorem segmentAfter_mem (front back : List Piece) (p : Piece) :
    p.segmentAfter (front.flatMap Piece.text) ∈ segments 0 (front ++ p :: back) :=
  mem_segments_iff.2 ⟨front, p, back, rfl, by simp [segmentAfter]⟩

theorem find?_of_holds {pieces : List Piece} {s : Segment} {offset : Nat}
    (member : s ∈ segments 0 pieces) (holds : s.output.Holds offset) :
    (segments 0 pieces).find? (offset < ·.output.stop) = some s := by
  obtain ⟨front, p, back, rfl, same⟩ := mem_segments_iff.1 member
  obtain ⟨start, stop⟩ := holds
  have earlier : ∀ t ∈ segments 0 front, ¬decide (offset < t.output.stop) = true := by
    intro t inFront
    obtain ⟨before, q, after, rfl, rfl⟩ := mem_segments_iff.1 inFront
    rw [same] at start
    simp only [List.flatMap_append, List.flatMap_cons, List.flatMap_nil, Text.byteSize_append,
      Text.byteSize_nil, decide_eq_true_eq] at start ⊢
    omega
  have first : segments (0 + byteSize (front.flatMap Piece.text)) (p :: back) =
      s :: segments (0 + byteSize (front.flatMap Piece.text) + byteSize p.text) back := by
    rw [same, segments]
    simp
  rw [segments_append, List.find?_append, List.find?_eq_none.2 earlier, Option.none_or, first,
    List.find?_cons_of_pos (by simpa using stop)]

theorem eq_of_holds {pieces : List Piece} {s t : Segment} {offset : Nat}
    (left : s ∈ segments 0 pieces) (leftHolds : s.output.Holds offset)
    (right : t ∈ segments 0 pieces) (rightHolds : t.output.Holds offset) : s = t :=
  Option.some.inj ((find?_of_holds left leftHolds).symm.trans (find?_of_holds right rightHolds))

theorem inputOffset?_of_holds (input : List Char) {pieces : List Piece} {s : Segment} {offset : Nat}
    (member : s ∈ segments 0 pieces) (holds : s.output.Holds offset) :
    (PositionMap.ofPieces pieces input).inputOffset? offset = some (s.inputOffset offset) := by
  have inside : offset < (PositionMap.ofPieces pieces input).outputSize := by
    obtain ⟨front, p, back, rfl, rfl⟩ := mem_segments_iff.1 member
    have stop := holds.2
    simp only [PositionMap.ofPieces, List.flatMap_append, List.flatMap_cons, List.flatMap_nil,
      Text.byteSize_append, Text.byteSize_nil] at stop ⊢
    omega
  rw [PositionMap.inputOffset?, if_neg (by omega), if_neg (by omega)]
  exact congrArg (Option.map _) (find?_of_holds member holds)

theorem holds_segmentAfter (written : List Char) {p : Piece} {u v : List Char}
    (cut : p.text = u ++ v) (nonempty : v ≠ []) :
    (p.segmentAfter written).output.Holds (byteSize (written ++ u)) := by
  have := Text.byteSize_pos nonempty
  simp only [Span.Holds, segmentAfter, cut, Text.byteSize_append]
  omega

theorem Fit.exists_isPosition {text : String} {front back : List Piece} {p : Piece}
    (fit : Fit [] text.toList (front ++ p :: back)) (written : List Char) {x y : List Char}
    (inPiece : p.text = x ++ y) :
    ∃ q, IsPosition text ((p.segmentAfter written).inputOffset (byteSize (written ++ x))) q := by
  obtain ⟨passed, span, rest, input, place, -, same⟩ := fit.find rfl
  rw [List.nil_append] at input
  cases kind : p.kind with
  | unchanged =>
    have offset : byteSize passed + (byteSize (written ++ x) - byteSize written) =
        byteSize (passed ++ x) := by
      simp only [Text.byteSize_append]
      omega
    have split : text.toList = passed ++ x ++ (y ++ rest) := by
      rw [input, ← same kind, inPiece]
      simp
    simp only [Segment.inputOffset, segmentAfter, kind, place, offset]
    exact ⟨_, Text.isPosition_positionAfter _ _ split⟩
  | replaced =>
    rw [List.append_assoc] at input
    simp only [Segment.inputOffset, segmentAfter, kind, place]
    exact ⟨_, Text.isPosition_positionAfter _ _ input⟩

/-- Behind the start of a line of text that was put in, nothing is mapped up to the line's end. -/
theorem not_maps_inserted {text : String} {pieces : List Piece} {s : Segment}
    {start lines u : List Char} (member : s ∈ segments 0 pieces) (kind : s.kind = .replaced)
    (begins : s.output.start = byteSize start)
    (holds : s.output.Holds (byteSize (start ++ lines ++ u))) (single : '\n' ∉ u)
    (nonempty : u ≠ []) {d : Char} {q : Text.Position} :
    ¬Maps text (segments 0 pieces) (start ++ lines ++ u) d q := by
  rintro ⟨-, t, inSegments, maps⟩
  obtain rfl := eq_of_holds member holds inSegments maps.1
  rcases (Segment.maps_iff.1 maps).2.1 kind with atStart | lineEnd
  · have := Text.byteSize_pos nonempty
    rw [begins, Text.byteSize_append, Text.byteSize_append] at atStart
    omega
  · rw [List.getLast?_append, Option.or_of_isSome (List.getLast?_isSome.2 nonempty)] at lineEnd
    exact single (List.mem_of_getLast? lineEnd)

/-- For every character of the output there is one, on its line and not behind it, that is mapped to
where the position map leads from here, and none behind that one up to here is mapped. -/
theorem Fit.exists_maps {text : String} {pieces : List Piece} (fit : Fit [] text.toList pieces)
    {before after : List Char} {c : Char} (split : (join pieces).toList = before ++ c :: after)
    (other : c ≠ '\n') :
    ∃ start more d rest offset p, before = start ++ more ∧ '\n' ∉ more ∧
      (join pieces).toList = start ++ d :: rest ∧ Maps text (segments 0 pieces) start d p ∧
      (∀ u e v q, more = u ++ v → u ≠ [] → ¬Maps text (segments 0 pieces) (start ++ u) e q) ∧
      (PositionMap.ofPieces pieces text.toList).inputOffset? (byteSize before) = some offset ∧
      IsPosition text offset p := by
  have made : (join pieces).toList = pieces.flatMap Piece.text := String.toList_ofList
  obtain ⟨front, p, back, x, y, rfl, inPiece, rfl⟩ := exists_piece (made.symm.trans split)
  have member := segmentAfter_mem front back p
  generalize front.flatMap Piece.text = written at split member
  have here := holds_segmentAfter written inPiece (List.cons_ne_nil c y)
  have leads := inputOffset?_of_holds text.toList member here
  obtain ⟨q, position⟩ := fit.exists_isPosition written inPiece
  cases kind : p.kind with
  | unchanged =>
    have copied : (p.segmentAfter written).kind ≠ .replaced := by
      simp [segmentAfter, kind]
    have maps := Segment.maps_iff.2 ⟨here, fun replaced => absurd replaced copied, position⟩
    refine ⟨_, [], c, after, _, q, (List.append_nil _).symm, List.not_mem_nil, split,
      ⟨other, _, member, maps⟩, fun u _ v _ nothing nonempty => ?_, leads, position⟩
    exact absurd (List.append_eq_nil_iff.1 nothing.symm).1 nonempty
  | replaced =>
    obtain ⟨lines, cut, single, lineStart⟩ := Text.exists_append_lastLine x
    generalize Text.lastLine x = tail at cut single
    subst cut
    obtain ⟨d, more, first, plain⟩ : ∃ d more, tail ++ c :: after = d :: more ∧ d ≠ '\n' := by
      cases tail with
      | nil => exact ⟨c, after, rfl, other⟩
      | cons d tail => exact ⟨d, _, rfl, fun same => single (same ▸ List.mem_cons_self)⟩
    have begins : (p.segmentAfter written).output.Holds (byteSize (written ++ lines)) :=
      holds_segmentAfter written (by rw [inPiece, List.append_assoc])
        (List.append_ne_nil_of_right_ne_nil tail (List.cons_ne_nil c y))
    have starts : byteSize (written ++ lines) = byteSize written ∨
        (written ++ lines).getLast? = some '\n' := by
      rcases lineStart with empty | lineEnd
      · exact .inl (by rw [empty, List.append_nil])
      · exact .inr (by rw [List.getLast?_append, lineEnd, Option.some_or])
    have maps : (p.segmentAfter written).Maps text (written ++ lines) q := by
      refine Segment.maps_iff.2 ⟨begins, fun _ => starts, ?_⟩
      rwa [Segment.inputOffset_of_replaced kind] at position ⊢
    refine ⟨written ++ lines, tail, d, more, _, q, (List.append_assoc _ _ _).symm, single, ?_,
      ⟨plain, _, member, maps⟩, ?_, leads, position⟩
    · rw [split, ← first]
      simp
    · rintro u e v r rfl nonempty
      have inside : (p.segmentAfter written).output.Holds (byteSize (written ++ lines ++ u)) := by
        rw [List.append_assoc]
        exact holds_segmentAfter written (v := v ++ c :: y) (by rw [inPiece]; simp) (by simp)
      exact not_maps_inserted member kind rfl inside
        (fun lineEnd => single (List.mem_append_left _ lineEnd)) nonempty

theorem Fit.lookup {text : String} {pieces : List Piece} (fit : Fit [] text.toList pieces)
    {mappings : Mappings} (lead : mappings.Lead text (segments 0 pieces) (join pieces))
    {before after : List Char} {c : Char} (split : (join pieces).toList = before ++ c :: after)
    (other : c ≠ '\n') :
    ∃ line m offset p, mappings[(positionAfter before).line]? = some line ∧
      (line.filter (·.column ≤ (positionAfter before).column)).getLast? = some m ∧
      (PositionMap.ofPieces pieces text.toList).inputOffset? (byteSize before) = some offset ∧
      IsPosition text offset p ∧ m = ⟨m.column, 0, p.line, p.column⟩ := by
  obtain ⟨start, more, d, rest, offset, p, rfl, single, here, maps, none, leads, position⟩ :=
    fit.exists_maps split other
  obtain ⟨line, m, found, last, mapping⟩ := lead.last here maps split single none
  exact ⟨line, m, offset, p, found, last, leads, position, mapping⟩

end Piece

/-! ### Substitutions -/

namespace Matcher

variable {σ : Type} {m : Matcher σ} {table : Table σ} {options : MatchOptions} {name : String}

theorem fit_of_substitute (compiled : compile table options = .ok m) {text code : String}
    {map : PositionMap} {s s' : σ}
    (ran : (m.substitute text name true).outcome s = (.ok (some ⟨code, some map⟩), s')) :
    ∃ pieces, Piece.Fit [] text.toList pieces ∧ code = Piece.join pieces ∧
      map = .ofPieces pieces text.toList := by
  obtain ⟨_, pieces, -, cut, same⟩ := produced_of_substitute (madeFrom_of_compile compiled) ran
  cases same
  exact ⟨pieces, cut.fit rfl, rfl, rfl⟩

/-- The source map of a substitution is written and can be read: it holds the mappings that the
segments of the position map ask for, and no others. -/
theorem substitute_mappings (compiled : compile table options = .ok m) {text code : String}
    {map : PositionMap} {s s' : σ}
    (ran : (m.substitute text name true).outcome s = (.ok (some ⟨code, some map⟩), s'))
    (sourceName : String) :
    ∃ document mappings, SourceMap.ofPositionMap? map sourceName text code = some document ∧
      Mappings.decode? document.mappings = some mappings ∧
      mappings.Lead text map.segments code := by
  obtain ⟨pieces, fit, rfl, rfl⟩ := fit_of_substitute compiled ran
  exact fit.decode?_eq_some sourceName

theorem substitute_mappings_two_lines :
    ∃ (m : Matcher Unit) (map : PositionMap),
      compile (.ofList [("KEY", .function (.surrounding "<\n" ">"))]) ⟨none, true⟩ = .ok m ∧
      map = ⟨[⟨.replaced, ⟨0, 7⟩, ⟨0, 3⟩⟩, ⟨.unchanged, ⟨7, 8⟩, ⟨3, 4⟩⟩,
        ⟨.replaced, ⟨8, 15⟩, ⟨4, 7⟩⟩], 15, 7⟩ ∧
      (m.substitute "KEY;KEY" "a.js" true).outcome () =
        (.ok (some ⟨"<\na.js>;<\na.js>", some map⟩), ()) ∧
      ∃ document mappings,
        SourceMap.ofPositionMap? map "a.js" "KEY;KEY" "<\na.js>;<\na.js>" = some document ∧
        Mappings.decode? document.mappings = some mappings ∧
        mappings.length = 3 ∧ mappings.Has 1 ⟨5, 0, 0, 3⟩ ∧ mappings.Has 2 ⟨0, 0, 0, 4⟩ := by
  obtain ⟨m, compiled, -, -, ran⟩ := substitute_key_twice
    (.function (.surrounding "<\n" ">")) "a.js" "<\na.js>" rfl
  obtain ⟨document, mappings, written, read, lead⟩ := substitute_mappings compiled ran "a.js"
  refine ⟨m, _, compiled, rfl, ran, document, mappings, written, read, lead.lines, ?_, ?_⟩
  · have semicolon : IsPosition "KEY;KEY" 3 ⟨0, 3⟩ :=
      ⟨"KEY".toList, ";KEY".toList, rfl, rfl, rfl⟩
    exact (lead.has_iff _ _).2 ⟨"<\na.js>".toList, ';', "<\na.js>".toList, ⟨0, 3⟩, by decide,
      ⟨by decide, _, .tail _ (.head _), ⟨by decide, by decide⟩, semicolon⟩, by decide, rfl⟩
  · have second : IsPosition "KEY;KEY" 4 ⟨0, 4⟩ := ⟨"KEY;".toList, "KEY".toList, rfl, rfl, rfl⟩
    exact (lead.has_iff _ _).2 ⟨"<\na.js>;<\n".toList, 'a', ".js>".toList, ⟨0, 4⟩, by decide,
      ⟨by decide, _, .tail _ (.tail _ (.head _)), ⟨by decide, by decide⟩, .inr rfl, second⟩,
      by decide, rfl⟩

/-- For every character of the output that is not a line end, the last mapping of its line up to its
column leads to the position of the offset that the position map gives for it. -/
theorem substitute_lookup (compiled : compile table options = .ok m) {text code : String}
    {map : PositionMap} {s s' : σ}
    (ran : (m.substitute text name true).outcome s = (.ok (some ⟨code, some map⟩), s'))
    (sourceName : String) :
    ∃ document mappings, SourceMap.ofPositionMap? map sourceName text code = some document ∧
      Mappings.decode? document.mappings = some mappings ∧
      ∀ before c after, code.toList = before ++ c :: after → c ≠ '\n' →
        ∃ line found offset p, mappings[(positionAfter before).line]? = some line ∧
          (line.filter (·.column ≤ (positionAfter before).column)).getLast? = some found ∧
          map.inputOffset? (byteSize before) = some offset ∧
          IsPosition text offset p ∧ found = ⟨found.column, 0, p.line, p.column⟩ := by
  obtain ⟨pieces, fit, rfl, rfl⟩ := fit_of_substitute compiled ran
  obtain ⟨document, mappings, written, read, lead⟩ := fit.decode?_eq_some sourceName
  exact ⟨document, mappings, written, read, fun _ _ _ split other => fit.lookup lead split other⟩

theorem substitute_lookup_two_lines :
    ∃ (m : Matcher Unit) (map : PositionMap),
      compile (.ofList [("KEY", .function (.surrounding "<\n" ">"))]) ⟨none, true⟩ = .ok m ∧
      map = ⟨[⟨.replaced, ⟨0, 7⟩, ⟨0, 3⟩⟩, ⟨.unchanged, ⟨7, 8⟩, ⟨3, 4⟩⟩,
        ⟨.replaced, ⟨8, 15⟩, ⟨4, 7⟩⟩], 15, 7⟩ ∧
      (m.substitute "KEY;KEY" "a.js" true).outcome () =
        (.ok (some ⟨"<\na.js>;<\na.js>", some map⟩), ()) ∧
      "<\na.js>;<\na.js>".toList = "<\na.js>".toList ++ ';' :: "<\na.js>".toList ∧
      "<\na.js>;<\na.js>".toList = "<\na.js>;<\na.js".toList ++ '>' :: [] ∧
      ∃ document mappings line line' found found',
        SourceMap.ofPositionMap? map "a.js" "KEY;KEY" "<\na.js>;<\na.js>" = some document ∧
        Mappings.decode? document.mappings = some mappings ∧
        mappings[1]? = some line ∧ (line.filter (·.column ≤ 5)).getLast? = some found ∧
        found = ⟨found.column, 0, 0, 3⟩ ∧
        mappings[2]? = some line' ∧ (line'.filter (·.column ≤ 4)).getLast? = some found' ∧
        found' = ⟨found'.column, 0, 0, 4⟩ := by
  obtain ⟨m, compiled, -, -, ran⟩ := substitute_key_twice
    (.function (.surrounding "<\n" ">")) "a.js" "<\na.js>" rfl
  obtain ⟨document, mappings, written, read, agree⟩ := substitute_lookup compiled ran "a.js"
  have copied : "<\na.js>;<\na.js>".toList = "<\na.js>".toList ++ ';' :: "<\na.js>".toList := by
    decide
  have put : "<\na.js>;<\na.js>".toList = "<\na.js>;<\na.js".toList ++ '>' :: [] := by decide
  obtain ⟨line, found, offset, p, inLine, last, leads, position, mapping⟩ :=
    agree _ _ _ copied (by decide)
  obtain ⟨line', found', offset', p', inLine', last', leads', position', mapping'⟩ :=
    agree _ _ _ put (by decide)
  obtain rfl : 3 = offset := Option.some.inj leads
  obtain rfl : 4 = offset' := Option.some.inj leads'
  have third : p = positionAfter "KEY".toList :=
    position.eq_positionAfter (show _ = _ ++ ";KEY".toList from rfl)
  have fourth : p' = positionAfter "KEY;".toList :=
    position'.eq_positionAfter (show _ = _ ++ "KEY".toList from rfl)
  rw [third] at mapping
  rw [fourth] at mapping'
  exact ⟨m, _, compiled, rfl, ran, copied, put, document, mappings, line, line', found, found',
    written, read, inLine, last, mapping, inLine', last', mapping'⟩

end Matcher

end KeySubst

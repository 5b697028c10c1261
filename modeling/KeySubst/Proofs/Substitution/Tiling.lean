import KeySubst.Proofs.Matcher.Locality
import KeySubst.Proofs.Substitution.Pieces
import Mathlib.Data.List.Chain

namespace KeySubst

open Text (byteSize)

def Span.slice (span : Span) (text : String) : List UInt8 :=
  ((Text.bytes text).drop span.start).take (span.stop - span.start)

def Match.span (found : Match) : Span := ⟨found.start, found.stop⟩

/-- Bytes from an offset on, with texts in place of matches. -/
def spliced (bytes : List UInt8) (offset : Nat) : List (Match × String) → List UInt8
  | [] => bytes.drop offset
  | (found, text) :: others =>
    (bytes.drop offset).take (found.start - offset) ++ Text.bytes text ++
      spliced bytes found.stop others

/-- Segments that follow one another in output and input, from two offsets up to two others. -/
def Tiles (output input : Nat) : List Segment → Nat → Nat → Prop
  | [], outputEnd, inputEnd => output = outputEnd ∧ input = inputEnd
  | s :: segments, outputEnd, inputEnd =>
    s.output.start = output ∧ s.output.start ≤ s.output.stop ∧
      s.input.start = input ∧ s.input.start ≤ s.input.stop ∧
      Tiles s.output.stop s.input.stop segments outputEnd inputEnd

structure Records (text : String) (replaced : List (Match × String)) (code : String)
    (map : PositionMap) : Prop where
  code_eq : Text.bytes code = spliced (Text.bytes text) 0 replaced
  outputSize_eq : map.outputSize = code.utf8ByteSize
  inputSize_eq : map.inputSize = text.utf8ByteSize
  tiles : Tiles 0 0 map.segments code.utf8ByteSize text.utf8ByteSize
  unchanged : ∀ s ∈ map.segments, s.kind = .unchanged →
    s.output.start < s.output.stop ∧
      s.output.stop - s.output.start = s.input.stop - s.input.start ∧
      s.output.slice code = s.input.slice text
  separate : (map.segments.map Segment.kind).IsChain fun a b => a = .replaced ∨ b = .replaced
  replaced_eq : (map.segments.filter fun s => s.kind = .replaced).map
      (fun s => (s.input, s.output.slice code)) =
    replaced.map fun (found, text) => (found.span, Text.bytes text)
  spans : ∀ pair ∈ replaced, pair.1.start < pair.1.stop

theorem Span.slice_between {text : String} {before mid after : List Char}
    (split : text.toList = before ++ mid ++ after) :
    Span.slice ⟨byteSize before, byteSize (before ++ mid)⟩ text =
      mid.flatMap String.utf8EncodeChar := by
  rw [slice, Text.bytes_eq_flatMap, split]
  simp only [List.flatMap_append, List.append_assoc, Text.byteSize_eq_length, List.length_append,
    List.drop_left, Nat.add_sub_cancel_left, List.take_left]

namespace Piece

theorem Fit.tiles {passed rest : List Char} {pieces : List Piece} (fit : Fit passed rest pieces)
    (offset : Nat) :
    Tiles offset (byteSize passed) (segments offset pieces)
      (offset + byteSize (pieces.flatMap Piece.text)) (byteSize (passed ++ rest)) := by
  induction fit generalizing offset with
  | nil => simp [segments, Tiles]
  | @unchanged passed text rest pieces _ _ ih =>
    have later := ih (offset + byteSize text)
    rw [Nat.add_assoc, ← Text.byteSize_append, List.append_assoc] at later
    exact ⟨rfl, Nat.le_add_right _ _, rfl, by simp, later⟩
  | @replaced passed span rest text pieces _ _ ih =>
    have later := ih (offset + byteSize text)
    rw [Nat.add_assoc, ← Text.byteSize_append, List.append_assoc] at later
    exact ⟨rfl, Nat.le_add_right _ _, rfl, by simp, later⟩

theorem Fit.unchanged_segment {text code : String} {pieces : List Piece}
    (fit : Fit [] text.toList pieces) (made : code.toList = pieces.flatMap Piece.text) {s : Segment}
    (member : s ∈ segments 0 pieces) (kind : s.kind = .unchanged) :
    s.output.start < s.output.stop ∧
      s.output.stop - s.output.start = s.input.stop - s.input.start ∧
      s.output.slice code = s.input.slice text := by
  obtain ⟨front, p, back, rfl, rfl⟩ := mem_segments_iff.1 member
  obtain ⟨before, span, after, split, input, nonempty, same⟩ := fit.find rfl
  have copied : p.text = span := same kind
  have written : code.toList = front.flatMap Piece.text ++ span ++ back.flatMap Piece.text := by
    rw [made, ← copied]
    simp
  have positive := Text.byteSize_pos nonempty
  simp only [Nat.zero_add, List.flatMap_append, List.flatMap_singleton, copied, input]
  refine ⟨?_, ?_, (Span.slice_between written).trans (Span.slice_between split).symm⟩
  all_goals
    simp only [Text.byteSize_append]
    omega

theorem copied_kind (offset : Nat) (kept : List Char) :
    (copied offset kept).map Piece.kind = [] ∨
      (copied offset kept).map Piece.kind = [.unchanged] := by
  unfold copied
  split
  · exact .inl rfl
  · exact .inr rfl

theorem Cut.separate {offset : Nat} {rest : List Char} {replaced : List (Match × String)}
    {pieces : List Piece} (cut : Cut offset rest replaced pieces) :
    (pieces.map Piece.kind).IsChain fun a b => a = .replaced ∨ b = .replaced := by
  induction cut with
  | @last offset rest => rcases copied_kind offset rest with h | h <;> simp [h]
  | @next offset kept span rest found text others pieces _ _ _ _ ih =>
    have behind : (SegmentKind.replaced :: pieces.map Piece.kind).IsChain
        fun a b => a = .replaced ∨ b = .replaced := by
      rw [List.isChain_cons]
      exact ⟨fun _ _ => .inl rfl, ih⟩
    rw [List.map_append, List.map_cons]
    rcases copied_kind offset kept with h | h <;> simp [h, behind]

theorem Cut.replaced_pieces {offset : Nat} {rest : List Char} {replaced : List (Match × String)}
    {pieces : List Piece} (cut : Cut offset rest replaced pieces) :
    (pieces.filter fun p => p.kind = .replaced).map (fun p => (p.input, p.text)) =
      replaced.map fun (found, text) => (found.span, text.toList) := by
  have none : ∀ offset kept, (copied offset kept).filter (fun p => p.kind = .replaced) = [] := by
    intro offset kept
    unfold copied
    split <;> simp
  induction cut with
  | last => rw [none]; rfl
  | next _ _ _ _ ih =>
    rw [List.filter_append, none, List.nil_append, List.filter_cons_of_pos (by simp), List.map_cons,
      List.map_cons, ih]
    rfl

theorem replaced_segments {code : String} {written : List Char} {pieces : List Piece}
    (made : code.toList = written ++ pieces.flatMap Piece.text) :
    ((segments (byteSize written) pieces).filter fun s => s.kind = .replaced).map
        (fun s => (s.input, s.output.slice code)) =
      ((pieces.filter fun p => p.kind = .replaced).map fun p => (p.input, p.text)).map
        fun (input, text) => (input, text.flatMap String.utf8EncodeChar) := by
  induction pieces generalizing written with
  | nil => rfl
  | cons p pieces ih =>
    have split : code.toList = written ++ p.text ++ pieces.flatMap Piece.text := by
      rw [made, List.flatMap_cons, List.append_assoc]
    have later := ih split
    rw [Text.byteSize_append] at later
    rw [segments]
    cases kind : p.kind with
    | unchanged =>
      rw [List.filter_cons_of_neg (by simp), List.filter_cons_of_neg (by simp [kind]), later]
    | replaced =>
      rw [List.filter_cons_of_pos (by simp), List.filter_cons_of_pos (by simp [kind]),
        List.map_cons, List.map_cons, List.map_cons, later, ← Text.byteSize_append,
        Span.slice_between split]

theorem Cut.bytes_eq {text : String} {offset : Nat} {rest : List Char}
    {replaced : List (Match × String)} {pieces : List Piece}
    (cut : Cut offset rest replaced pieces) {passed : List Char}
    (split : text.toList = passed ++ rest) (here : offset = byteSize passed) :
    (pieces.flatMap Piece.text).flatMap String.utf8EncodeChar =
      spliced (Text.bytes text) offset replaced := by
  have run : ∀ offset kept, (copied offset kept).flatMap Piece.text = kept := by
    intro offset kept
    unfold copied
    split
    · rename_i empty
      rw [List.isEmpty_iff.1 empty]
      rfl
    · simp
  induction cut generalizing passed with
  | last =>
    rw [run, spliced, Text.bytes_eq_flatMap, split, here, List.flatMap_append,
      Text.byteSize_eq_length, List.drop_left]
  | @next offset kept span rest found produced others pieces start stop _ _ ih =>
    subst here
    have before : text.toList = passed ++ kept ++ (span ++ rest) := by
      rw [split, List.append_assoc]
    have behind : text.toList = passed ++ kept ++ span ++ rest := by
      rw [before, List.append_assoc (passed ++ kept)]
    have copied_eq : ((Text.bytes text).drop (byteSize passed)).take
        (found.start - byteSize passed) = kept.flatMap String.utf8EncodeChar := by
      rw [start, ← Text.byteSize_append]
      exact Span.slice_between before
    have later := ih behind (by rw [stop, start, Text.byteSize_append, Text.byteSize_append])
    rw [spliced, copied_eq, ← later, Text.bytes_eq_flatMap]
    simp only [List.flatMap_append, List.flatMap_cons, run, List.append_assoc]

end Piece

/-! ### Substitutions -/

namespace Matcher

variable {σ : Type} {m : Matcher σ} {table : Table σ} {options : MatchOptions} {name : String}

theorem records_of_cut {text : String} {replaced : List (Match × String)} {pieces : List Piece}
    (cut : Piece.Cut 0 text.toList replaced pieces)
    (spans : ∀ pair ∈ replaced, pair.1.start < pair.1.stop) :
    Records text replaced (Piece.join pieces) (.ofPieces pieces text.toList) := by
  have fit : Piece.Fit [] text.toList pieces := cut.fit rfl
  have made : (Piece.join pieces).toList = pieces.flatMap Piece.text := String.toList_ofList
  have size : (Piece.join pieces).utf8ByteSize = byteSize (pieces.flatMap Piece.text) := by
    rw [← Text.byteSize_toList, made]
  refine {
    code_eq := ?_
    outputSize_eq := size.symm
    inputSize_eq := Text.byteSize_toList text
    tiles := ?_
    unchanged := fun s member kind => fit.unchanged_segment made member kind
    separate := ?_
    replaced_eq := ?_
    spans := spans }
  · rw [Text.bytes_eq_flatMap, made]
    exact cut.bytes_eq (List.nil_append _).symm rfl
  · have tiles := fit.tiles 0
    rwa [Nat.zero_add, List.nil_append, Text.byteSize_toList, ← size] at tiles
  · rw [PositionMap.ofPieces, Piece.segments_kind]
    exact cut.separate
  · have put := Piece.replaced_segments (made.trans (List.nil_append _).symm)
    rw [cut.replaced_pieces, List.map_map] at put
    simp only [Text.bytes_eq_flatMap]
    exact put

theorem substitute_of_produced (made : m.MadeFrom table options) {text : String} {s s' : σ}
    {texts : List String} (produced : Produced m name (m.find text) s texts s') :
    ∃ pieces, Piece.Cut 0 text.toList ((m.find text).zip texts) pieces ∧
      ∀ withMap, (m.substitute text name withMap).outcome s =
        (.ok (if m.find text = [] then none else some (.ofPieces pieces text.toList withMap)),
          s') := by
  obtain ⟨pieces, cuts, cut⟩ :=
    Piece.ofEdits?_eq_some (find_placed made text) produced.length_eq
  refine ⟨pieces, cut, fun withMap => ?_⟩
  rw [substitute, Effect.outcome_bind_of_ok (edits_of_produced produced)]
  cases found : m.find text with
  | nil => rfl
  | cons first others =>
    rw [found] at produced cuts
    cases produced with
    | cons =>
      rw [List.zipWith_cons_cons] at cuts ⊢
      simp only [List.isEmpty_cons, Bool.false_eq_true, if_false, cuts, reduceCtorEq]
      rfl

theorem produced_of_substitute (made : m.MadeFrom table options) {text : String} {withMap : Bool}
    {s s' : σ} {out : Substitution}
    (ran : (m.substitute text name withMap).outcome s = (.ok (some out), s')) :
    ∃ texts pieces, Produced m name (m.find text) s texts s' ∧
      Piece.Cut 0 text.toList ((m.find text).zip texts) pieces ∧
      out = .ofPieces pieces text.toList withMap := by
  have first := ran
  rw [substitute] at first
  obtain ⟨edits, s₁, produces, -⟩ := Effect.of_outcome_bind_ok first
  obtain ⟨texts, produced, -⟩ := produced_of_edits (known_of_find made text) produces
  obtain ⟨pieces, cut, outcome⟩ := substitute_of_produced made produced
  rw [outcome] at ran
  obtain ⟨same, rfl⟩ := Prod.mk.inj ran
  split at same
  · cases same
  · cases same
    exact ⟨texts, pieces, produced, cut, rfl⟩

theorem substitute_spelling (made : m.MadeFrom table options) {key : String} {l : Literal}
    (stored : ⟨key, .literal l⟩ ∈ table.toList)
    (acceptable : Acceptable options (options.spelling key)
      ⟨0, (options.spelling key).utf8ByteSize, key⟩) (withMap : Bool) (s : σ) :
    (m.substitute (options.spelling key) name withMap).outcome s =
      (.ok (some (.ofPieces
        [⟨.replaced, l.text.toList, ⟨0, (options.spelling key).utf8ByteSize⟩⟩]
        (options.spelling key).toList withMap)), s) := by
  have known : key ∈ table.keys := List.mem_map_of_mem (f := Entry.key) stored
  have found := find_spelling made known acceptable
  have replaced : m.replacement? key = some (.literal l) := by
    rw [replacement?, made.table_eq, Table.get?_eq_some_iff.2 stored]
  have produced : Produced m name (m.find (options.spelling key)) s [l.text] s := by
    rw [found]
    exact .cons replaced rfl .nil
  have front := Text.splitBytes?_append [] (options.spelling key).toList
  have whole := Text.dropBytes?_append (options.spelling key).toList []
  rw [List.append_nil, Text.byteSize_toList] at whole
  rw [List.nil_append, Text.byteSize_nil] at front
  rw [substitute, Effect.outcome_bind_of_ok (edits_of_produced produced), found]
  simp only [List.zipWith_cons_cons, List.zipWith_nil_left, editOf, Piece.ofEdits?, Nat.sub_self,
    Nat.sub_zero, Nat.not_lt_zero, or_self, if_false, front, whole, List.isEmpty_cons,
    Option.bind_eq_bind, Option.bind_some, Option.pure_def, Bool.false_eq_true]
  rfl

theorem substitute_key_twice (r : Replacement Unit) (name text : String)
    (called : (r.produce name).run () = (.ok text, ())) :
    ∃ m : Matcher Unit, compile (.ofList [("KEY", r)]) ⟨none, true⟩ = .ok m ∧
      m.find "KEY;KEY" = [⟨0, 3, "KEY"⟩, ⟨4, 7, "KEY"⟩] ∧
      Produced m name (m.find "KEY;KEY") () [text, text] () ∧
      (m.substitute "KEY;KEY" name true).outcome () =
        (.ok (some (.ofPieces [⟨.replaced, text.toList, ⟨0, 3⟩⟩, ⟨.unchanged, [';'], ⟨3, 4⟩⟩,
          ⟨.replaced, text.toList, ⟨4, 7⟩⟩] "KEY;KEY".toList true)), ()) := by
  obtain ⟨m, compiled, replaced, -, found⟩ := exists_compile_key r
  have produced : Produced m name (m.find "KEY;KEY") () [text, text] () := by
    rw [found]
    exact .cons replaced called (.cons replaced called .nil)
  refine ⟨m, compiled, found, produced, ?_⟩
  rw [substitute, Effect.outcome_bind_of_ok (edits_of_produced produced), found]
  rfl

/-- Where the replacements of a table never fail, a text without a match has no outcome, and any
other has one that records the matches and what was produced for them, the same with a position map
and without. -/
theorem substitute_records (compiled : compile table options = .ok m)
    (succeed : ∀ e ∈ table.toList, ∀ s, ∃ text s', (e.value.produce name).run s = (.ok text, s'))
    (text : String) (s : σ) :
    ∃ texts s', Produced m name (m.find text) s texts s' ∧
      ∃ out : Option (String × PositionMap),
        (out = none ↔ m.find text = []) ∧
        (∀ withMap, (m.substitute text name withMap).outcome s =
          (.ok (out.map fun (code, map) => ⟨code, if withMap then some map else none⟩), s')) ∧
        ∀ code map, out = some (code, map) →
          Records text ((m.find text).zip texts) code map := by
  have made := madeFrom_of_compile compiled
  have calls : ∀ found ∈ m.find text, ∃ r, m.replacement? found.key = some r ∧
      ∀ s, ∃ text s', (r.produce name).run s = (.ok text, s') := by
    intro found member
    obtain ⟨r, known⟩ := known_of_find made text found member
    rw [replacement?, made.table_eq] at known
    exact ⟨r, by rw [replacement?, made.table_eq, known],
      succeed _ (Table.get?_eq_some_iff.1 known)⟩
  obtain ⟨texts, s', produced⟩ := exists_produced calls s
  obtain ⟨pieces, cut, outcome⟩ := substitute_of_produced made produced
  refine ⟨texts, s', produced, if m.find text = [] then none
    else some (Piece.join pieces, .ofPieces pieces text.toList), by simp, ?_, ?_⟩
  · intro withMap
    rw [outcome]
    split <;> rfl
  · intro code map same
    split at same
    · cases same
    · obtain ⟨rfl, rfl⟩ := Prod.mk.inj (Option.some.inj same)
      apply records_of_cut cut
      intro pair member
      exact (find_placed made text).spans pair.1 (List.of_mem_zip member).1

theorem substitute_records_two_lines :
    ∃ (m : Matcher Unit) (map : PositionMap),
      compile (.ofList [("KEY", .function (.surrounding "<\n" ">"))]) ⟨none, true⟩ = .ok m ∧
      (∀ e ∈ (Table.ofList (σ := Unit) [("KEY", .function (.surrounding "<\n" ">"))]).toList,
        ∀ s, ∃ text s', (e.value.produce "a.js").run s = (.ok text, s')) ∧
      map = ⟨[⟨.replaced, ⟨0, 7⟩, ⟨0, 3⟩⟩, ⟨.unchanged, ⟨7, 8⟩, ⟨3, 4⟩⟩,
        ⟨.replaced, ⟨8, 15⟩, ⟨4, 7⟩⟩], 15, 7⟩ ∧
      Records "KEY;KEY" [(⟨0, 3, "KEY"⟩, "<\na.js>"), (⟨4, 7, "KEY"⟩, "<\na.js>")]
        "<\na.js>;<\na.js>" map := by
  obtain ⟨m, compiled, found, produced, ran⟩ := substitute_key_twice
    (.function (.surrounding "<\n" ">")) "a.js" "<\na.js>" rfl
  have succeed : ∀ e ∈ (Table.ofList (σ := Unit)
      [("KEY", .function (.surrounding "<\n" ">"))]).toList,
      ∀ s, ∃ text s', (e.value.produce "a.js").run s = (.ok text, s') := by
    rw [Table.toList_ofList_singleton]
    rintro e (_ | _) s
    · exact ⟨_, _, rfl⟩
    · contradiction
  refine ⟨m, _, compiled, succeed, rfl, ?_⟩
  obtain ⟨texts, s', produced', out, -, outcome, records⟩ :=
    substitute_records compiled succeed "KEY;KEY" ()
  obtain ⟨rfl, rfl⟩ := produced.unique produced'
  have same := (outcome true).symm.trans ran
  cases out with
  | none => cases same
  | some out =>
    obtain ⟨code, map⟩ := out
    cases same
    rw [found] at records
    exact records _ _ rfl

end Matcher

end KeySubst

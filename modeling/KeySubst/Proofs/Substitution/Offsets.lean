import KeySubst.Proofs.SourceMap.Marks
import KeySubst.Proofs.Substitution.Locality

/-!
# Offsets of an output

`insertions` tells from the matches and their texts alone where these texts stand in the output.
-/

namespace KeySubst

open Text (bytes)

/-- Where texts that were put in place of matches stand in the output, from an output offset on that
comes from an input offset. -/
def insertions (output input : Nat) : List (Match × String) → List (Span × Match)
  | [] => []
  | (found, text) :: others =>
    let start := output + (found.start - input)
    let stop := start + text.utf8ByteSize
    (⟨start, stop⟩, found) :: insertions stop found.stop others

/-- An output offset lies in copied text. -/
def Copied (replaced : List (Match × String)) (code : String) (n : Nat) : Prop :=
  n < code.utf8ByteSize ∧ ∀ pair ∈ insertions 0 0 replaced, ¬pair.1.Holds n

/-- An input offset lies in no match. -/
def Spared (replaced : List (Match × String)) (text : String) (n : Nat) : Prop :=
  n < text.utf8ByteSize ∧ ∀ pair ∈ replaced, ¬pair.1.span.Holds n

structure PositionMap.Traces (map : PositionMap) (text : String) (replaced : List (Match × String))
    (code : String) : Prop where
  outputSize_eq : map.outputSize = code.utf8ByteSize
  inputSize_eq : map.inputSize = text.utf8ByteSize
  none_iff : ∀ n, map.inputOffset? n = none ↔ map.outputSize < n
  last : map.inputOffset? map.outputSize = some map.inputSize
  bounded : ∀ n offset, map.inputOffset? n = some offset → offset ≤ map.inputSize
  monotone : ∀ n k a b, n ≤ k → map.inputOffset? n = some a → map.inputOffset? k = some b → a ≤ b
  /-- The segments that stop behind an offset follow those that do not, and the first of them holds
  the offset, so that any search for it ends there. -/
  search : ∀ n, n < map.outputSize → ∃ front s back, map.segments = front ++ s :: back ∧
    (∀ t ∈ front, t.output.stop ≤ n) ∧ s.output.Holds n ∧ (∀ t ∈ back, n < t.output.stop) ∧
    map.inputOffset? n = some (s.inputOffset n)
  written : (insertions 0 0 replaced).map (fun pair => pair.1.slice code) =
    replaced.map fun pair => bytes pair.2
  inserted : ∀ span found, (span, found) ∈ insertions 0 0 replaced → ∀ n, span.Holds n →
    map.inputOffset? n = some found.start
  copied : ∀ n, Copied replaced code n → ∃ offset b, map.inputOffset? n = some offset ∧
    Spared replaced text offset ∧ (bytes code)[n]? = some b ∧ (bytes text)[offset]? = some b
  spared : ∀ offset, Spared replaced text offset →
    ∃! n, Copied replaced code n ∧ map.inputOffset? n = some offset

/-! ### Segments side by side -/

section

variable {output input outputEnd inputEnd : Nat} {segments : List Segment}

theorem Tiles.behind (tiles : Tiles output input segments outputEnd inputEnd) :
    output ≤ outputEnd ∧ input ≤ inputEnd ∧ ∀ s ∈ segments,
      output ≤ s.output.start ∧ s.output.start ≤ s.output.stop ∧ s.output.stop ≤ outputEnd ∧
        input ≤ s.input.start ∧ s.input.start ≤ s.input.stop ∧ s.input.stop ≤ inputEnd := by
  induction segments generalizing output input with
  | nil =>
    obtain ⟨rfl, rfl⟩ := tiles
    simp
  | cons first segments ih =>
    obtain ⟨start, outputs, begins, inputs, rest⟩ := tiles
    obtain ⟨outputRest, inputRest, later⟩ := ih rest
    refine ⟨by omega, by omega, fun s member => ?_⟩
    rcases List.mem_cons.1 member with rfl | member
    · omega
    · have := later s member
      omega

theorem Tiles.exists_holds (tiles : Tiles output input segments outputEnd inputEnd) {n : Nat}
    (low : output ≤ n) (high : n < outputEnd) :
    ∃ front s back, segments = front ++ s :: back ∧ s.output.Holds n ∧
      (∀ t ∈ front, t.output.stop ≤ n) ∧
      ∀ t ∈ back, s.output.stop ≤ t.output.start ∧ t.output.start ≤ t.output.stop ∧
        s.input.stop ≤ t.input.start := by
  induction segments generalizing output input with
  | nil =>
    obtain ⟨rfl, -⟩ := tiles
    omega
  | cons first segments ih =>
    obtain ⟨start, outputs, begins, inputs, rest⟩ := tiles
    by_cases here : n < first.output.stop
    · refine ⟨[], first, segments, rfl, ⟨by omega, here⟩, by simp, fun t member => ?_⟩
      have := rest.behind.2.2 t member
      omega
    · obtain ⟨front, s, back, rfl, holds, before, behind⟩ := ih rest (by omega)
      exact ⟨first :: front, s, back, rfl, holds,
        List.forall_mem_cons.2 ⟨by omega, before⟩, behind⟩

theorem Tiles.eq_of_holds (tiles : Tiles output input segments outputEnd inputEnd)
    {s t : Segment} {n : Nat} (left : s ∈ segments) (leftHolds : s.output.Holds n)
    (right : t ∈ segments) (rightHolds : t.output.Holds n) : s = t := by
  have place := tiles.behind.2.2 s left
  obtain ⟨low, high⟩ := leftHolds
  obtain ⟨front, first, back, rfl, ⟨-, stops⟩, before, behind⟩ :=
    tiles.exists_holds (show output ≤ n by omega) (show n < outputEnd by omega)
  have only : ∀ u ∈ front ++ first :: back, u.output.Holds n → u = first := by
    rintro u member ⟨starts, ends⟩
    rcases List.mem_append.1 member with early | member
    · have := before u early
      omega
    · rcases List.mem_cons.1 member with rfl | late
      · rfl
      · have := behind u late
        omega
  rw [only s left ⟨low, high⟩, only t right rightHolds]

def Segment.flip (s : Segment) : Segment := ⟨s.kind, s.input, s.output⟩

theorem Tiles.flip (tiles : Tiles output input segments outputEnd inputEnd) :
    Tiles input output (segments.map Segment.flip) inputEnd outputEnd := by
  induction segments generalizing output input with
  | nil => exact tiles.symm
  | cons first segments ih =>
    obtain ⟨start, outputs, begins, inputs, rest⟩ := tiles
    exact ⟨begins, inputs, start, outputs, ih rest⟩

theorem Tiles.exists_input (tiles : Tiles output input segments outputEnd inputEnd) {n : Nat}
    (low : input ≤ n) (high : n < inputEnd) : ∃ s ∈ segments, s.input.Holds n := by
  obtain ⟨front, t, back, split, holds, -⟩ := tiles.flip.exists_holds low high
  have member : t ∈ segments.map Segment.flip := by
    rw [split]
    exact List.mem_append_right _ List.mem_cons_self
  obtain ⟨s, inside, rfl⟩ := List.mem_map.1 member
  exact ⟨s, inside, holds⟩

theorem Tiles.eq_of_input (tiles : Tiles output input segments outputEnd inputEnd)
    {s t : Segment} {n : Nat} (left : s ∈ segments) (leftHolds : s.input.Holds n)
    (right : t ∈ segments) (rightHolds : t.input.Holds n) : s = t := by
  have same : s.flip = t.flip := tiles.flip.eq_of_holds (List.mem_map_of_mem left) leftHolds
    (List.mem_map_of_mem right) rightHolds
  cases s
  cases t
  cases same
  rfl

end

theorem Piece.Cut.insertions {offset : Nat} {rest : List Char} {replaced : List (Match × String)}
    {pieces : List Piece} (cut : Cut offset rest replaced pieces) (output : Nat) :
    ((segments output pieces).filter fun s => s.kind = .replaced).map (fun s => (s.output, s.input)) =
      (KeySubst.insertions output offset replaced).map fun (span, found) => (span, found.span) := by
  induction cut generalizing output with
  | @last offset rest =>
    unfold copied
    split
    · rfl
    · rfl
  | @next offset kept span rest found text others pieces start stop nonempty _ ih =>
    have run : ((segments output (copied offset kept)).filter fun s => s.kind = .replaced) = [] := by
      unfold copied
      split
      · rfl
      · rfl
    have size : (copied offset kept).flatMap Piece.text = kept := by
      unfold copied
      split
      · rename_i empty
        rw [List.isEmpty_iff.1 empty]
        rfl
      · simp
    have place : Text.byteSize kept = found.start - offset := by omega
    rw [segments_append, List.filter_append, run, List.nil_append, segments, size,
      List.filter_cons_of_pos (by simp), List.map_cons, ih, KeySubst.insertions, List.map_cons,
      Text.byteSize_toList, place]
    rfl

namespace Records

variable {text code : String} {replaced : List (Match × String)} {map : PositionMap}

theorem output_lt {s : Segment} {n : Nat} (records : Records text replaced code map)
    (member : s ∈ map.segments) (holds : s.output.Holds n) : n < map.outputSize := by
  have place := records.tiles.behind.2.2 s member
  rw [records.outputSize_eq]
  exact Nat.lt_of_lt_of_le holds.2 place.2.2.1

theorem exists_segment (records : Records text replaced code map) {n : Nat}
    (inside : n < map.outputSize) :
    ∃ front s back, map.segments = front ++ s :: back ∧ s ∈ map.segments ∧ s.output.Holds n ∧
      (∀ t ∈ front, t.output.stop ≤ n) ∧
      (∀ t ∈ back, n < t.output.stop ∧ s.input.stop ≤ t.input.start) ∧
      map.inputOffset? n = some (s.inputOffset n) := by
  rw [records.outputSize_eq] at inside
  obtain ⟨front, s, back, split, holds, before, behind⟩ :=
    records.tiles.exists_holds (Nat.zero_le n) inside
  have member : s ∈ map.segments := by
    rw [split]
    exact List.mem_append_right _ List.mem_cons_self
  have stop : n < s.output.stop := holds.2
  have passed : ∀ t ∈ front, ¬decide (n < t.output.stop) = true := by
    intro t early
    have := before t early
    rw [decide_eq_true_eq]
    omega
  have size := records.outputSize_eq
  refine ⟨front, s, back, split, member, holds, before, fun t late => ?_, ?_⟩
  · have := behind t late
    omega
  · rw [PositionMap.inputOffset?, if_neg (by omega), if_neg (by omega), split, List.find?_append,
      List.find?_eq_none.2 passed, Option.none_or, List.find?_cons_of_pos (by simpa using stop),
      Option.map_some]

theorem inputOffset?_of_holds (records : Records text replaced code map) {s : Segment} {n : Nat}
    (member : s ∈ map.segments) (holds : s.output.Holds n) :
    map.inputOffset? n = some (s.inputOffset n) := by
  obtain ⟨_, t, _, -, found, holds', -, -, leads⟩ :=
    records.exists_segment (records.output_lt member holds)
  rw [records.tiles.eq_of_holds member holds found holds', leads]

theorem inputOffset_mem (records : Records text replaced code map) {s : Segment} {n : Nat}
    (member : s ∈ map.segments) (holds : s.output.Holds n) :
    s.input.start ≤ s.inputOffset n ∧ s.inputOffset n ≤ s.input.stop := by
  have place := records.tiles.behind.2.2 s member
  obtain ⟨low, high⟩ := holds
  cases kind : s.kind with
  | unchanged =>
    obtain ⟨-, size, -⟩ := records.unchanged s member kind
    simp only [Segment.inputOffset, kind]
    omega
  | replaced =>
    simp only [Segment.inputOffset, kind]
    omega

theorem inputOffset?_cases (records : Records text replaced code map) (n : Nat) :
    (map.outputSize < n ∧ map.inputOffset? n = none) ∨
      (n = map.outputSize ∧ map.inputOffset? n = some map.inputSize) ∨
      (n < map.outputSize ∧ ∃ s ∈ map.segments, s.output.Holds n ∧
        map.inputOffset? n = some (s.inputOffset n)) := by
  rcases Nat.lt_trichotomy n map.outputSize with inside | rfl | past
  · obtain ⟨_, s, _, -, member, holds, -, -, leads⟩ := records.exists_segment inside
    exact .inr (.inr ⟨inside, s, member, holds, leads⟩)
  · exact .inr (.inl ⟨rfl, by rw [PositionMap.inputOffset?, if_neg (by omega), if_pos rfl]⟩)
  · exact .inl ⟨past, by rw [PositionMap.inputOffset?, if_pos past]⟩

theorem inputOffset?_le (records : Records text replaced code map) {n offset : Nat}
    (leads : map.inputOffset? n = some offset) : offset ≤ map.inputSize := by
  rcases records.inputOffset?_cases n with ⟨-, past⟩ | ⟨-, last⟩ | ⟨-, s, member, holds, found⟩
  · rw [past] at leads
    cases leads
  · rw [last] at leads
    cases leads
    exact Nat.le_refl _
  · rw [found] at leads
    cases leads
    have place := records.tiles.behind.2.2 s member
    have inside := records.inputOffset_mem member holds
    have size := records.inputSize_eq
    omega

theorem inputOffset?_mono (records : Records text replaced code map) {n k a b : Nat} (le : n ≤ k)
    (first : map.inputOffset? n = some a) (second : map.inputOffset? k = some b) : a ≤ b := by
  rcases records.inputOffset?_cases k with ⟨-, past⟩ | ⟨-, last⟩ | ⟨inside, t, later, holds', leads'⟩
  · rw [past] at second
    cases second
  · rw [last] at second
    cases second
    exact records.inputOffset?_le first
  · obtain ⟨front, s, back, split, member, holds, before, behind, leads⟩ :=
      records.exists_segment (Nat.lt_of_le_of_lt le inside)
    rw [leads] at first
    rw [leads'] at second
    cases first
    cases second
    -- The segment of the second offset is that of the first one, or it lies behind it.
    rw [split] at later
    rcases List.mem_append.1 later with early | later
    · have stop := before t early
      obtain ⟨-, high⟩ := holds'
      omega
    · rcases List.mem_cons.1 later with rfl | late
      · unfold Segment.inputOffset
        split
        all_goals omega
      · have := behind t late
        have := records.inputOffset_mem member holds
        have := records.inputOffset_mem (split ▸ List.mem_append_right _ (.tail _ late)) holds'
        omega

theorem kind_of_free {segments : List Segment} {part : Segment → Span} {n : Nat} {s : Segment}
    (single : ∀ t ∈ segments, (part t).Holds n → t = s) (member : s ∈ segments)
    (holds : (part s).Holds n) :
    (∀ span ∈ (segments.filter fun s => s.kind = .replaced).map part, ¬span.Holds n) ↔
      s.kind = .unchanged := by
  rw [List.forall_mem_map]
  constructor
  · intro free
    cases kind : s.kind with
    | unchanged => rfl
    | replaced => exact absurd holds (free s (List.mem_filter.2 ⟨member, by simpa using kind⟩))
  · intro kind t put holds'
    obtain ⟨inside, replaced⟩ := List.mem_filter.1 put
    rw [single t inside holds', kind] at replaced
    cases replaced

theorem copied_iff (records : Records text replaced code map)
    (places : (insertions 0 0 replaced).map Prod.fst =
      (map.segments.filter fun s => s.kind = .replaced).map Segment.output)
    {s : Segment} {n : Nat} (member : s ∈ map.segments) (holds : s.output.Holds n) :
    Copied replaced code n ↔ s.kind = .unchanged := by
  have inside := records.output_lt member holds
  rw [records.outputSize_eq] at inside
  have single : ∀ t ∈ map.segments, t.output.Holds n → t = s :=
    fun t found holds' => records.tiles.eq_of_holds found holds' member holds
  rw [Copied, and_iff_right inside, ← kind_of_free single member holds, ← places,
    List.forall_mem_map]

theorem spared_iff (records : Records text replaced code map) {s : Segment} {n : Nat}
    (member : s ∈ map.segments) (holds : s.input.Holds n) :
    Spared replaced text n ↔ s.kind = .unchanged := by
  have place := records.tiles.behind.2.2 s member
  have inside : n < text.utf8ByteSize := Nat.lt_of_lt_of_le holds.2 place.2.2.2.2.2
  have single : ∀ t ∈ map.segments, t.input.Holds n → t = s :=
    fun t found holds' => records.tiles.eq_of_input found holds' member holds
  have spans : replaced.map (fun pair => pair.1.span) =
      (map.segments.filter fun s => s.kind = .replaced).map Segment.input := by
    have both := congrArg (List.map Prod.fst) records.replaced_eq
    rw [List.map_map, List.map_map] at both
    exact both.symm
  rw [Spared, and_iff_right inside, ← kind_of_free single member holds, ← spans,
    List.forall_mem_map]

theorem getElem?_slice {span : Span} {text : String} {n : Nat} (holds : span.Holds n) :
    (span.slice text)[n - span.start]? = (bytes text)[n]? := by
  obtain ⟨low, high⟩ := holds
  rw [Span.slice, List.getElem?_take_of_lt (by omega), List.getElem?_drop]
  congr 1
  omega

theorem getElem?_inputOffset (records : Records text replaced code map) {s : Segment} {n : Nat}
    (member : s ∈ map.segments) (holds : s.output.Holds n) (kind : s.kind = .unchanged) :
    s.input.Holds (s.inputOffset n) ∧ (bytes code)[n]? = (bytes text)[s.inputOffset n]? := by
  obtain ⟨-, size, same⟩ := records.unchanged s member kind
  have place := records.tiles.behind.2.2 s member
  have offset : s.inputOffset n = s.input.start + (n - s.output.start) := by
    rw [Segment.inputOffset, kind]
  have inside : s.input.Holds (s.inputOffset n) := by
    obtain ⟨low, high⟩ := holds
    rw [offset]
    exact ⟨by omega, by omega⟩
  refine ⟨inside, ?_⟩
  rw [← getElem?_slice holds, ← getElem?_slice inside, same, offset, Nat.add_sub_cancel_left]

/-! ### Every offset -/

section

variable (records : Records text replaced code map)
  (places : (map.segments.filter fun s => s.kind = .replaced).map (fun s => (s.output, s.input)) =
    (insertions 0 0 replaced).map fun (span, found) => (span, found.span))

include places

theorem outputs_eq : (insertions 0 0 replaced).map Prod.fst =
    (map.segments.filter fun s => s.kind = .replaced).map Segment.output := by
  have both := congrArg (List.map Prod.fst) places
  rw [List.map_map, List.map_map] at both
  exact both.symm

include records

theorem written : (insertions 0 0 replaced).map (fun pair => pair.1.slice code) =
    replaced.map fun pair => bytes pair.2 := by
  have texts := congrArg (List.map Prod.snd) records.replaced_eq
  have slices := congrArg (List.map fun span => span.slice code) (outputs_eq places)
  rw [List.map_map, List.map_map] at texts slices
  exact slices.trans texts

theorem inputOffset?_inserted {span : Span} {found : Match}
    (put : (span, found) ∈ insertions 0 0 replaced) {n : Nat} (holds : span.Holds n) :
    map.inputOffset? n = some found.start := by
  have place : (span, found.span) ∈ (insertions 0 0 replaced).map
      fun (span, found) => (span, found.span) := List.mem_map_of_mem put
  rw [← places] at place
  obtain ⟨s, inside, same⟩ := List.mem_map.1 place
  obtain ⟨member, kind⟩ := List.mem_filter.1 inside
  obtain ⟨rfl, input⟩ := Prod.mk.inj same
  rw [records.inputOffset?_of_holds member holds, Segment.inputOffset, of_decide_eq_true kind,
    input]
  rfl

theorem inputOffset?_copied {n : Nat} (copied : Copied replaced code n) :
    ∃ offset b, map.inputOffset? n = some offset ∧ Spared replaced text offset ∧
      (bytes code)[n]? = some b ∧ (bytes text)[offset]? = some b := by
  obtain ⟨inside, -⟩ := id copied
  have within : n < map.outputSize := by rwa [records.outputSize_eq]
  obtain ⟨_, s, _, -, member, holds, -, -, leads⟩ := records.exists_segment within
  have kind := (records.copied_iff (outputs_eq places) member holds).1 copied
  obtain ⟨holds', same⟩ := records.getElem?_inputOffset member holds kind
  have byte : n < (bytes code).length := by rwa [Text.length_bytes]
  refine ⟨s.inputOffset n, (bytes code)[n], leads, (records.spared_iff member holds').2 kind, ?_, ?_⟩
  · exact List.getElem?_eq_getElem byte
  · rw [← same]
    exact List.getElem?_eq_getElem byte

theorem exists_unique_copied {offset : Nat} (spared : Spared replaced text offset) :
    ∃! n, Copied replaced code n ∧ map.inputOffset? n = some offset := by
  obtain ⟨s, member, holds⟩ := records.tiles.exists_input (Nat.zero_le offset) spared.1
  have kind := (records.spared_iff member holds).1 spared
  obtain ⟨-, size, -⟩ := records.unchanged s member kind
  obtain ⟨low, high⟩ := id holds
  have leads : ∀ n, s.inputOffset n = s.input.start + (n - s.output.start) := by
    intro n
    rw [Segment.inputOffset, kind]
  have place := records.tiles.behind.2.2 s member
  have holds' : s.output.Holds (s.output.start + (offset - s.input.start)) := ⟨by omega, by omega⟩
  refine ⟨s.output.start + (offset - s.input.start), ⟨?_, ?_⟩, ?_⟩
  · exact (records.copied_iff (outputs_eq places) member holds').2 kind
  · rw [records.inputOffset?_of_holds member holds', leads]
    congr 1
    omega
  · intro k ⟨copied, comes⟩
    have within : k < map.outputSize := by rw [records.outputSize_eq]; exact copied.1
    obtain ⟨_, t, _, -, found, holdsOut, -, -, leads'⟩ := records.exists_segment within
    have kept := (records.copied_iff (outputs_eq places) found holdsOut).1 copied
    obtain ⟨holdsIn, -⟩ := records.getElem?_inputOffset found holdsOut kept
    obtain rfl : t.inputOffset k = offset := Option.some.inj (leads'.symm.trans comes)
    -- The two copies come from one segment, and inside of it the offsets keep their distance.
    obtain rfl := records.tiles.eq_of_input found holdsIn member holds
    have := leads k
    have := holdsOut.1
    omega

theorem traces : map.Traces text replaced code where
  outputSize_eq := records.outputSize_eq
  inputSize_eq := records.inputSize_eq
  none_iff n := by
    rcases records.inputOffset?_cases n with ⟨past, leads⟩ | ⟨rfl, leads⟩ | ⟨inside, _, -, -, leads⟩
    · exact iff_of_true leads past
    · simp [leads]
    · simp [leads, Nat.le_of_lt inside]
  last := by rw [PositionMap.inputOffset?, if_neg (Nat.lt_irrefl _), if_pos rfl]
  bounded _ _ := records.inputOffset?_le
  monotone _ _ _ _ := records.inputOffset?_mono
  search n inside := by
    obtain ⟨front, s, back, split, -, holds, before, behind, leads⟩ := records.exists_segment inside
    exact ⟨front, s, back, split, before, holds, fun t late => (behind t late).1, leads⟩
  written := records.written places
  inserted _ _ put _ holds := records.inputOffset?_inserted places put holds
  copied _ copied := records.inputOffset?_copied places copied
  spared _ spared := records.exists_unique_copied places spared

end

end Records

namespace Matcher

variable {σ : Type} {m : Matcher σ} {table : Table σ} {options : MatchOptions}

/-- The position map of a substitution tells of every offset of the output where it comes from. -/
theorem substitute_traces (compiled : compile table options = .ok m) {text name : String} {s s' : σ}
    {code : String} {map : PositionMap}
    (ran : (m.substitute text name true).outcome s = (.ok (some ⟨code, some map⟩), s')) :
    ∃ texts, Produced m name (m.find text) s texts s' ∧
      map.Traces text ((m.find text).zip texts) code := by
  have made := madeFrom_of_compile compiled
  obtain ⟨texts, pieces, produced, cut, same⟩ := produced_of_substitute made ran
  obtain ⟨rfl, rfl⟩ : code = Piece.join pieces ∧ map = .ofPieces pieces text.toList := by
    rw [Substitution.ofPieces, if_pos rfl, Substitution.mk.injEq, Option.some.injEq] at same
    exact same
  have records := records_of_cut cut fun pair member =>
    (find_placed made text).spans pair.1 (List.of_mem_zip member).1
  exact ⟨texts, produced, records.traces (cut.insertions 0)⟩

theorem substitute_traces_two_lines :
    ∃ (m : Matcher Unit) (map : PositionMap),
      compile (.ofList [("KEY", .ofString "x\ny")]) ⟨none, true⟩ = .ok m ∧
      map = ⟨[⟨.replaced, ⟨0, 3⟩, ⟨0, 3⟩⟩, ⟨.unchanged, ⟨3, 4⟩, ⟨3, 4⟩⟩,
        ⟨.replaced, ⟨4, 7⟩, ⟨4, 7⟩⟩], 7, 7⟩ ∧
      (m.substitute "KEY;KEY" "a.js" true).outcome () =
        (.ok (some ⟨"x\ny;x\ny", some map⟩), ()) ∧
      map.Traces "KEY;KEY" [(⟨0, 3, "KEY"⟩, "x\ny"), (⟨4, 7, "KEY"⟩, "x\ny")] "x\ny;x\ny" := by
  obtain ⟨m, compiled, twice, produced, ran⟩ :=
    substitute_key_twice (.ofString "x\ny") "a.js" "x\ny" rfl
  obtain ⟨texts, produced', traces⟩ := substitute_traces compiled ran
  obtain ⟨rfl, -⟩ := produced.unique produced'
  rw [twice] at traces
  exact ⟨m, _, compiled, rfl, ran, traces⟩

end Matcher

end KeySubst

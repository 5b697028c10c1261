import KeySubst.Proofs.Substitution.Calls

/-!
# Pieces of an output

Edits at the matches of a text always cut it into pieces.
-/

namespace KeySubst

open Text (byteSize)

/-- Matches in what is left of a text from an offset on, one behind the other and none empty. -/
inductive Placed : Nat → List Char → List Match → Prop
  | nil {offset : Nat} {rest : List Char} : Placed offset rest []
  | cons {offset : Nat} {kept span rest : List Char} {found : Match} {others : List Match}
      (start : found.start = offset + byteSize kept)
      (stop : found.stop = found.start + byteSize span) (nonempty : span ≠ [])
      (placed : Placed found.stop rest others) :
      Placed offset (kept ++ (span ++ rest)) (found :: others)

theorem Placed.spans {offset : Nat} {rest : List Char} {all : List Match}
    (placed : Placed offset rest all) : ∀ found ∈ all, found.start < found.stop := by
  induction placed with
  | nil => simp
  | @cons offset kept span rest found others _ stop nonempty _ ih =>
    intro other member
    rcases List.mem_cons.1 member with rfl | member
    · have := Text.byteSize_pos nonempty
      omega
    · exact ih other member

theorem Leftmost.placed {options : MatchOptions} {keys : List String} {text : String} {offset : Nat}
    {all : List Match} (matched : Leftmost options keys text offset all)
    (nonempty : ∀ key ∈ keys, key ≠ "") {before rest : List Char}
    (split : text.toList = before ++ rest) (here : offset = byteSize before) :
    Placed offset rest all := by
  induction matched generalizing before rest with
  | done => exact .nil
  | @found offset found others foremost _ ih =>
    subst here
    have acceptable := foremost.acceptable
    obtain ⟨kept, behind, rfl, start⟩ := acceptable.starts split foremost.ahead
    rw [← List.append_assoc] at split
    obtain ⟨after, rfl, stop⟩ := acceptable.begins split start
    have moved := acceptable.start_lt_stop (nonempty _ foremost.known)
    have later : text.toList =
        before ++ kept ++ (options.spelling found.key).toList ++ after := by
      rw [split, List.append_assoc (before ++ kept)]
    have spans : found.stop = found.start + byteSize (options.spelling found.key).toList := by
      rw [stop, start, Text.byteSize_append]
    refine .cons (by rw [start, Text.byteSize_append]) spans ?_ (ih later stop)
    intro empty
    rw [empty, Text.byteSize_nil] at spans
    omega

theorem Matcher.find_placed {σ : Type} {m : Matcher σ} {table : Table σ} {options : MatchOptions}
    (made : m.MadeFrom table options) (text : String) : Placed 0 text.toList (m.find text) :=
  (find_leftmost made text).placed
    (fun key member => made.keys_nonempty key (made.keys_perm.mem_iff.2 member))
    (List.nil_append _).symm rfl

namespace Piece

/-- The pieces of what is left of a text from an offset on: runs that are copied, unless they are
empty, and texts in place of matches. -/
inductive Cut : Nat → List Char → List (Match × String) → List Piece → Prop
  | last {offset : Nat} {rest : List Char} : Cut offset rest [] (copied offset rest)
  | next {offset : Nat} {kept span rest : List Char} {found : Match} {text : String}
      {others : List (Match × String)} {pieces : List Piece}
      (start : found.start = offset + byteSize kept)
      (stop : found.stop = found.start + byteSize span) (nonempty : span ≠ [])
      (cut : Cut found.stop rest others pieces) :
      Cut offset (kept ++ (span ++ rest)) ((found, text) :: others)
        (copied offset kept ++ ⟨.replaced, text.toList, ⟨found.start, found.stop⟩⟩ :: pieces)

theorem ofEdits?_eq_some {offset : Nat} {rest : List Char} {all : List Match}
    (placed : Placed offset rest all) {texts : List String} (length : texts.length = all.length) :
    ∃ pieces, ofEdits? offset rest (List.zipWith Matcher.editOf all texts) = some pieces ∧
      Cut offset rest (all.zip texts) pieces := by
  induction placed generalizing texts with
  | nil =>
    rw [List.zipWith_nil_left, List.zip_nil_left]
    exact ⟨_, rfl, .last⟩
  | @cons offset kept span rest found others start stop nonempty _ ih =>
    cases texts with
    | nil => cases length
    | cons text texts =>
      obtain ⟨pieces, made, cut⟩ := ih (Nat.succ.inj length)
      refine ⟨_, ?_, .next start stop nonempty cut⟩
      have ordered : ¬(found.start < offset ∨ found.stop < found.start) := by omega
      have kept_eq : found.start - offset = byteSize kept := by omega
      have span_eq : found.stop - found.start = byteSize span := by omega
      rw [List.zipWith_cons_cons, ofEdits?]
      simp only [Matcher.editOf, ordered, if_false, kept_eq, span_eq, Text.splitBytes?_append,
        Text.dropBytes?_append, made, Option.bind_eq_bind, Option.bind_some, Option.pure_def]

/-- Pieces that cover the rest of an input behind what has been passed: copied ones repeat it, and
replaced ones stand for some of it; neither stands for nothing. -/
inductive Fit : List Char → List Char → List Piece → Prop
  | nil {passed : List Char} : Fit passed [] []
  | unchanged {passed text rest : List Char} {pieces : List Piece} (nonempty : text ≠ [])
      (fit : Fit (passed ++ text) rest pieces) :
      Fit passed (text ++ rest)
        (⟨.unchanged, text, ⟨byteSize passed, byteSize (passed ++ text)⟩⟩ :: pieces)
  | replaced {passed span rest text : List Char} {pieces : List Piece} (nonempty : span ≠ [])
      (fit : Fit (passed ++ span) rest pieces) :
      Fit passed (span ++ rest)
        (⟨.replaced, text, ⟨byteSize passed, byteSize (passed ++ span)⟩⟩ :: pieces)

theorem Fit.copied_append {passed kept rest : List Char} {pieces : List Piece}
    (fit : Fit (passed ++ kept) rest pieces) :
    Fit passed (kept ++ rest) (copied (byteSize passed) kept ++ pieces) := by
  cases kept with
  | nil => simpa [copied] using fit
  | cons c kept =>
    rw [copied, if_neg (by simp), ← Text.byteSize_append]
    exact .unchanged (by simp) fit

theorem Cut.fit {offset : Nat} {rest : List Char} {replaced : List (Match × String)}
    {pieces : List Piece} (cut : Cut offset rest replaced pieces) {passed : List Char}
    (here : offset = byteSize passed) : Fit passed rest pieces := by
  induction cut generalizing passed with
  | @last offset rest =>
    subst here
    have fit : Fit passed (rest ++ []) (copied (byteSize passed) rest ++ []) := .copied_append .nil
    simpa using fit
  | @next offset kept span rest found text others pieces start stop nonempty _ ih =>
    subst here
    apply Fit.copied_append
    rw [← Text.byteSize_append] at start
    rw [start, ← Text.byteSize_append] at stop
    rw [start, stop]
    exact .replaced nonempty (ih stop)

theorem Fit.find {passed rest : List Char} {pieces : List Piece} (fit : Fit passed rest pieces)
    {front back : List Piece} {p : Piece} (split : pieces = front ++ p :: back) :
    ∃ before span after, passed ++ rest = before ++ span ++ after ∧
      p.input = ⟨byteSize before, byteSize (before ++ span)⟩ ∧ span ≠ [] ∧
      (p.kind = .unchanged → p.text = span) := by
  induction fit generalizing front with
  | nil => simp at split
  | @unchanged passed text rest pieces nonempty _ ih =>
    cases front with
    | nil =>
      obtain ⟨rfl, -⟩ := List.cons.inj split
      exact ⟨passed, text, rest, by simp, rfl, nonempty, fun _ => rfl⟩
    | cons q front => simpa using ih (List.cons.inj split).2
  | @replaced passed span rest text pieces nonempty _ ih =>
    cases front with
    | nil =>
      obtain ⟨rfl, -⟩ := List.cons.inj split
      exact ⟨passed, span, rest, by simp, rfl, nonempty, fun same => by cases same⟩
    | cons q front => simpa using ih (List.cons.inj split).2

theorem segments_append (offset : Nat) (a b : List Piece) :
    segments offset (a ++ b) =
      segments offset a ++ segments (offset + byteSize (a.flatMap Piece.text)) b := by
  induction a generalizing offset with
  | nil => simp [segments]
  | cons p a ih =>
    simp only [List.cons_append, segments, List.flatMap_cons, Text.byteSize_append, ih,
      Nat.add_assoc]

/-- A segment is a piece at the place that the pieces before it lead to. -/
theorem mem_segments_iff {offset : Nat} {pieces : List Piece} {s : Segment} :
    s ∈ segments offset pieces ↔
      ∃ front p back, pieces = front ++ p :: back ∧
        s = ⟨p.kind, ⟨offset + byteSize (front.flatMap Piece.text),
          offset + byteSize ((front ++ [p]).flatMap Piece.text)⟩, p.input⟩ := by
  constructor
  · intro member
    induction pieces generalizing offset with
    | nil => cases member
    | cons p pieces ih =>
      rw [segments, List.mem_cons] at member
      rcases member with rfl | member
      · exact ⟨[], p, pieces, rfl, by simp⟩
      · obtain ⟨front, q, back, rfl, rfl⟩ := ih member
        exact ⟨p :: front, q, back, rfl, by simp [Nat.add_assoc]⟩
  · rintro ⟨front, p, back, rfl, rfl⟩
    rw [segments_append, segments]
    simp [Nat.add_assoc]

theorem segments_kind (offset : Nat) (pieces : List Piece) :
    (segments offset pieces).map Segment.kind = pieces.map Piece.kind := by
  induction pieces generalizing offset with
  | nil => rfl
  | cons p pieces ih => rw [segments, List.map_cons, List.map_cons, ih]

end Piece

end KeySubst

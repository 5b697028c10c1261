import KeySubst.Proofs.Matcher.Scan

/-!
# Texts that are searched apart

A character that separates stops a scan in both directions.
-/

namespace KeySubst

open Text (Cursor byteSize)

/-- A character that stands in no key, delimiter or word and is neither white space nor an `=`. -/
structure Separates (options : MatchOptions) (keys : List String) (c : Char) : Prop where
  notWord : Text.isWordChar c = false
  notBlank : c ∉ whiteSpace
  notEquals : c ≠ '='
  notInKey : ∀ key ∈ keys, c ∉ key.toList
  notInDelimiter : ∀ opening closing, options.delimiters = some (opening, closing) →
    c ∉ opening.toList ∧ c ∉ closing.toList

def Match.shift (size : Nat) (found : Match) : Match :=
  ⟨size + found.start, size + found.stop, found.key⟩

@[simp] theorem Match.shift_start (size : Nat) (found : Match) :
    (found.shift size).start = size + found.start := rfl

@[simp] theorem Match.shift_stop (size : Nat) (found : Match) :
    (found.shift size).stop = size + found.stop := rfl

@[simp] theorem Match.shift_key (size : Nat) (found : Match) :
    (found.shift size).key = found.key := rfl

def MatchOptions.Permits (options : MatchOptions) (key : String) (before after : List Char) : Prop :=
  (options.delimiters = none →
    (Cursor.between before ((options.spelling key).toList ++ after)).atWordEdge = true ∧
      (Cursor.between (before ++ (options.spelling key).toList) after).atWordEdge = true) ∧
  (options.preventAssignment = true → Text.startsAssignment after = false)

section

variable {options : MatchOptions} {keys : List String} {c : Char}

theorem acceptable_iff {text : String} {found : Match} :
    Acceptable options text found ↔ ∃ before after,
      text.toList = before ++ ((options.spelling found.key).toList ++ after) ∧
      found = ⟨byteSize before, byteSize (before ++ (options.spelling found.key).toList),
        found.key⟩ ∧
      options.Permits found.key before after := by
  constructor
  · intro ⟨before, after, split, begins, ends, edges, free⟩
    have parts : text.toList =
        before.toList ++ ((options.spelling found.key).toList ++ after.toList) := by
      rw [split]
      simp
    have parts' : text.toList =
        before.toList ++ (options.spelling found.key).toList ++ after.toList := by
      rw [parts, List.append_assoc]
    have start : found.start = byteSize before.toList := by rw [begins, Text.byteSize_toList]
    have stop : found.stop = byteSize (before.toList ++ (options.spelling found.key).toList) := by
      rw [ends, start, Text.byteSize_append, Text.byteSize_toList (options.spelling found.key)]
    refine ⟨before.toList, after.toList, parts, ?_, ?_, ?_⟩
    · rw [← start, ← stop]
    · intro bare
      rw [Cursor.atWordEdge_between parts, Cursor.atWordEdge_between parts', ← start, ← stop]
      exact edges bare
    · intro guarded
      have unassigned := free guarded
      rwa [← String.ofList_toList (s := after), ← startsAssignment_iff, Bool.not_eq_true]
        at unassigned
  · intro ⟨before, after, parts, place, edges, free⟩
    have parts' : text.toList = before ++ (options.spelling found.key).toList ++ after := by
      rw [parts, List.append_assoc]
    have start : found.start = byteSize before := congrArg Match.start place
    have stop : found.stop = byteSize (before ++ (options.spelling found.key).toList) :=
      congrArg Match.stop place
    refine ⟨.ofList before, .ofList after, ?_, ?_, ?_, ?_, ?_⟩
    · rw [← String.toList_inj, parts']
      simp
    · rw [start, Text.utf8ByteSize_ofList]
    · rw [stop, start, Text.byteSize_append, Text.byteSize_toList]
    · intro bare
      rw [start, stop, ← Cursor.atWordEdge_between parts, ← Cursor.atWordEdge_between parts']
      exact edges bare
    · intro guarded
      rw [← startsAssignment_iff, free guarded]
      exact Bool.false_ne_true

namespace Separates

theorem not_mem_spelling (separates : Separates options keys c) {key : String}
    (known : key ∈ keys) : c ∉ (options.spelling key).toList := by
  have outside := separates.notInKey key known
  unfold MatchOptions.spelling
  split
  · rename_i opening closing delimiters
    obtain ⟨first, last⟩ := separates.notInDelimiter opening closing delimiters
    simp [first, outside, last]
  · exact outside

theorem atWordEdge_before (separates : Separates options keys c) (before after rest : List Char) :
    (Cursor.between before (after ++ c :: rest)).atWordEdge =
      (Cursor.between before after).atWordEdge := by
  cases after with
  | nil => simp [Cursor.atWordEdge, Cursor.between, Text.isWordEdge, separates.notWord]
  | cons d after => rfl

theorem atWordEdge_behind (separates : Separates options keys c) (passed before after : List Char) :
    (Cursor.between (passed ++ c :: before) after).atWordEdge =
      (Cursor.between before after).atWordEdge := by
  rcases List.eq_nil_or_concat before with rfl | ⟨before, d, rfl⟩
  · simp [Cursor.atWordEdge, Cursor.between, Text.isWordEdge, separates.notWord]
  · rw [List.concat_eq_append, ← List.cons_append, ← List.append_assoc]
    simp only [Cursor.atWordEdge, Cursor.between, List.getLast?_concat]

theorem startsAssignment_before (separates : Separates options keys c) {after : List Char}
    (ends : after.getLast? ≠ some '=') (rest : List Char) :
    Text.startsAssignment (after ++ c :: rest) = Text.startsAssignment after := by
  have notBlank : Text.isBlank c = false :=
    Bool.eq_false_iff.2 fun blank => separates.notBlank ((isBlank_iff c).1 blank)
  have dropped : (after ++ c :: rest).dropWhile Text.isBlank =
      after.dropWhile Text.isBlank ++ c :: rest := by
    rw [List.dropWhile_append]
    split
    · rename_i empty
      rw [List.isEmpty_iff.1 empty, List.dropWhile_cons_of_neg (by simp [notBlank]),
        List.nil_append]
    · rfl
  have suffix := List.dropWhile_suffix Text.isBlank (l := after)
  unfold Text.startsAssignment
  rw [dropped]
  -- The separator is looked at only if nothing but the `=` is left, or not even that.
  match behind : after.dropWhile Text.isBlank with
  | [] =>
    rw [List.nil_append]
    split
    · rename_i same
      exact absurd (List.cons.inj same).1 separates.notEquals
    · rfl
  | [d] =>
    rw [behind] at suffix
    obtain ⟨front, rfl⟩ := suffix
    have other : d ≠ '=' := by simpa using ends
    simp [other]
  | d :: e :: more =>
    by_cases equals : d = '='
    · subst equals
      rfl
    · simp [equals]

theorem permits_before (separates : Separates options keys c) {key : String}
    {before after : List Char} (ends : options.preventAssignment = true → after.getLast? ≠ some '=')
    (rest : List Char) :
    options.Permits key before (after ++ c :: rest) ↔ options.Permits key before after := by
  unfold MatchOptions.Permits
  rw [← List.append_assoc, separates.atWordEdge_before, separates.atWordEdge_before]
  refine and_congr_right fun _ => forall_congr' fun guarded => ?_
  rw [separates.startsAssignment_before (ends guarded)]

theorem permits_behind (separates : Separates options keys c) {key : String}
    (passed before after : List Char) :
    options.Permits key (passed ++ c :: before) after ↔ options.Permits key before after := by
  unfold MatchOptions.Permits
  rw [List.append_assoc, List.cons_append, separates.atWordEdge_behind,
    separates.atWordEdge_behind]

theorem split_cases {a b before spelling after : List Char} (outside : c ∉ spelling)
    (split : a ++ c :: b = before ++ (spelling ++ after)) :
    (∃ rest, a = before ++ (spelling ++ rest) ∧ after = rest ++ c :: b) ∨
      ∃ passed, before = a ++ c :: passed ∧ b = passed ++ (spelling ++ after) := by
  rcases List.append_eq_append_iff.1 split with ⟨passed, rfl, behind⟩ | ⟨kept, rfl, behind⟩
  · cases passed with
    | nil =>
      cases spelling with
      | nil => exact .inl ⟨[], by simp, behind.symm⟩
      | cons d spelling =>
        obtain ⟨rfl, -⟩ := List.cons.inj behind
        exact absurd List.mem_cons_self outside
    | cons d passed =>
      obtain ⟨rfl, rfl⟩ := List.cons.inj behind
      exact .inr ⟨passed, rfl, rfl⟩
  · rcases List.append_eq_append_iff.1 behind with ⟨rest, rfl, rfl⟩ | ⟨spelled, rfl, last⟩
    · exact .inl ⟨rest, rfl, rfl⟩
    · cases spelled with
      | nil => exact .inl ⟨[], by simp, last.symm⟩
      | cons d spelled =>
        obtain ⟨rfl, -⟩ := List.cons.inj last
        simp at outside

end Separates

section

variable {a b : String} (separates : Separates options keys c)
  (ends : options.preventAssignment = true → a.toList.getLast? ≠ some '=')

theorem toList_push_append (a b : String) (c : Char) :
    (a.push c ++ b).toList = a.toList ++ c :: b.toList := by
  simp

theorem shift_between (a : String) (c : Char) (key : String) (before spelling : List Char) :
    Match.shift (a.push c).utf8ByteSize ⟨byteSize before, byteSize (before ++ spelling), key⟩ =
      ⟨byteSize (a.toList ++ c :: before), byteSize (a.toList ++ c :: before ++ spelling), key⟩ := by
  rw [Match.shift, ← Text.byteSize_toList, ← Text.byteSize_append, ← Text.byteSize_append,
    String.toList_push, List.append_assoc, List.append_assoc, List.append_assoc]
  rfl

include separates ends

theorem acceptable_push_append_iff {found : Match} (known : found.key ∈ keys) :
    Acceptable options (a.push c ++ b) found ↔
      Acceptable options a found ∨ ∃ inner, inner.key ∈ keys ∧ Acceptable options b inner ∧
        found = inner.shift (a.push c).utf8ByteSize := by
  have suffix_ends : ∀ {front rest : List Char}, a.toList = front ++ rest →
      options.preventAssignment = true → rest.getLast? ≠ some '=' := by
    intro front rest split guarded last
    apply ends guarded
    rw [split, List.getLast?_append, last, Option.some_or]
  constructor
  · intro acceptable
    obtain ⟨before, after, split, place, permits⟩ := acceptable_iff.1 acceptable
    rw [toList_push_append] at split
    rcases Separates.split_cases (separates.not_mem_spelling known) split with
      ⟨rest, front, rfl⟩ | ⟨passed, rfl, back⟩
    · have front' := front
      rw [← List.append_assoc] at front'
      exact .inl (acceptable_iff.2
        ⟨before, rest, front, place, (separates.permits_before (suffix_ends front') _).1 permits⟩)
    · refine .inr ⟨⟨byteSize passed, byteSize (passed ++ (options.spelling found.key).toList),
        found.key⟩, known, acceptable_iff.2 ⟨passed, after, back, rfl, ?_⟩, ?_⟩
      · exact (separates.permits_behind _ _ _).1 permits
      · rw [shift_between]
        exact place
  · intro sides
    rcases sides with acceptable | ⟨inner, innerKnown, acceptable, rfl⟩
    · obtain ⟨before, after, split, place, permits⟩ := acceptable_iff.1 acceptable
      have split' := split
      rw [← List.append_assoc] at split'
      refine acceptable_iff.2 ⟨before, after ++ c :: b.toList, ?_, place,
        (separates.permits_before (suffix_ends split') _).2 permits⟩
      rw [toList_push_append, split]
      simp
    · obtain ⟨before, after, split, place, permits⟩ := acceptable_iff.1 acceptable
      refine acceptable_iff.2 ⟨a.toList ++ c :: before, after, ?_, ?_,
        (separates.permits_behind _ _ _).2 permits⟩
      · rw [toList_push_append, split]
        simp [Match.shift]
      · rw [place, shift_between]

omit separates ends in
theorem Acceptable.start_lt_push {found : Match} (acceptable : Acceptable options a found) (c : Char) :
    found.start < (a.push c).utf8ByteSize := by
  have stop := acceptable.stop_le
  obtain ⟨-, -, -, -, spans, -⟩ := acceptable
  have positive := c.utf8Size_pos
  rw [String.utf8ByteSize_push]
  omega

theorem Foremost.behind {offset : Nat} {found : Match}
    (foremost : Foremost options keys b offset found) :
    Foremost options keys (a.push c ++ b) ((a.push c).utf8ByteSize + offset)
      (found.shift (a.push c).utf8ByteSize) where
  known := foremost.known
  acceptable := by
    apply (acceptable_push_append_iff separates ends ?_).2
    · exact .inr ⟨found, foremost.known, foremost.acceptable, rfl⟩
    · exact foremost.known
  ahead := Nat.add_le_add_left foremost.ahead _
  first other known acceptable ahead := by
    rcases (acceptable_push_append_iff separates ends known).1 acceptable with
      front | ⟨inner, innerKnown, back, rfl⟩
    · have := front.start_lt_push c
      omega
    · exact Nat.add_le_add_left
        (foremost.first inner innerKnown back (Nat.le_of_add_le_add_left ahead)) _
  longest other known acceptable start := by
    rcases (acceptable_push_append_iff separates ends known).1 acceptable with
      front | ⟨inner, innerKnown, back, rfl⟩
    · have := front.start_lt_push c
      rw [start, Match.shift_start] at this
      omega
    · exact foremost.longest inner innerKnown back (Nat.add_left_cancel start)

theorem Foremost.push_append {offset : Nat} {found : Match}
    (foremost : Foremost options keys a offset found) :
    Foremost options keys (a.push c ++ b) offset found where
  known := foremost.known
  acceptable := (acceptable_push_append_iff separates ends foremost.known).2
    (.inl foremost.acceptable)
  ahead := foremost.ahead
  first other known acceptable ahead := by
    rcases (acceptable_push_append_iff separates ends known).1 acceptable with
      front | ⟨inner, -, -, rfl⟩
    · exact foremost.first other known front ahead
    · exact Nat.le_trans (Nat.le_of_lt (foremost.acceptable.start_lt_push c)) (Nat.le_add_right _ _)
  longest other known acceptable start := by
    rcases (acceptable_push_append_iff separates ends known).1 acceptable with
      front | ⟨inner, -, -, rfl⟩
    · exact foremost.longest other known front start
    · have := foremost.acceptable.start_lt_push c
      rw [← start, Match.shift_start] at this
      omega

theorem Leftmost.behind {offset : Nat} {all : List Match}
    (matched : Leftmost options keys b offset all) :
    Leftmost options keys (a.push c ++ b) ((a.push c).utf8ByteSize + offset)
      (all.map (Match.shift (a.push c).utf8ByteSize)) := by
  induction matched with
  | done absent =>
    apply Leftmost.done
    intro found known acceptable
    rcases (acceptable_push_append_iff separates ends known).1 acceptable with
      front | ⟨inner, innerKnown, back, rfl⟩
    · exact Nat.lt_of_lt_of_le (front.start_lt_push c) (Nat.le_add_right _ _)
    · exact Nat.add_lt_add_left (absent inner innerKnown back) _
  | found foremost _ ih => exact .found (foremost.behind separates ends) ih

theorem Leftmost.push_append {offset : Nat} {all others : List Match}
    (matched : Leftmost options keys a offset all) (inside : offset ≤ a.utf8ByteSize)
    (back : Leftmost options keys b 0 others) :
    Leftmost options keys (a.push c ++ b) offset
      (all ++ others.map (Match.shift (a.push c).utf8ByteSize)) := by
  induction matched with
  | @done offset absent =>
    have le : offset ≤ (a.push c).utf8ByteSize := by
      rw [String.utf8ByteSize_push]
      omega
    -- No key is left in front of the separator, so that the first one behind it comes next.
    refine (back.behind separates ends).earlier le fun found known acceptable ahead => ?_
    rcases (acceptable_push_append_iff separates ends known).1 acceptable with
      front | ⟨inner, -, -, rfl⟩
    · exact absurd ahead (Nat.not_le.2 (absent found known front))
    · exact Nat.add_le_add_left (Nat.zero_le _) _
  | found foremost _ ih =>
    exact .found (foremost.push_append separates ends) (ih foremost.acceptable.stop_le)

end

theorem Matcher.find_push_append {σ : Type} {m : Matcher σ} {table : Table σ}
    (made : m.MadeFrom table options) (separates : Separates options table.keys c) {a : String}
    (ends : options.preventAssignment = true → a.toList.getLast? ≠ some '=') (b : String) :
    m.find (a.push c ++ b) =
      m.find a ++ (m.find b).map (Match.shift (a.push c).utf8ByteSize) :=
  (find_leftmost made (a.push c ++ b)).unique
    ((find_leftmost made a).push_append separates ends (Nat.zero_le _) (find_leftmost made b))

end

/-! ### A key on both sides of a semicolon -/

section

variable {σ : Type} (r : Replacement σ)

theorem separates_semicolon : Separates ⟨none, true⟩ (Table.ofList [("KEY", r)]).keys ';' := by
  rw [Table.keys_ofList_singleton]
  exact ⟨by decide, by decide, by decide, by decide, nofun⟩

theorem Matcher.exists_compile_key :
    ∃ m, compile (.ofList [("KEY", r)]) ⟨none, true⟩ = .ok m ∧ m.replacement? "KEY" = some r ∧
      m.find "KEY" = [⟨0, 3, "KEY"⟩] ∧ m.find "KEY;KEY" = [⟨0, 3, "KEY"⟩, ⟨4, 7, "KEY"⟩] := by
  have keys := Table.keys_ofList_singleton "KEY" r
  have nonempty : ∀ key ∈ (Table.ofList [("KEY", r)]).keys, key ≠ "" := by
    rw [keys]
    decide
  obtain ⟨m, compiled⟩ := exists_compile nonempty ⟨none, true⟩
  have made := madeFrom_of_compile compiled
  have once : m.find "KEY" = [⟨0, 3, "KEY"⟩] :=
    find_spelling made (by rw [keys]; decide) (.of_spelling _ _ fun _ => by decide +kernel)
  have twice := find_push_append made (separates_semicolon r)
    (fun _ => show "KEY".toList.getLast? ≠ some '=' by decide) "KEY"
  rw [once] at twice
  refine ⟨m, compiled, ?_, once, twice⟩
  rw [replacement?, made.table_eq, Table.get?_eq_some_iff, Table.toList_ofList_singleton]
  exact List.mem_singleton_self _

end

end KeySubst

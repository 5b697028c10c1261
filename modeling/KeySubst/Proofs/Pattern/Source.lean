import KeySubst.Pattern.Basic

/-!
# Sources of patterns

A source is read back sign by sign.
-/

namespace KeySubst.Pattern

/-! ### Reading a source -/

inductive Sign where
  | literal (c : Char)
  | opening
  | closing
  | bar
  | edge
  deriving DecidableEq, Repr

def Sign.literal? : Sign → Option Char
  | .literal c => some c
  | _ => none

/-- Reads a source. Only a meta character can be made literal, since other escapes have a meaning of
their own; a bare meta character that belongs to no group is not read at all. -/
def signs? : List Char → Option (List Sign)
  | [] => some []
  | '\\' :: c :: rest =>
    if metaCharacters.contains c then (signs? rest).map (.literal c :: ·) else none
  | '(' :: '?' :: '-' :: 'u' :: ':' :: '\\' :: 'b' :: ')' :: rest =>
    (signs? rest).map (.edge :: ·)
  | '(' :: rest => (signs? rest).map (.opening :: ·)
  | ')' :: rest => (signs? rest).map (.closing :: ·)
  | '|' :: rest => (signs? rest).map (.bar :: ·)
  | c :: rest => if metaCharacters.contains c then none else (signs? rest).map (.literal c :: ·)

def text? (signs : List Sign) : Option String := (signs.mapM Sign.literal?).map String.ofList

def frame? : (before after : List Sign) → Option Frame
  | [.edge], [.edge] => some .word
  | before, after => do return .delimited (← text? before) (← text? after)

def group? (signs : List Sign) : Option (Frame × List String) :=
  match signs.dropWhile (· ≠ .opening) with
  | [] => none
  | _ :: rest =>
    match rest.dropWhile (· ≠ .closing) with
    | [] => none
    | _ :: after => do
      let frame ← frame? (signs.takeWhile (· ≠ .opening)) after
      let keys ← ((rest.takeWhile (· ≠ .closing)).splitOn .bar).mapM text?
      return (frame, keys)

def read? (source : String) : Option (Frame × List String) := (signs? source.toList).bind group?

def unescape? (text : String) : Option String := (signs? text.toList).bind text?

def literals (s : String) : List Sign := s.toList.map .literal

theorem toList_escape (s : String) : (escape s).toList = s.toList.flatMap fun c =>
    if metaCharacters.contains c then ['\\', c] else [c] := String.toList_ofList

theorem signs?_plain {c : Char} (plain : metaCharacters.contains c = false) (rest : List Char) :
    signs? (c :: rest) = (signs? rest).map (.literal c :: ·) := by
  rw [signs?.eq_def]
  split <;> simp_all [metaCharacters]

theorem signs?_escaped {c : Char} (special : metaCharacters.contains c = true) (rest : List Char) :
    signs? ('\\' :: c :: rest) = (signs? rest).map (.literal c :: ·) := by
  rw [signs?, if_pos special]

theorem signs?_opening {rest : List Char} (other : rest.head? ≠ some '?') :
    signs? ('(' :: rest) = (signs? rest).map (.opening :: ·) := by
  rw [signs?.eq_def]
  split <;> grind

theorem signs?_escape_append (s : String) (rest : List Char) :
    signs? ((escape s).toList ++ rest) = (signs? rest).map (literals s ++ ·) := by
  rw [toList_escape, literals]
  induction s.toList with
  | nil => simp
  | cons c cs ih =>
    rw [List.flatMap_cons, List.append_assoc]
    by_cases special : metaCharacters.contains c = true
    · rw [if_pos special, List.cons_append, List.singleton_append, signs?_escaped special, ih,
        Option.map_map]
      rfl
    · rw [if_neg special, List.singleton_append, signs?_plain (Bool.eq_false_iff.2 special), ih,
        Option.map_map]
      rfl

theorem signs?_escape (s : String) : signs? (escape s).toList = some (literals s) := by
  have signs := signs?_escape_append s []
  rw [List.append_nil] at signs
  exact signs.trans (congrArg some (List.append_nil _))

/-! ### Signs of a source -/

def sides : Frame → List Sign × List Sign
  | .word => ([.edge], [.edge])
  | .delimited opening closing => (literals opening, literals closing)

def alternatives (keys : List String) : List Sign := [.bar].intercalate (keys.map literals)

theorem signs?_before (f : Frame) (rest : List Char) :
    signs? ((surroundings f).1.toList ++ rest) = (signs? rest).map ((sides f).1 ++ ·) := by
  cases f with
  | word => rfl
  | delimited opening closing => exact signs?_escape_append opening rest

theorem signs?_behind (f : Frame) : signs? (surroundings f).2.toList = some (sides f).2 := by
  cases f with
  | word => rfl
  | delimited opening closing => exact signs?_escape closing

theorem toList_source (p : Pattern) : p.source.toList =
    (surroundings p.frame).1.toList ++
      '(' :: (['|'].intercalate (p.keys.map fun key => (escape key).toList) ++
        ')' :: (surroundings p.frame).2.toList) := by
  have parts : ((p.keys.map escape).map String.toList) =
      p.keys.map fun key => (escape key).toList := List.map_map
  simp only [source, String.toList_append, String.toList_intercalate, parts]
  simp

theorem head?_escape_append (s : String) {rest : List Char} (other : rest.head? ≠ some '?') :
    ((escape s).toList ++ rest).head? ≠ some '?' := by
  rw [toList_escape]
  cases s.toList with
  | nil => exact other
  | cons c cs =>
    rw [List.flatMap_cons]
    by_cases special : metaCharacters.contains c = true
    · rw [if_pos special]
      simp
    · -- A question mark is escaped itself, so that the group is not taken for an edge of a word.
      have apart : c ≠ '?' := by
        rintro rfl
        exact special (by decide)
      rw [if_neg special]
      simpa using apart

theorem signs?_alternatives (keys : List String) (rest : List Char) :
    signs? (['|'].intercalate (keys.map fun key => (escape key).toList) ++ rest) =
      (signs? rest).map (alternatives keys ++ ·) := by
  rw [alternatives]
  induction keys with
  | nil => simp
  | cons key keys ih =>
    -- There is a bar between two keys, but none behind the last.
    cases keys with
    | nil => simpa using signs?_escape_append key rest
    | cons next keys =>
      simp only [List.map_cons, List.intercalate_cons_cons, List.append_assoc] at ih ⊢
      rw [signs?_escape_append, List.singleton_append, signs?, ih, Option.map_map, Option.map_map]
      rfl

theorem head?_alternatives (keys : List String) {rest : List Char} (other : rest.head? ≠ some '?') :
    (['|'].intercalate (keys.map fun key => (escape key).toList) ++ rest).head? ≠ some '?' := by
  match keys with
  | [] => exact other
  | [key] => simpa using head?_escape_append key other
  | key :: next :: keys =>
    rw [List.map_cons, List.map_cons, List.intercalate_cons_cons, List.append_assoc,
      List.append_assoc]
    exact head?_escape_append key (by simp)

theorem signs?_source (p : Pattern) : signs? p.source.toList =
    some ((sides p.frame).1 ++ .opening :: (alternatives p.keys ++ .closing ::
      (sides p.frame).2)) := by
  rw [toList_source, signs?_before, signs?_opening (head?_alternatives p.keys (by simp)),
    signs?_alternatives, signs?, signs?_behind]
  rfl

theorem text?_literals (s : String) : text? (literals s) = some s := by
  have each : Sign.literal? ∘ Sign.literal = pure := rfl
  rw [text?, literals, List.mapM_map, each, List.mapM_pure]
  simp

theorem not_mem_literals {sign : Sign} (s : String) (meaning : sign.literal? = none) :
    sign ∉ literals s := by
  intro member
  obtain ⟨c, -, rfl⟩ := List.mem_map.1 member
  cases meaning

theorem not_mem_sides {sign : Sign} (meaning : sign.literal? = none) (apart : sign ≠ .edge)
    (f : Frame) : sign ∉ (sides f).1 := by
  cases f with
  | word => simpa [sides] using apart
  | delimited opening closing => exact not_mem_literals opening meaning

theorem closing_not_mem_alternatives (keys : List String) : .closing ∉ alternatives keys := by
  rw [alternatives]
  induction keys with
  | nil => simp
  | cons key keys ih =>
    have here : .closing ∉ literals key := not_mem_literals key rfl
    cases keys with
    | nil => simpa using here
    | cons next keys =>
      rw [List.map_cons, List.map_cons, List.intercalate_cons_cons]
      simpa [here] using ih

theorem frame?_sides (f : Frame) : frame? (sides f).1 (sides f).2 = some f := by
  cases f with
  | word => rfl
  | delimited opening closing =>
    have edgeless : .edge ∉ literals opening := not_mem_literals opening rfl
    rw [sides, frame?]
    · rw [text?_literals, text?_literals]
      rfl
    · -- Delimiters that look like edges of words are still literal.
      rintro (alone : literals opening = [.edge]) -
      exact edgeless (alone ▸ List.mem_singleton_self _)

theorem mapM_literals (keys : List String) : (keys.map literals).mapM text? = some keys := by
  have each : text? ∘ literals = pure := funext text?_literals
  rw [List.mapM_map, each, List.mapM_pure]
  simp

theorem splitOn_alternatives {keys : List String} (some_key : keys ≠ []) :
    (alternatives keys).splitOn .bar = keys.map literals := by
  have barless : ∀ signs ∈ keys.map literals, .bar ∉ signs := by
    intro signs member
    obtain ⟨key, -, rfl⟩ := List.mem_map.1 member
    exact not_mem_literals key rfl
  exact List.splitOn_intercalate _ barless (by simpa using some_key)

section

variable {sign : Sign} {signs : List Sign}

theorem takeWhile_ne (absent : sign ∉ signs) (rest : List Sign) :
    (signs ++ sign :: rest).takeWhile (· ≠ sign) = signs := by
  rw [List.takeWhile_append_of_pos, List.takeWhile_cons_of_neg (by simp), List.append_nil]
  exact fun other member => decide_eq_true fun same => absent (same ▸ member)

theorem dropWhile_ne (absent : sign ∉ signs) (rest : List Sign) :
    (signs ++ sign :: rest).dropWhile (· ≠ sign) = sign :: rest := by
  rw [List.dropWhile_append_of_pos, List.dropWhile_cons_of_neg (by simp)]
  exact fun other member => decide_eq_true fun same => absent (same ▸ member)

end

theorem group?_signs (f : Frame) {keys : List String} (some_key : keys ≠ []) :
    group? ((sides f).1 ++ .opening :: (alternatives keys ++ .closing :: (sides f).2)) =
      some (f, keys) := by
  have before : .opening ∉ (sides f).1 := not_mem_sides rfl (by decide) f
  have inside := closing_not_mem_alternatives keys
  rw [group?, dropWhile_ne before, takeWhile_ne before]
  simp only [dropWhile_ne inside, takeWhile_ne inside]
  rw [frame?_sides, splitOn_alternatives some_key, mapM_literals]
  rfl

theorem read?_source (p : Pattern) (some_key : p.keys ≠ []) :
    read? p.source = some (p.frame, p.keys) := by
  rw [read?, signs?_source]
  exact group?_signs p.frame some_key

theorem unescape?_escape (s : String) : unescape? (escape s) = some s := by
  rw [unescape?, signs?_escape]
  exact text?_literals s

theorem eq_of_keys {p q : Pattern} (keys : p.keys = q.keys) (frame : p.frame = q.frame) :
    p = q := by
  obtain ⟨_, _, _, rfl⟩ := p
  obtain ⟨_, _, _, rfl⟩ := q
  simp_all

/-- The source of a pattern is read as one group of its keys, in their order and between its
delimiters or edges of words, whatever the keys and delimiters are. So no two patterns have one
source, least of all one for words and one with delimiters. -/
theorem source_reads (p : Pattern) (some_key : p.keys ≠ []) :
    read? p.source = some (p.frame, p.keys) ∧
      (∀ q : Pattern, q.keys ≠ [] → q.source = p.source → q = p) ∧
      (p.frame = .word → ∀ (q : Pattern) (opening closing : String), q.keys ≠ [] →
        q.frame = .delimited opening closing → q.source ≠ p.source) ∧
      ∀ text, unescape? (escape text) = some text := by
  have unique : ∀ q : Pattern, q.keys ≠ [] → q.source = p.source → q = p := by
    intro q some_key' same
    have read := read?_source q some_key'
    rw [same, read?_source p some_key, Option.some.injEq, Prod.mk.injEq] at read
    exact eq_of_keys read.2.symm read.1.symm
  refine ⟨read?_source p some_key, unique, ?_, unescape?_escape⟩
  intro word q opening closing some_key' delimited same
  rw [unique q some_key' same, word] at delimited
  cases delimited

theorem source_reads_syntax :
    let p : Pattern :=
      { keys := ["(?-u:\\b)", "a|b\\", ")("]
        frame := .delimited "(" "|" }
    p.source = "\\((\\(\\?\\-u:\\\\b\\)|a\\|b\\\\|\\)\\()\\|" ∧ p.keys ≠ [] ∧
      read? p.source = some (.delimited "(" "|", ["(?-u:\\b)", "a|b\\", ")("]) := by
  intro p
  have some_key : p.keys ≠ [] := by decide
  exact ⟨by decide +kernel, some_key, (source_reads p some_key).1⟩

end KeySubst.Pattern

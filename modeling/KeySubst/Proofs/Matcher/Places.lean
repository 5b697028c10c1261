import KeySubst.Proofs.Matcher.Reference

/-!
# Places of a text

What a search finds is told by the two parts of the text that a cursor stands between.
-/

namespace KeySubst

open Text (Cursor byteSize)

def Text.Cursor.between (before after : List Char) : Cursor :=
  ⟨before.getLast?, byteSize before, after⟩

namespace Text.Cursor

@[simp] theorem between_offset (before after : List Char) :
    (between before after).offset = byteSize before := rfl

@[simp] theorem between_rest (before after : List Char) :
    (between before after).rest = after := rfl

theorem pass_between (before w rest after : List Char) :
    (between before rest).pass w after = between (before ++ w) after := by
  simp [between, pass]

theorem next?_between_cons (before : List Char) (c : Char) (after : List Char) :
    (between before (c :: after)).next? = some (between (before ++ [c]) after) := by
  simp [between, next?]

theorem next?_between_nil (before : List Char) : (between before []).next? = none := rfl

theorem read?_between_iff {before rest w : List Char} {d : Cursor} :
    (between before rest).read? w = some d ↔
      ∃ after, rest = w ++ after ∧ d = between (before ++ w) after := by
  simp only [read?_eq_some_iff, between_rest, pass_between]

theorem atWordEdge_between {text : String} {before after : List Char}
    (split : text.toList = before ++ after) :
    (between before after).atWordEdge = isByteEdge text (byteSize before) := by
  rw [← String.ofList_toList (s := text), split, isByteEdge_ofList]
  rfl

end Text.Cursor

theorem isBlank_iff (c : Char) : Text.isBlank c = true ↔ c ∈ whiteSpace := by
  have codes : c ∈ whiteSpace ↔ c.toNat ∈ whiteSpace.map Char.toNat := by
    rw [List.mem_map]
    exact ⟨fun member => ⟨c, member, rfl⟩,
      fun ⟨d, member, same⟩ => Char.toNat_inj.1 same ▸ member⟩
  rw [codes, show whiteSpace.map Char.toNat = [0x09, 0x0A, 0x0B, 0x0C, 0x0D, 0x20, 0xA0, 0x1680,
    0x2000, 0x2001, 0x2002, 0x2003, 0x2004, 0x2005, 0x2006, 0x2007, 0x2008, 0x2009, 0x200A, 0x2028,
    0x2029, 0x202F, 0x205F, 0x3000, 0xFEFF] from rfl]
  simp only [Text.isBlank, List.mem_cons, List.not_mem_nil, or_false, Bool.or_eq_true,
    Bool.and_eq_true, decide_eq_true_eq]
  omega

theorem startsAssignment_iff (after : List Char) :
    Text.startsAssignment after = true ↔ Assigns (String.ofList after) := by
  unfold Text.startsAssignment Assigns
  rw [String.toList_ofList]
  constructor
  · intro starts
    split at starts
    · rename_i c rest behind
      refine ⟨after.takeWhile Text.isBlank, c, rest, ?_, fun blank member => ?_,
        by simpa using starts⟩
      · rw [← behind, List.takeWhile_append_dropWhile]
      · exact (isBlank_iff blank).1 (List.all_eq_true.1 List.all_takeWhile blank member)
    · cases starts
  · rintro ⟨blanks, c, rest, rfl, blank, other⟩
    rw [List.dropWhile_append_of_pos fun b member => (isBlank_iff b).2 (blank b member),
      List.dropWhile_cons_of_neg (by decide)]
    simpa using other

def Frame.spelling (f : Frame) (key : List Char) : List Char :=
  match f with
  | .word => key
  | .delimited opening closing => opening.toList ++ key ++ closing.toList

theorem MatchOptions.toList_spelling (options : MatchOptions) (key : String) :
    (options.spelling key).toList = options.frame.spelling key.toList := by
  unfold spelling frame
  cases options.delimiters with
  | none => rfl
  | some pair => simp [Frame.spelling]

theorem Frame.spelling_ne_nil (f : Frame) {key : List Char} (nonempty : key ≠ []) :
    f.spelling key ≠ [] := by
  cases f with
  | word => exact nonempty
  | delimited opening closing => simp [spelling, nonempty]

/-- Where a key in its frame ends: behind its spelling, and at edges of words if it is bare. -/
theorem Frame.stop?_between_iff {f : Frame} {key before rest : List Char} {d : Cursor} :
    f.stop? key (.between before rest) = some d ↔
      ∃ after, rest = f.spelling key ++ after ∧ d = .between (before ++ f.spelling key) after ∧
        (f = .word → (Cursor.between before rest).atWordEdge = true ∧ d.atWordEdge = true) := by
  cases f with
  | word =>
    simp only [stop?, enter?, leave?, spelling, Option.bind_eq_bind, Option.bind_eq_some_iff,
      Option.ite_none_right_eq_some, Option.some.injEq, forall_const]
    constructor
    · rintro ⟨_, ⟨enters, rfl⟩, last, read, leaves, rfl⟩
      obtain ⟨after, split, same⟩ := Cursor.read?_between_iff.1 read
      exact ⟨after, split, same, enters, leaves⟩
    · rintro ⟨after, split, same, enters, leaves⟩
      exact ⟨_, ⟨enters, rfl⟩, d, Cursor.read?_between_iff.2 ⟨after, split, same⟩, leaves, rfl⟩
  | delimited opening closing =>
    simp only [stop?, enter?, leave?, spelling, Option.bind_eq_bind, Option.bind_eq_some_iff,
      reduceCtorEq, false_implies, and_true]
    constructor
    · rintro ⟨inner, enters, last, read, leaves⟩
      obtain ⟨_, rfl, rfl⟩ := Cursor.read?_between_iff.1 enters
      obtain ⟨_, rfl, rfl⟩ := Cursor.read?_between_iff.1 read
      obtain ⟨after, rfl, rfl⟩ := Cursor.read?_between_iff.1 leaves
      exact ⟨after, by simp, by simp⟩
    · rintro ⟨after, rfl, rfl⟩
      refine ⟨_, Cursor.read?_between_iff.2 ⟨key ++ (closing.toList ++ after), by simp, rfl⟩, _,
        Cursor.read?_between_iff.2 ⟨closing.toList ++ after, rfl, rfl⟩,
        Cursor.read?_between_iff.2 ⟨after, rfl, by simp⟩⟩

theorem stop?_accepts_iff {options : MatchOptions} {text key : String} {before rest : List Char}
    (split : text.toList = before ++ rest) {d : Cursor} :
    ((options.frame.stop? key.toList (.between before rest)).filter fun stop =>
        !(options.preventAssignment && Text.startsAssignment stop.rest)) = some d ↔
      ∃ after, rest = (options.spelling key).toList ++ after ∧
        d = .between (before ++ (options.spelling key).toList) after ∧
        Acceptable options text ⟨byteSize before, d.offset, key⟩ := by
  have bare : options.frame = .word ↔ options.delimiters = none := by
    unfold MatchOptions.frame
    split <;> simp_all
  rw [Option.filter_eq_some_iff, Frame.stop?_between_iff, ← options.toList_spelling]
  constructor
  · rintro ⟨⟨after, rfl, rfl, edges⟩, accepted⟩
    refine ⟨after, rfl, rfl, String.ofList before, String.ofList after, ?_, by simp, by simp, ?_,
      ?_⟩
    · rw [← String.toList_inj, split]
      simp
    · intro none
      obtain ⟨enters, leaves⟩ := edges (bare.2 none)
      rw [Cursor.atWordEdge_between split] at enters
      rw [Cursor.atWordEdge_between (by rw [split]; simp)] at leaves
      exact ⟨enters, leaves⟩
    · intro guarded assigns
      rw [guarded, Cursor.between_rest, (startsAssignment_iff after).2 assigns] at accepted
      cases accepted
  · rintro ⟨after, rfl, rfl, before', after', same, begins, -, edges, unassigned⟩
    have behind : after' = String.ofList after := by
      rw [← String.toList_inj, split] at same
      simp only [String.toList_append, List.append_assoc] at same
      obtain ⟨-, same⟩ := Text.eq_of_append_eq_append same (by
        rw [Text.byteSize_toList]; exact begins)
      rw [← String.toList_inj, String.toList_ofList, List.append_cancel_left same]
    refine ⟨⟨after, rfl, rfl, fun word => ?_⟩, ?_⟩
    · have ends : text.toList = before ++ (options.spelling key).toList ++ after := by
        rw [split, List.append_assoc]
      rw [Cursor.atWordEdge_between split, Cursor.atWordEdge_between ends]
      exact edges (bare.1 word)
    · cases guard : options.preventAssignment with
      | false => rfl
      | true =>
        have free := unassigned guard
        rw [behind, ← startsAssignment_iff] at free
        simpa using free

end KeySubst

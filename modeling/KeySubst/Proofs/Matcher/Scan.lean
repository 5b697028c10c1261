import KeySubst.Proofs.Matcher.Compiled
import KeySubst.Proofs.Matcher.Places

/-!
# What a scan finds

A scan falls back to keys of lower rank and starts again behind what it refuses.
`choose?_eq_firstOf?` shows that falling back comes to asking all keys at once for the first that is
accepted, and `scan_leftmost` that the scan gives the matches of the text.
-/

namespace KeySubst

open Text (Cursor byteSize)

namespace Pattern

variable {p : Pattern} {before rest : List Char}

theorem search?_go_eq (p : Pattern) (before rest : List Char) :
    search?.go p before.getLast? (byteSize before) rest =
      match p.hitAt? (.between before rest) with
      | some hit => some hit
      | none =>
        match rest with
        | [] => none
        | d :: rest => p.search? (.between (before ++ [d]) rest) := by
  unfold search?.go
  change (match p.hitAt? (.between before rest) with | some hit => _ | none => _) = _
  cases p.hitAt? (.between before rest) with
  | some hit => rfl
  | none =>
    cases rest with
    | nil => rfl
    | cons d rest => simp [search?, Cursor.between]

theorem search?_between (p : Pattern) (before rest : List Char) :
    p.search? (.between before rest) =
      match p.hitAt? (.between before rest) with
      | some hit => some hit
      | none =>
        match rest with
        | [] => none
        | d :: rest => p.search? (.between (before ++ [d]) rest) :=
  search?_go_eq p before rest

theorem hitAt?_of_search?_none (nothing : p.search? (.between before rest) = none)
    {mid after : List Char} (split : rest = mid ++ after) :
    p.hitAt? (.between (before ++ mid) after) = none := by
  induction mid generalizing before rest with
  | nil =>
    obtain rfl := split
    rw [search?_between] at nothing
    rw [List.append_nil]
    split at nothing
    · cases nothing
    · assumption
  | cons d mid ih =>
    obtain rfl := split
    rw [List.cons_append, search?_between] at nothing
    split at nothing
    · cases nothing
    · have := ih nothing rfl
      rwa [List.append_assoc] at this

theorem hitAt?_of_search?_some {hit : Hit} (found : p.search? (.between before rest) = some hit) :
    ∃ mid after, rest = mid ++ after ∧ p.hitAt? (.between (before ++ mid) after) = some hit ∧
      ∀ mid' after', rest = mid' ++ after' → byteSize mid' < byteSize mid →
        p.hitAt? (.between (before ++ mid') after') = none := by
  induction rest generalizing before with
  | nil =>
    rw [search?_between] at found
    split at found
    · rename_i same
      exact ⟨[], [], rfl, by rw [List.append_nil, same, found], by simp⟩
    · cases found
  | cons d rest ih =>
    rw [search?_between] at found
    split at found
    · rename_i same
      exact ⟨[], d :: rest, rfl, by rw [List.append_nil, same, found], by simp⟩
    · rename_i nothing
      obtain ⟨mid, after, rfl, stands, absent⟩ := ih found
      refine ⟨d :: mid, after, rfl, by simpa using stands, ?_⟩
      intro mid' after' split small
      cases mid' with
      | nil =>
        rw [List.nil_append] at split
        rw [List.append_nil, ← split]
        exact nothing
      | cons e mid' =>
        simp only [List.cons_append, List.cons.injEq] at split
        obtain ⟨rfl, split⟩ := split
        have := absent mid' after' split (by simpa using small)
        rwa [List.append_assoc] at this

theorem key_mem_of_hitAt? {c : Cursor} {hit : Hit} (stands : p.hitAt? c = some hit) :
    hit.key ∈ p.keys := by
  rw [hitAt?_eq] at stands
  obtain ⟨key, member, taken⟩ := List.exists_of_findSome?_eq_some stands
  obtain ⟨stop, -, rfl⟩ := Option.map_eq_some_iff.1 taken
  exact member

theorem stands_of_search? {hit : Hit} (searched : p.search? (.between before rest) = some hit) :
    ∃ mid after, rest = mid ++ (p.frame.spelling hit.key.toList ++ after) ∧ hit.key ∈ p.keys ∧
      hit.start = .between (before ++ mid) (p.frame.spelling hit.key.toList ++ after) ∧
      hit.stop = .between (before ++ mid ++ p.frame.spelling hit.key.toList) after := by
  obtain ⟨mid, _, rfl, stands, -⟩ := hitAt?_of_search?_some searched
  obtain ⟨start, stops⟩ := hitAt?_start stands
  obtain ⟨after, rfl, stop, -⟩ := Frame.stop?_between_iff.1 stops
  exact ⟨mid, after, rfl, key_mem_of_hitAt? stands, start, stop⟩

end Pattern

namespace Matcher

variable {σ : Type} {m : Matcher σ} {table : Table σ} {options : MatchOptions}

/-! ### Falling back -/

theorem firstOf?_spell (f : Frame) (keys : List String) (may : Cursor → Bool) (c : Cursor) :
    f.firstOf? (spell keys) may c =
      keys.findSome? fun key => ((f.stop? key.toList c).filter may).map (⟨c, key, ·⟩) := by
  rw [Frame.firstOf?_eq, spell, List.findSome?_map]
  rfl

theorem choose?_eq_firstOf? (made : m.MadeFrom table options) {c : Cursor} {hit : Hit} {rank : Nat}
    (stands : m.pattern.hitAt? c = some hit) (ranked : m.rank[hit.key]? = some rank) :
    m.choose? hit rank = m.pattern.frame.firstOf? (spell m.keys) m.accepts c := by
  rw [Pattern.hitAt?_eq, List.findSome?_eq_some_iff] at stands
  obtain ⟨front, key, back, split, stands, absent⟩ := stands
  obtain ⟨stop, stops, rfl⟩ := Option.map_eq_some_iff.1 stands
  simp only [Option.map_eq_none_iff] at absent
  have keys : m.keys = front ++ key :: back := split
  have place : rank = front.length := by
    have stored := (made.rank_eq_some_iff key rank).1 ranked
    have own : m.keys[front.length]? = some key := by
      rw [keys, List.getElem?_append_right (Nat.le_refl _)]
      simp
    have small : rank < m.keys.length := (List.getElem?_eq_some_iff.1 stored).1
    exact (List.getElem?_inj small made.keys_nodup).1 (stored.trans own.symm)
  have behind : m.pattern.spelled.drop (rank + 1) = spell back := by
    rw [m.pattern.spelled_eq, spell, ← List.map_drop, split, place, List.drop_append]
    simp [spell]
  have unaccepted : front.findSome? (fun key =>
      ((m.pattern.frame.stop? key.toList c).filter m.accepts).map fun stop => Hit.mk c key stop) =
        none := by
    rw [List.findSome?_eq_none_iff]
    intro key member
    rw [absent key member]
    rfl
  unfold choose?
  rw [behind, firstOf?_spell, firstOf?_spell, keys, List.findSome?_append, unaccepted,
    Option.none_or, List.findSome?_cons, stops]
  cases accepted : m.accepts stop with
  | true => simp [Option.filter, accepted]
  | false => simp [Option.filter, accepted]

theorem accepts_iff (made : m.MadeFrom table options) {text key : String} {before rest : List Char}
    (split : text.toList = before ++ rest) {d : Cursor} :
    ((m.pattern.frame.stop? key.toList (.between before rest)).filter m.accepts) = some d ↔
      ∃ after, rest = (options.spelling key).toList ++ after ∧
        d = .between (before ++ (options.spelling key).toList) after ∧
        Acceptable options text ⟨byteSize before, d.offset, key⟩ := by
  rw [← stop?_accepts_iff split, made.frame_eq, ← made.guard_eq]
  rfl

theorem accepts_of_acceptable (made : m.MadeFrom table options) {text : String}
    {before rest : List Char} (split : text.toList = before ++ rest) {found : Match}
    (acceptable : Acceptable options text found) (start : found.start = byteSize before) :
    (m.pattern.frame.stop? found.key.toList (.between before rest)).filter m.accepts ≠ none := by
  obtain ⟨after, behind, stop⟩ := acceptable.begins split start
  obtain ⟨start', stop', key⟩ := found
  dsimp only at start stop behind ⊢
  subst start stop
  rw [(accepts_iff made split).2 ⟨after, behind, rfl, acceptable⟩]
  exact Option.some_ne_none _

theorem firstOf?_eq_none_iff (made : m.MadeFrom table options) {text : String}
    {before rest : List Char} (split : text.toList = before ++ rest) :
    m.pattern.frame.firstOf? (spell m.keys) m.accepts (.between before rest) = none ↔
      ∀ found : Match, found.key ∈ m.keys → Acceptable options text found →
        found.start ≠ byteSize before := by
  rw [firstOf?_spell, List.findSome?_eq_none_iff]
  simp only [Option.map_eq_none_iff]
  constructor
  · intro absent found known acceptable start
    exact accepts_of_acceptable made split acceptable start (absent found.key known)
  · intro absent key known
    rw [Option.eq_none_iff_forall_ne_some]
    intro stop stands
    obtain ⟨after, -, rfl, acceptable⟩ := (accepts_iff made split).1 stands
    exact absent _ known acceptable rfl

theorem firstOf?_eq_some (made : m.MadeFrom table options) {text : String}
    {before rest : List Char} (split : text.toList = before ++ rest) {hit : Hit}
    (chosen : m.pattern.frame.firstOf? (spell m.keys) m.accepts (.between before rest) =
      some hit) :
    ∃ after, rest = (options.spelling hit.key).toList ++ after ∧
      hit.stop = .between (before ++ (options.spelling hit.key).toList) after ∧
      hit.key ∈ m.keys ∧
      Acceptable options text ⟨byteSize before, hit.stop.offset, hit.key⟩ ∧
      ∀ other : Match, other.key ∈ m.keys → Acceptable options text other →
        other.start = byteSize before → other.key.utf8ByteSize ≤ hit.key.utf8ByteSize := by
  rw [firstOf?_spell, List.findSome?_eq_some_iff] at chosen
  obtain ⟨front, key, back, keys, taken, absent⟩ := chosen
  obtain ⟨stop, stands, rfl⟩ := Option.map_eq_some_iff.1 taken
  obtain ⟨after, behind, same, acceptable⟩ := (accepts_iff made split).1 stands
  refine ⟨after, behind, same, by rw [keys]; simp, acceptable, ?_⟩
  intro other known standing start
  have sorted := made.keys_sorted
  rw [keys] at known sorted
  rcases List.mem_append.1 known with preferred | member
  · -- a key that is preferred to the chosen one would have been chosen itself
    have none := Option.map_eq_none_iff.1 (absent other.key preferred)
    exact absurd none (accepts_of_acceptable made split standing start)
  · rcases List.mem_cons.1 member with same | member
    · exact Nat.le_of_eq (congrArg String.utf8ByteSize same)
    · exact (List.pairwise_cons.1 (List.pairwise_append.1 sorted).2.1).1 other.key member

/-! ### Rounds -/

theorem firstOf?_of_hitAt?_none {c : Cursor} (nothing : m.pattern.hitAt? c = none) :
    m.pattern.frame.firstOf? (spell m.keys) m.accepts c = none := by
  rw [Pattern.hitAt?_eq, List.findSome?_eq_none_iff] at nothing
  rw [firstOf?_spell, List.findSome?_eq_none_iff]
  intro key member
  rw [Option.map_eq_none_iff.1 (nothing key member)]
  rfl

theorem absent_of_search?_none (made : m.MadeFrom table options) {text : String}
    {before rest : List Char} (split : text.toList = before ++ rest)
    (nothing : m.pattern.search? (.between before rest) = none) {found : Match}
    (known : found.key ∈ m.keys) (acceptable : Acceptable options text found) :
    found.start < byteSize before := by
  apply Nat.lt_of_not_le
  intro ahead
  obtain ⟨mid, after, rfl, start⟩ := acceptable.starts split ahead
  have nowhere := firstOf?_of_hitAt?_none (Pattern.hitAt?_of_search?_none nothing rfl)
  rw [← List.append_assoc] at split
  exact (firstOf?_eq_none_iff made split).1 nowhere found known acceptable start

theorem absent_of_search?_some (made : m.MadeFrom table options) {text : String}
    {before mid after : List Char} (split : text.toList = before ++ (mid ++ after))
    (nothing : ∀ mid' after', mid ++ after = mid' ++ after' → byteSize mid' < byteSize mid →
      m.pattern.hitAt? (.between (before ++ mid') after') = none) {found : Match}
    (known : found.key ∈ m.keys) (acceptable : Acceptable options text found)
    (ahead : byteSize before ≤ found.start) : byteSize (before ++ mid) ≤ found.start := by
  apply Nat.le_of_not_lt
  intro early
  obtain ⟨mid', after', same, start⟩ := acceptable.starts split ahead
  rw [start, Text.byteSize_append, Text.byteSize_append] at early
  have nowhere := firstOf?_of_hitAt?_none (nothing mid' after' same (by omega))
  rw [same, ← List.append_assoc] at split
  exact (firstOf?_eq_none_iff made split).1 nowhere found known acceptable start

/-- A round ends the scan where no key is acceptable from there on, it passes a place before and at
which none is, or it takes the foremost key and goes on behind it. -/
theorem round?_between (made : m.MadeFrom table options) {text : String} {before rest : List Char}
    (split : text.toList = before ++ rest) :
    (m.round? (.between before rest) = none ∧
      ∀ found : Match, found.key ∈ m.keys → Acceptable options text found →
        found.start < byteSize before) ∨
    (∃ mid after, rest = mid ++ after ∧
      m.round? (.between before rest) =
        some ⟨none, (Cursor.between (before ++ mid) after).next?⟩ ∧
      ∀ found : Match, found.key ∈ m.keys → Acceptable options text found →
        byteSize before ≤ found.start → byteSize (before ++ mid) < found.start) ∨
    (∃ found passed after, rest = passed ++ after ∧ passed ≠ [] ∧
      found.stop = byteSize (before ++ passed) ∧
      m.round? (.between before rest) =
        some ⟨some found, some (.between (before ++ passed) after)⟩ ∧
      Foremost options m.keys text (byteSize before) found) := by
  unfold round?
  cases search : m.pattern.search? (.between before rest) with
  | none =>
    exact .inl ⟨rfl, fun found known acceptable =>
      absent_of_search?_none made split search known acceptable⟩
  | some hit =>
    obtain ⟨mid, after, rfl, stands, nothing⟩ := Pattern.hitAt?_of_search?_some search
    obtain ⟨here, -⟩ := Pattern.hitAt?_start stands
    have absent : ∀ found : Match, found.key ∈ m.keys → Acceptable options text found →
        byteSize before ≤ found.start → byteSize (before ++ mid) ≤ found.start :=
      fun found known acceptable ahead =>
        absent_of_search?_some made split nothing known acceptable ahead
    have split' : text.toList = before ++ mid ++ after := by rw [split, List.append_assoc]
    obtain ⟨rank, ranked, -⟩ := made.exists_rank (Pattern.key_mem_of_hitAt? stands)
    simp only [ranked, choose?_eq_firstOf? made stands ranked]
    cases choice : m.pattern.frame.firstOf? (spell m.keys) m.accepts
        (.between (before ++ mid) after) with
    | none =>
      refine .inr (.inl ⟨mid, after, rfl, by rw [here], ?_⟩)
      intro found known acceptable ahead
      have := (firstOf?_eq_none_iff made split').1 choice found known acceptable
      have := absent found known acceptable ahead
      omega
    | some chosen =>
      obtain ⟨after', rfl, stop, known, acceptable, longest⟩ := firstOf?_eq_some made split' choice
      have moved : byteSize (before ++ mid) < chosen.stop.offset :=
        acceptable.start_lt_stop (made.keys_nonempty _ known)
      have size : byteSize (options.spelling chosen.key).toList ≠ 0 := by
        rw [stop, Cursor.between_offset, Text.byteSize_append (before ++ mid)] at moved
        omega
      refine .inr (.inr ⟨⟨byteSize (before ++ mid), chosen.stop.offset, chosen.key⟩,
        mid ++ (options.spelling chosen.key).toList, after', by simp, ?_, ?_, ?_,
        ⟨known, acceptable, ?_, ?_, longest⟩⟩)
      · intro empty
        rw [(List.append_eq_nil_iff.1 empty).2] at size
        exact size rfl
      · rw [stop, Cursor.between_offset, List.append_assoc]
      · simp only [here, Cursor.between_offset]
        rw [if_pos moved, stop, List.append_assoc]
      · simp only [Text.byteSize_append]
        omega
      · exact absent

theorem scan_eq (m : Matcher σ) (c : Cursor) :
    m.scan c =
      match m.round? c with
      | none => []
      | some ⟨found, none⟩ => found.toList
      | some ⟨found, some next⟩ => found.toList ++ m.scan next := by
  rw [scan]
  split
  · rename_i ended
    rw [ended]
  · rename_i last
    rw [last]
  · rename_i more
    rw [more]

theorem scan_leftmost (made : m.MadeFrom table options) {text : String} {before rest : List Char}
    (split : text.toList = before ++ rest) :
    Leftmost options m.keys text (byteSize before) (m.scan (.between before rest)) := by
  induction size : rest.length using Nat.strongRecOn generalizing before rest with
  | ind n ih =>
    subst size
    rw [scan_eq]
    rcases round?_between made split with ⟨ends, absent⟩ | ⟨mid, after, rfl, passes, absent⟩ |
      ⟨found, passed, after, rfl, nonempty, stop, takes, foremost⟩
    · rw [ends]
      exact .done absent
    · rw [passes]
      cases after with
      | nil =>
        rw [Cursor.next?_between_nil]
        apply Leftmost.done
        intro found known acceptable
        apply Nat.lt_of_not_le
        intro ahead
        obtain ⟨mid', after', same, start⟩ := acceptable.starts split ahead
        have := absent found known acceptable ahead
        have := congrArg byteSize same
        simp only [Text.byteSize_append, Text.byteSize_nil] at *
        omega
      | cons d after =>
        rw [Cursor.next?_between_cons]
        have split' : text.toList = before ++ mid ++ d :: after := by rw [split, List.append_assoc]
        have later : Leftmost options m.keys text (byteSize (before ++ mid ++ [d]))
            (m.scan (.between (before ++ mid ++ [d]) after)) :=
          ih after.length (by simp only [List.length_append, List.length_cons]; omega)
            (by rw [split']; simp) rfl
        apply later.earlier (by simp only [Text.byteSize_append]; omega)
        intro found known acceptable ahead
        have beyond := absent found known acceptable ahead
        obtain ⟨mid', after', same, start⟩ := acceptable.starts split' (Nat.le_of_lt beyond)
        cases mid' with
        | nil =>
          rw [start, List.append_nil] at beyond
          exact absurd beyond (Nat.lt_irrefl _)
        | cons e mid' =>
          rw [List.cons_append, List.cons.injEq] at same
          rw [start, ← same.1]
          simp only [Text.byteSize_append, Text.byteSize_cons, Text.byteSize_nil]
          omega
    · rw [takes]
      apply Leftmost.found foremost
      rw [stop]
      exact ih after.length (by
        have := List.length_pos_iff.2 nonempty
        rw [List.length_append]
        omega) (by rw [split, List.append_assoc]) rfl

theorem find_leftmost (made : m.MadeFrom table options) (text : String) :
    Leftmost options table.keys text 0 (m.find text) := by
  have scanned : Leftmost options table.keys text 0 (m.scan (Cursor.start text.toList)) :=
    (scan_leftmost made (List.nil_append _).symm).congr fun _ => made.keys_perm.mem_iff
  unfold find
  split
  · rename_i empty
    apply Leftmost.done
    intro found known
    rw [← made.keys_perm.mem_iff, List.isEmpty_iff.1 empty] at known
    cases known
  · exact scanned

theorem find_spelling (made : m.MadeFrom table options) {key : String} (known : key ∈ table.keys)
    (acceptable : Acceptable options (options.spelling key)
      ⟨0, (options.spelling key).utf8ByteSize, key⟩) :
    m.find (options.spelling key) = [⟨0, (options.spelling key).utf8ByteSize, key⟩] :=
  (find_leftmost made _).unique (.of_spelling
    (fun key member => made.keys_nonempty key (made.keys_perm.mem_iff.2 member)) known acceptable)

/-- From every table without an empty key a matcher can be made, and what it finds in a text is the
one list of matches that the keys have there: at each step the longest acceptable key of those that
start first. Every acceptable key of the text starts within one of them. -/
theorem find_iff_leftmost (table : Table σ) (options : MatchOptions)
    (nonempty : ∀ key ∈ table.keys, key ≠ "") :
    ∃ m, compile table options = .ok m ∧ ∀ text : String,
      (∀ all, m.find text = all ↔ Leftmost options table.keys text 0 all) ∧
      ∀ other : Match, other.key ∈ table.keys → Acceptable options text other →
        ∃ found ∈ m.find text, found.start ≤ other.start ∧ other.start < found.stop := by
  obtain ⟨m, compiled⟩ := exists_compile nonempty options
  refine ⟨m, compiled, fun text => ?_⟩
  have leftmost := find_leftmost (madeFrom_of_compile compiled) text
  refine ⟨fun all => ⟨?_, leftmost.unique⟩, fun other known acceptable => ?_⟩
  · rintro rfl
    exact leftmost
  · exact leftmost.covers known acceptable (Nat.zero_le _)

theorem find_iff_leftmost_longest :
    (∀ key ∈ ["process.env", "process.env.FOO"], key ≠ "") ∧
      ∃ m : Matcher Unit,
        compile (.ofList [("process.env", .ofString "1"), ("process.env.FOO", .ofString "2")])
          ⟨none, true⟩ = .ok m ∧
        m.find "process.env.FOO" = [⟨0, 15, "process.env.FOO"⟩] := by
  have keys : (Table.ofList (σ := Unit)
      [("process.env", .ofString "1"), ("process.env.FOO", .ofString "2")]).keys =
        ["process.env", "process.env.FOO"] := Table.keys_ofList (by decide)
  have nonempty : ∀ key ∈ ["process.env", "process.env.FOO"], key ≠ "" := by decide
  obtain ⟨m, compiled, found⟩ := find_iff_leftmost
    (Table.ofList (σ := Unit) [("process.env", .ofString "1"), ("process.env.FOO", .ofString "2")])
    ⟨none, true⟩ (by rw [keys]; exact nonempty)
  refine ⟨nonempty, m, compiled, ((found _).1 _).2 ?_⟩
  rw [keys]
  have acceptable : Acceptable ⟨none, true⟩ "process.env.FOO" ⟨0, 15, "process.env.FOO"⟩ := by
    refine ⟨"", "", by decide, by decide, by decide, fun _ => by decide +kernel, ?_⟩
    rintro - ⟨blanks, c, rest, empty, -⟩
    simp at empty
  exact .of_spelling nonempty (by decide) acceptable

end Matcher

end KeySubst

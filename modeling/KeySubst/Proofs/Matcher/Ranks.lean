import KeySubst.Proofs.Matcher.Rounds

/-!
# Ranks of keys

The keys of a matcher, their ranks and the index of its table agree (`ranks_of_compile`), so
whatever a search ends at has its rank and its replacement.
-/

namespace KeySubst.Matcher

open Text (Cursor)

variable {σ : Type} {m : Matcher σ} {table : Table σ} {options : MatchOptions} {text : String}

structure Ranks (m : Matcher σ) (table : Table σ) (options : MatchOptions) : Prop extends
    m.MadeFrom table options where
  stable (size : Nat) : m.keys.filter (fun key => key.utf8ByteSize == size) =
    table.keys.filter fun key => key.utf8ByteSize == size
  later (key rest : String) (proper : rest ≠ "") (i j : Nat)
    (longer : m.rank[key ++ rest]? = some i) (shorter : m.rank[key]? = some j) : i < j
  replaced_iff (key : String) :
    (∃ r, m.replacement? key = some r) ↔ ∃ rank, m.rank[key]? = some rank

structure Knows (m : Matcher σ) (options : MatchOptions) (text : String) (hit : Hit) : Prop where
  stands : ∃ before after, text = before ++ options.spelling hit.key ++ after ∧
    hit.start.offset = before.utf8ByteSize ∧
    hit.stop.offset = hit.start.offset + (options.spelling hit.key).utf8ByteSize
  ranked : ∃ rank, m.rank[hit.key]? = some rank ∧ m.keys[rank]? = some hit.key
  replaced : ∃ r, m.replacement? hit.key = some r

/-- A scan from a place on that goes on with every hit, and ends when a search finds nothing. -/
inductive Exhausts (m : Matcher σ) (options : MatchOptions) (text : String) :
    Cursor → List Match → Prop
  | ended {c : Cursor} (nothing : m.pattern.search? c = none) : Exhausts m options text c []
  | round {c d : Cursor} {hit : Hit} {found : Option Match} {others : List Match}
      (searched : m.pattern.search? c = some hit) (known : m.Knows options text hit)
      (made : m.round? c = some ⟨found, some d⟩) (rest : Exhausts m options text d others) :
      Exhausts m options text c (found.toList ++ others)

theorem MadeFrom.lt_of_size_lt (made : m.MadeFrom table options) {a b : String} {i j : Nat}
    (left : m.keys[i]? = some a) (right : m.keys[j]? = some b)
    (less : b.utf8ByteSize < a.utf8ByteSize) : i < j := by
  obtain ⟨hi, rfl⟩ := List.getElem?_eq_some_iff.1 left
  obtain ⟨hj, rfl⟩ := List.getElem?_eq_some_iff.1 right
  apply Nat.lt_of_not_le
  intro le
  rcases Nat.eq_or_lt_of_le le with rfl | before
  · exact Nat.lt_irrefl _ less
  · have := List.pairwise_iff_getElem.1 made.keys_sorted j i hj hi before
    omega

theorem ranks_of_compile (compiled : compile table options = .ok m) : m.Ranks table options := by
  have made := madeFrom_of_compile compiled
  refine { made with
    stable := fun size => ?_
    later := fun key rest proper i j longer shorter => ?_
    replaced_iff := fun key => ?_ }
  · rw [keys_of_compile compiled]
    exact longestFirst_stable table.keys size
  · apply made.lt_of_size_lt ((made.rank_eq_some_iff _ i).1 longer)
      ((made.rank_eq_some_iff _ j).1 shorter)
    have : rest.utf8ByteSize ≠ 0 := fun zero => proper (String.utf8ByteSize_eq_zero_iff.1 zero)
    rw [String.utf8ByteSize_append]
    omega
  · simp only [made.rank_eq_some_iff, ← List.mem_iff_getElem?, made.keys_perm.mem_iff, replacement?,
      made.table_eq]
    constructor
    · rintro ⟨r, found⟩
      exact List.mem_map_of_mem (f := Entry.key) (Table.get?_eq_some_iff.1 found)
    · exact Table.exists_get?_of_mem_keys

theorem knows_of_search? (ranks : m.Ranks table options) {before rest : List Char}
    (split : text.toList = before ++ rest) {hit : Hit}
    (searched : m.pattern.search? (.between before rest) = some hit) :
    m.Knows options text hit := by
  obtain ⟨mid, after, rfl, member, start, stop⟩ := Pattern.stands_of_search? searched
  obtain ⟨rank, ranked, stored⟩ := ranks.exists_rank member
  rw [ranks.frame_eq, ← options.toList_spelling] at split stop
  refine ⟨⟨String.ofList (before ++ mid), String.ofList after, ?_, ?_, ?_⟩, ⟨rank, ranked, stored⟩,
    (ranks.replaced_iff hit.key).2 ⟨rank, ranked⟩⟩
  · rw [← String.toList_inj, split]
    simp
  · rw [start, Cursor.between_offset, Text.utf8ByteSize_ofList]
  · rw [stop, start, Cursor.between_offset, Cursor.between_offset, Text.byteSize_append _
      (options.spelling hit.key).toList, Text.byteSize_toList]

theorem next?_of_search? (made : m.MadeFrom table options) {before rest : List Char} {hit : Hit}
    (searched : m.pattern.search? (.between before rest) = some hit) :
    ∃ d, hit.start.next? = some d := by
  obtain ⟨mid, after, rfl, member, start, -⟩ := Pattern.stands_of_search? searched
  have nonempty : hit.key.toList ≠ [] :=
    mt String.toList_eq_nil_iff.1 (made.keys_nonempty _ member)
  obtain ⟨c, others, spells⟩ :=
    List.exists_cons_of_ne_nil (m.pattern.frame.spelling_ne_nil nonempty)
  rw [start, spells]
  exact ⟨_, Cursor.next?_between_cons _ _ _⟩

theorem round?_of_search? (ranks : m.Ranks table options) {before rest : List Char}
    (split : text.toList = before ++ rest) {hit : Hit}
    (searched : m.pattern.search? (.between before rest) = some hit) :
    ∃ found d, m.round? (.between before rest) = some ⟨found, some d⟩ := by
  obtain ⟨rank, ranked, -⟩ := (knows_of_search? ranks split searched).ranked
  obtain ⟨next, follows⟩ := next?_of_search? ranks.toMadeFrom searched
  unfold round?
  simp only [searched, ranked, follows]
  split
  · exact ⟨none, next, rfl⟩
  · rename_i chosen _
    by_cases moved : hit.start.offset < chosen.stop.offset
    · exact ⟨_, chosen.stop, by rw [if_pos moved]⟩
    · exact ⟨_, next, by rw [if_neg moved]⟩

theorem scan_exhausts (ranks : m.Ranks table options) {before rest : List Char}
    (split : text.toList = before ++ rest) :
    m.Exhausts options text (.between before rest) (m.scan (.between before rest)) := by
  -- A round that goes on leaves less of the text.
  induction size : rest.length using Nat.strongRecOn generalizing before rest with
  | ind n ih =>
    subst size
    rw [scan_eq]
    cases searched : m.pattern.search? (.between before rest) with
    | none =>
      have ends : m.round? (.between before rest) = none := by rw [round?, searched]
      rw [ends]
      exact .ended searched
    | some hit =>
      obtain ⟨found, d, went⟩ := round?_of_search? ranks split searched
      obtain ⟨passed, after, rfl, -, rfl⟩ := round?_next ranks.toMadeFrom split went
      rw [went]
      exact .round searched (knows_of_search? ranks split searched) went
        (ih after.length (round?_shorter went) (by rw [split, List.append_assoc]) rfl)

theorem find_exhausts (ranks : m.Ranks table options) (text : String) :
    m.Exhausts options text (.start text.toList) (m.find text) := by
  unfold find
  split
  · rename_i empty
    cases searched : m.pattern.search? (.start text.toList) with
    | none => exact .ended searched
    | some hit =>
      obtain ⟨rank, -, stored⟩ := (knows_of_search? ranks (List.nil_append _).symm searched).ranked
      rw [List.isEmpty_iff.1 empty] at stored
      cases stored
  · exact scan_exhausts ranks (List.nil_append _).symm

end KeySubst.Matcher

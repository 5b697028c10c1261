import KeySubst.Matcher.Basic
import KeySubst.Proofs.Table.Lookup

/-!
# Compiled matchers

The rank of a key is its place among the keys, longer ones before shorter ones.
-/

namespace KeySubst.Matcher

variable {σ : Type}

structure MadeFrom (m : Matcher σ) (table : Table σ) (options : MatchOptions) : Prop where
  table_eq : m.table = table
  frame_eq : m.pattern.frame = options.frame
  guard_eq : m.preventAssignment = options.preventAssignment
  keys_perm : m.keys.Perm table.keys
  keys_sorted : m.keys.Pairwise fun a b => b.utf8ByteSize ≤ a.utf8ByteSize
  keys_nonempty : ∀ key ∈ m.keys, key ≠ ""
  rank_eq_some_iff (key : String) (i : Nat) : m.rank[key]? = some i ↔ m.keys[i]? = some key

theorem size_trans (a b c : String) (left : decide (b.utf8ByteSize ≤ a.utf8ByteSize) = true)
    (right : decide (c.utf8ByteSize ≤ b.utf8ByteSize) = true) :
    decide (c.utf8ByteSize ≤ a.utf8ByteSize) = true := by
  simp only [decide_eq_true_eq] at *
  omega

theorem size_total (a b : String) :
    (decide (b.utf8ByteSize ≤ a.utf8ByteSize) || decide (a.utf8ByteSize ≤ b.utf8ByteSize)) =
      true := by
  simp only [Bool.or_eq_true, decide_eq_true_eq]
  omega

theorem longestFirst_sorted (keys : List String) :
    (Pattern.longestFirst keys).Pairwise fun a b => b.utf8ByteSize ≤ a.utf8ByteSize := by
  have sorted : (Pattern.longestFirst keys).Pairwise fun a b =>
      decide (b.utf8ByteSize ≤ a.utf8ByteSize) = true :=
    List.pairwise_mergeSort size_trans size_total keys
  exact sorted.imp fun le => by simpa using le

theorem longestFirst_stable (keys : List String) (size : Nat) :
    (Pattern.longestFirst keys).filter (fun key => key.utf8ByteSize == size) =
      keys.filter fun key => key.utf8ByteSize == size := by
  -- They are in order as they stand, so the list of them lies in the sorted one.
  have level : (keys.filter fun key => key.utf8ByteSize == size).Pairwise fun a b =>
      decide (b.utf8ByteSize ≤ a.utf8ByteSize) = true := by
    refine List.pairwise_of_forall_mem_list fun a left b right => ?_
    have := (List.mem_filter.1 left).2
    have := (List.mem_filter.1 right).2
    simp only [beq_iff_eq, decide_eq_true_eq] at *
    omega
  have inside : (keys.filter fun key => key.utf8ByteSize == size).Sublist
      (Pattern.longestFirst keys) :=
    List.sublist_mergeSort size_trans size_total level List.filter_sublist
  have kept := inside.filter fun key => key.utf8ByteSize == size
  simp only [List.filter_filter, Bool.and_self] at kept
  have perm : (Pattern.longestFirst keys).Perm keys := List.mergeSort_perm _ _
  exact (kept.eq_of_length (perm.filter _).length_eq.symm).symm

theorem rank_ofList {keys : List String} (distinct : keys.Nodup) (key : String) (i : Nat) :
    (Std.HashMap.ofList keys.zipIdx)[key]? = some i ↔ keys[i]? = some key := by
  have apart : keys.zipIdx.Pairwise fun a b => (a.1 == b.1) = false := by
    rw [← List.zipIdx_map_fst 0 keys] at distinct
    exact (List.pairwise_map.1 distinct).imp fun ne => by simpa using ne
  constructor
  · intro ranked
    by_cases member : key ∈ keys
    · obtain ⟨j, stored⟩ := List.mem_iff_getElem?.1 member
      rw [Std.HashMap.getElem?_ofList_of_mem BEq.rfl apart
        (List.mem_zipIdx_iff_getElem?.2 stored : (key, j) ∈ keys.zipIdx)] at ranked
      rwa [← Option.some.inj ranked]
    · rw [Std.HashMap.getElem?_ofList_of_contains_eq_false (by simpa using member)] at ranked
      cases ranked
  · intro stored
    exact Std.HashMap.getElem?_ofList_of_mem BEq.rfl apart
      (List.mem_zipIdx_iff_getElem?.2 stored : (key, i) ∈ keys.zipIdx)

theorem compile_eq_error_iff {table : Table σ} {options : MatchOptions} {e : Error} :
    compile table options = .error e ↔ e = .emptyKey ∧ "" ∈ table.keys := by
  unfold compile
  by_cases empty : "" ∈ table.keys
  · rw [if_pos (List.any_eq_true.2 ⟨"", empty, rfl⟩)]
    simp [empty, eq_comm]
  · have none : table.keys.any String.isEmpty = false := by
      simpa using fun key member => by rintro rfl; exact empty member
    simp [none, empty]

theorem exists_compile {table : Table σ} (nonempty : ∀ key ∈ table.keys, key ≠ "")
    (options : MatchOptions) : ∃ m, compile table options = .ok m := by
  cases compiled : compile table options with
  | error e => exact absurd rfl (nonempty "" (compile_eq_error_iff.1 compiled).2)
  | ok m => exact ⟨m, rfl⟩

theorem keys_of_compile {table : Table σ} {options : MatchOptions} {m : Matcher σ}
    (compiled : compile table options = .ok m) : m.keys = Pattern.longestFirst table.keys := by
  unfold compile at compiled
  split at compiled
  · cases compiled
  · obtain rfl := Except.ok.inj compiled
    rfl

theorem madeFrom_of_compile {table : Table σ} {options : MatchOptions} {m : Matcher σ}
    (compiled : compile table options = .ok m) : m.MadeFrom table options := by
  unfold compile at compiled
  split at compiled
  · cases compiled
  · rename_i nonempty
    obtain rfl := Except.ok.inj compiled
    have perm : (Pattern.longestFirst table.keys).Perm table.keys := List.mergeSort_perm _ _
    exact {
      table_eq := rfl
      frame_eq := rfl
      guard_eq := rfl
      keys_perm := perm
      keys_sorted := longestFirst_sorted _
      keys_nonempty := fun key member => by
        simpa using fun empty => nonempty (List.any_eq_true.2 ⟨key, perm.mem_iff.1 member, empty⟩)
      rank_eq_some_iff := rank_ofList (perm.nodup_iff.2 table.keys_nodup) }

theorem MadeFrom.keys_nodup {m : Matcher σ} {table : Table σ} {options : MatchOptions}
    (made : m.MadeFrom table options) : m.keys.Nodup :=
  made.keys_perm.nodup_iff.2 table.keys_nodup

theorem MadeFrom.exists_rank {m : Matcher σ} {table : Table σ} {options : MatchOptions}
    (made : m.MadeFrom table options) {key : String} (member : key ∈ m.keys) :
    ∃ rank, m.rank[key]? = some rank ∧ m.keys[rank]? = some key := by
  obtain ⟨rank, stored⟩ := List.mem_iff_getElem?.1 member
  exact ⟨rank, (made.rank_eq_some_iff key rank).2 stored, stored⟩

end KeySubst.Matcher

import KeySubst.Options.Basic
import KeySubst.Proofs.Table.Layers
import Mathlib.Data.Finset.Card

/-!
# Histories of a table

Tables come to be by insertions into the empty one.
-/

namespace KeySubst.Table

variable {σ : Type}

/-- A table that some pairs were inserted into, in order: one by one, all at once, or as values of
options. -/
inductive Filled : Table σ → List (String × Replacement σ) → Prop
  | empty : Filled ∅ []
  | ofList (pairs : List (String × Replacement σ)) : Filled (.ofList pairs) pairs
  | insert {t : Table σ} {pairs : List (String × Replacement σ)} (filled : Filled t pairs)
      (key : String) (value : Replacement σ) :
      Filled (t.insert key value) (pairs ++ [(key, value)])
  | value {o : Options σ} {pairs : List (String × Replacement σ)} (filled : Filled o.values pairs)
      (key : String) (value : Replacement σ) :
      Filled (o.value key value).values (pairs ++ [(key, value)])

structure Records (t : Table σ) (pairs : List (String × Replacement σ)) : Prop where
  distinct : t.keys.Nodup
  keys_eq : t.keys = (pairs.map Prod.fst).eraseDups
  indexed : ∀ key, key ∈ t.index ↔ key ∈ pairs.map Prod.fst
  index_iff : ∀ key (i : Nat), t.index[key]? = some i ↔ t.keys[i]? = some key
  get?_iff : ∀ key value, t.get? key = some value ↔ Last pairs key value
  get?_none_iff : ∀ key, t.get? key = none ↔ key ∉ pairs.map Prod.fst
  size_eq : t.size = (pairs.map Prod.fst).toFinset.card

/-- What one insertion leaves alone: the values of other keys, and the place of every entry. -/
structure Inserts (t t' : Table σ) (key : String) (value : Replacement σ) : Prop where
  found : t'.get? key = some value
  others : ∀ other, other ≠ key → t'.get? other = t.get? other
  places : ∀ (i : Nat) (e : Entry σ), t.toList[i]? = some e →
    t'.toList[i]? = some (if e.key = key then ⟨key, value⟩ else e)

theorem getElem?_toList (t : Table σ) (i : Nat) : t.toList[i]? = t.entries[i]? :=
  Array.getElem?_toList

theorem getElem?_toList_insert {t : Table σ} {i : Nat} {e : Entry σ}
    (stored : t.toList[i]? = some e) (key : String) (value : Replacement σ) :
    (t.insert key value).toList[i]? = some (if e.key = key then ⟨key, value⟩ else e) := by
  rw [getElem?_toList] at stored ⊢
  have place : t.index[key]? = some i ↔ e.key = key := by
    rw [t.index_eq_some_iff, stored, Option.map_some, Option.some.injEq]
  unfold insert
  split
  · rename_i j known
    have same : j = i ↔ e.key = key := by rw [← place, known, Option.some.injEq]
    simp only [Array.getElem?_modify, stored, same, Option.map_some]
    split
    · rename_i equal
      rw [equal]
    · rfl
  · rename_i unknown
    have different : e.key ≠ key := by
      rw [Ne, ← place, unknown]
      exact nofun
    have inside : i ≠ t.entries.size := (Array.getElem?_eq_some_iff.1 stored).1.ne
    rw [if_neg different, Array.getElem?_push, if_neg inside, stored]

theorem inserts_insert (t : Table σ) (key : String) (value : Replacement σ) :
    t.Inserts (t.insert key value) key value :=
  ⟨get?_insert_self t key value, fun _ different => get?_insert_of_ne t different value,
    fun _ _ stored => getElem?_toList_insert stored key value⟩

theorem ofList_concat (pairs : List (String × Replacement σ)) (key : String)
    (value : Replacement σ) :
    ofList (pairs ++ [(key, value)]) = (ofList pairs).insert key value := by
  rw [ofList, ofList, insertAll, insertAll, List.foldl_append, List.foldl_cons, List.foldl_nil]

theorem Filled.eq_ofList {t : Table σ} {pairs : List (String × Replacement σ)}
    (filled : t.Filled pairs) : t = Table.ofList pairs := by
  induction filled with
  | empty => rfl
  | ofList => rfl
  | insert _ key value ih => rw [ofList_concat, ← ih]
  | value _ key value ih => rw [ofList_concat, ← ih]; rfl

theorem size_eq_length_keys (t : Table σ) : t.size = t.keys.length := by
  rw [keys, List.length_map, size, toList, Array.length_toList]

theorem mem_index_iff {t : Table σ} {key : String} : key ∈ t.index ↔ key ∈ t.keys := by
  rw [← contains_iff, contains, Std.HashMap.contains_iff_mem]

theorem records_ofList (pairs : List (String × Replacement σ)) : (ofList pairs).Records pairs := by
  have keys : (ofList pairs).keys = (pairs.map Prod.fst).eraseDups :=
    keys_insertAll (empty : Table σ) pairs
  have known : ∀ key, key ∈ (ofList pairs).keys ↔ key ∈ pairs.map Prod.fst := by
    intro key
    rw [keys, List.mem_eraseDups]
  have found : ∀ key value, (ofList pairs).get? key = some value ↔ Last pairs key value := by
    intro key value
    have unfound : (empty : Table σ).get? key = none := by simp [get?, empty]
    rw [ofList, get?_insertAll_iff, unfound]
    simp
  refine ⟨keys_nodup _, keys, fun key => mem_index_iff.trans (known key), fun key i =>
    index_eq_some_iff_keys _ key i, found, fun key => ?_, ?_⟩
  · rw [← Last.exists_iff, Option.eq_none_iff_forall_ne_some, not_exists]
    exact forall_congr' fun value => not_congr (found key value)
  · have same : (pairs.map Prod.fst).toFinset = (ofList pairs).keys.toFinset := by
      ext key
      rw [List.mem_toFinset, List.mem_toFinset, known]
    rw [same, List.toFinset_card_of_nodup (keys_nodup _), size_eq_length_keys]

/-- A table records the pairs that were inserted into it, and one more insertion moves no entry and
changes what is found for no other key. -/
theorem records_of_filled {t : Table σ} {pairs : List (String × Replacement σ)}
    (filled : t.Filled pairs) :
    t.Records pairs ∧ ∀ key value, t.Inserts (t.insert key value) key value := by
  refine ⟨?_, t.inserts_insert⟩
  rw [filled.eq_ofList]
  exact records_ofList pairs

theorem records_of_filled_again :
    ∃ t : Table Unit,
      t.Filled [("A", .ofString "1"), ("B", .ofString "2"), ("A", .ofString "3")] ∧
      t.keys = ["A", "B"] ∧ t.get? "A" = some (.ofString "3") ∧ t.index["B"]? = some 1 ∧
      t.get? "C" = none ∧ t.size = 2 := by
  let o : Options Unit := { values := .ofList [("A", .ofString "1"), ("B", .ofString "2")] }
  have filled : (o.value "A" (.ofString "3")).values.Filled
      [("A", .ofString "1"), ("B", .ofString "2"), ("A", .ofString "3")] :=
    .value (o := o) (.ofList [("A", .ofString "1"), ("B", .ofString "2")]) "A" (.ofString "3")
  obtain ⟨records, -⟩ := records_of_filled filled
  have keys : (o.value "A" (.ofString "3")).values.keys = ["A", "B"] := by
    rw [records.keys_eq]
    decide
  refine ⟨_, filled, keys, ?_, ?_, ?_, ?_⟩
  · exact (records.get?_iff _ _).2 (.later (.later (.here (by simp))))
  · rw [records.index_iff, keys]
    rfl
  · rw [records.get?_none_iff]
    decide
  · rw [records.size_eq]
    decide

end KeySubst.Table

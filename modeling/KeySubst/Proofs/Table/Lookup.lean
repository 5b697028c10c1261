import KeySubst.Table.Basic

namespace KeySubst.Table

variable {σ : Type}

theorem getElem?_keys (t : Table σ) (i : Nat) : t.keys[i]? = t.entries[i]?.map Entry.key := by
  rw [keys, toList, List.getElem?_map, Array.getElem?_toList]

theorem index_eq_some_iff_keys (t : Table σ) (key : String) (i : Nat) :
    t.index[key]? = some i ↔ t.keys[i]? = some key := by
  rw [getElem?_keys, t.index_eq_some_iff]

theorem keys_nodup (t : Table σ) : t.keys.Nodup := by
  apply List.pairwise_iff_getElem.2
  intro i j hi hj less same
  have left := (t.index_eq_some_iff_keys _ i).2 (List.getElem?_eq_getElem hi)
  have right := (t.index_eq_some_iff_keys _ j).2 (List.getElem?_eq_getElem hj)
  rw [same, right, Option.some.injEq] at left
  omega

theorem get?_eq_some_iff {t : Table σ} {key : String} {value : Replacement σ} :
    t.get? key = some value ↔ ⟨key, value⟩ ∈ t.toList := by
  rw [get?, toList, ← Array.mem_def, Array.mem_iff_getElem?]
  simp only [Option.bind_eq_some_iff, Option.map_eq_some_iff, t.index_eq_some_iff]
  constructor
  · rintro ⟨i, ⟨e, stored, rfl⟩, e', stored', rfl⟩
    rw [stored, Option.some.injEq] at stored'
    exact ⟨i, stored' ▸ stored⟩
  · rintro ⟨i, stored⟩
    exact ⟨i, ⟨_, stored, rfl⟩, _, stored, rfl⟩

theorem exists_get?_of_mem_keys {t : Table σ} {key : String} (member : key ∈ t.keys) :
    ∃ value, t.get? key = some value := by
  obtain ⟨e, stored, rfl⟩ := List.mem_map.1 member
  exact ⟨e.value, get?_eq_some_iff.2 stored⟩

theorem toList_insert {t : Table σ} {key : String} (absent : key ∉ t.keys)
    (value : Replacement σ) : (t.insert key value).toList = t.toList ++ [⟨key, value⟩] := by
  unfold insert
  split
  · rename_i i known
    exact absurd (List.mem_of_getElem? ((t.index_eq_some_iff_keys key i).1 known)) absent
  · exact Array.toList_push

theorem toList_insertAll {t : Table σ} {pairs : List (String × Replacement σ)}
    (distinct : (t.keys ++ pairs.map Prod.fst).Nodup) :
    (t.insertAll pairs).toList = t.toList ++ pairs.map fun (key, value) => ⟨key, value⟩ := by
  induction pairs generalizing t with
  | nil => simp [insertAll]
  | cons pair pairs ih =>
    obtain ⟨key, value⟩ := pair
    have absent : key ∉ t.keys := fun member =>
      (List.nodup_append.1 distinct).2.2 key member key List.mem_cons_self rfl
    have keys : (t.insert key value).keys = t.keys ++ [key] := by
      rw [Table.keys, toList_insert absent, List.map_append]
      rfl
    have later : ((t.insert key value).keys ++ pairs.map Prod.fst).Nodup := by
      rw [keys, List.append_assoc]
      exact distinct
    have rest := ih later
    rw [toList_insert absent, List.append_assoc] at rest
    exact rest

theorem toList_ofList {pairs : List (String × Replacement σ)}
    (distinct : (pairs.map Prod.fst).Nodup) :
    (ofList pairs).toList = pairs.map fun (key, value) => ⟨key, value⟩ :=
  toList_insertAll (by simpa [keys, toList, empty] using distinct)

theorem keys_ofList {pairs : List (String × Replacement σ)}
    (distinct : (pairs.map Prod.fst).Nodup) :
    (ofList pairs).keys = pairs.map Prod.fst := by
  rw [keys, toList_ofList distinct, List.map_map]
  rfl

theorem toList_ofList_singleton (key : String) (value : Replacement σ) :
    (ofList [(key, value)]).toList = [⟨key, value⟩] := toList_ofList (by simp)

theorem keys_ofList_singleton (key : String) (value : Replacement σ) :
    (ofList [(key, value)]).keys = [key] := keys_ofList (by simp)

theorem mem_keys_iff {t : Table σ} {key : String} :
    key ∈ t.keys ↔ ∃ i, t.index[key]? = some i := by
  simp only [List.mem_iff_getElem?, t.index_eq_some_iff_keys]

theorem contains_iff {t : Table σ} {key : String} : t.contains key = true ↔ key ∈ t.keys := by
  rw [contains, ← Std.HashMap.isSome_getElem?_eq_contains, Option.isSome_iff_exists, mem_keys_iff]

theorem keys_insert_of_mem {t : Table σ} {key : String} (member : key ∈ t.keys)
    (value : Replacement σ) : (t.insert key value).keys = t.keys := by
  obtain ⟨i, known⟩ := mem_keys_iff.1 member
  apply List.ext_getElem?
  intro j
  rw [getElem?_keys, getElem?_keys]
  unfold insert
  split
  · exact modify_key _ _ _ _
  · rename_i unknown
    rw [known] at unknown
    cases unknown

theorem keys_insert_of_not_mem {t : Table σ} {key : String} (absent : key ∉ t.keys)
    (value : Replacement σ) : (t.insert key value).keys = t.keys ++ [key] := by
  rw [keys, toList_insert absent, List.map_append]
  rfl

theorem get?_insert_self (t : Table σ) (key : String) (value : Replacement σ) :
    (t.insert key value).get? key = some value := by
  unfold insert
  split
  · rename_i i known
    obtain ⟨e, stored, -⟩ := Option.map_eq_some_iff.1 ((t.index_eq_some_iff key i).1 known)
    simp only [get?, known, Option.bind_some, Array.getElem?_modify, if_true, stored,
      Option.map_some]
  · simp [get?]

theorem get?_insert_of_ne (t : Table σ) {key other : String} (different : other ≠ key)
    (value : Replacement σ) : (t.insert key value).get? other = t.get? other := by
  unfold insert
  split
  · rename_i i known
    unfold get?
    cases place : t.index[other]? with
    | none => rfl
    | some j =>
      have elsewhere : i ≠ j := by
        rintro rfl
        have left := (t.index_eq_some_iff _ _).1 known
        have right := (t.index_eq_some_iff _ _).1 place
        exact different (Option.some.inj (right.symm.trans left))
      simp only [Option.bind_some, Array.getElem?_modify, if_neg elsewhere]
  · rename_i unknown
    unfold get?
    simp only [Std.HashMap.getElem?_insert, beq_iff_eq, if_neg different.symm]
    cases place : t.index[other]? with
    | none => rfl
    | some j =>
      have stored := (t.index_eq_some_iff _ _).1 place
      obtain ⟨e, inside, -⟩ := Option.map_eq_some_iff.1 stored
      have small : j ≠ t.entries.size := by
        rintro rfl
        simp at inside
      simp only [Option.bind_some, Array.getElem?_push, if_neg small]

end KeySubst.Table

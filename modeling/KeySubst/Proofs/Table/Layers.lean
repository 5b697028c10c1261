import KeySubst.Proofs.Table.Lookup
import Mathlib.Data.List.Nodup

/-!
# Layers of a table

The last value given for a key is found (`get?_insertAll_iff`), and a key stands where it was given
first (`keys_insertAll`).
-/

namespace KeySubst

section

variable {α β γ δ : Type}

inductive Last : List (α × β) → α → β → Prop
  | here {key : α} {value : β} {rest : List (α × β)} (absent : key ∉ rest.map Prod.fst) :
      Last ((key, value) :: rest) key value
  | later {pair : α × β} {rest : List (α × β)} {key : α} {value : β}
      (last : Last rest key value) : Last (pair :: rest) key value

namespace Last

theorem mem {pairs : List (α × β)} {key : α} {value : β} (last : Last pairs key value) :
    (key, value) ∈ pairs := by
  induction last with
  | here => exact List.mem_cons_self
  | later _ ih => exact List.mem_cons_of_mem _ ih

theorem of_mem {pairs : List (α × β)} (distinct : (pairs.map Prod.fst).Nodup) {key : α}
    {value : β} (member : (key, value) ∈ pairs) : Last pairs key value := by
  induction pairs with
  | nil => cases member
  | cons pair pairs ih =>
    obtain ⟨absent, distinct⟩ := List.nodup_cons.1 distinct
    rcases List.mem_cons.1 member with rfl | later
    · exact .here absent
    · exact .later (ih distinct later)

theorem cons_iff {first : α} {own : β} {pairs : List (α × β)} {key : α} {value : β} :
    Last ((first, own) :: pairs) key value ↔
      Last pairs key value ∨ (key = first ∧ value = own ∧ first ∉ pairs.map Prod.fst) := by
  constructor
  · intro last
    cases last with
    | here absent => exact .inr ⟨rfl, rfl, absent⟩
    | later last => exact .inl last
  · rintro (last | ⟨rfl, rfl, absent⟩)
    · exact .later last
    · exact .here absent

theorem exists_iff {pairs : List (α × β)} {key : α} :
    (∃ value, Last pairs key value) ↔ key ∈ pairs.map Prod.fst := by
  constructor
  · rintro ⟨value, last⟩
    exact List.mem_map_of_mem last.mem
  · intro member
    induction pairs with
    | nil => cases member
    | cons pair pairs ih =>
      by_cases later : key ∈ pairs.map Prod.fst
      · obtain ⟨value, last⟩ := ih later
        exact ⟨value, .later last⟩
      · obtain rfl : key = pair.1 := (List.mem_cons.1 member).resolve_right later
        exact ⟨pair.2, .here later⟩

theorem filter_iff {keep : α → Bool} {pairs : List (α × β)} {key : α} {value : β} :
    Last (pairs.filter fun pair => keep pair.1) key value ↔
      keep key = true ∧ Last pairs key value := by
  induction pairs with
  | nil =>
    constructor
    · intro last
      cases last
    · rintro ⟨-, last⟩
      cases last
  | cons pair pairs ih =>
    obtain ⟨first, own⟩ := pair
    have kept : keep first = true → (first ∉ (pairs.filter fun pair => keep pair.1).map Prod.fst ↔
        first ∉ pairs.map Prod.fst) := by
      intro kept
      simp [kept]
    rw [List.filter_cons, cons_iff]
    split
    · rename_i keeps
      rw [cons_iff, ih, kept keeps]
      constructor
      · rintro (last | ⟨rfl, last⟩)
        · exact ⟨last.1, .inl last.2⟩
        · exact ⟨keeps, .inr ⟨rfl, last⟩⟩
      · rintro ⟨keeps, last | last⟩
        · exact .inl ⟨keeps, last⟩
        · exact .inr last
    · rename_i drops
      rw [ih]
      refine and_congr_right fun keeps => (or_iff_left ?_).symm
      rintro ⟨rfl, -⟩
      exact drops keeps

theorem map_iff {f : α → γ} (injective : Function.Injective f) (g : β → δ)
    {pairs : List (α × β)} {key : γ} {value : δ} :
    Last (pairs.map fun pair => (f pair.1, g pair.2)) key value ↔
      ∃ k v, Last pairs k v ∧ key = f k ∧ value = g v := by
  induction pairs with
  | nil =>
    constructor
    · intro last
      cases last
    · rintro ⟨_, _, last, -⟩
      cases last
  | cons pair pairs ih =>
    obtain ⟨first, own⟩ := pair
    have absent : f first ∉ (pairs.map fun pair => (f pair.1, g pair.2)).map Prod.fst ↔
        first ∉ pairs.map Prod.fst := by
      rw [List.map_map, show Prod.fst ∘ (fun pair : α × β => (f pair.1, g pair.2)) = f ∘ Prod.fst
        from rfl, ← List.map_map, List.mem_map_of_injective injective]
    rw [List.map_cons, cons_iff, ih, absent]
    constructor
    · rintro (⟨k, v, last, same⟩ | ⟨rfl, rfl, absent⟩)
      · exact ⟨k, v, .later last, same⟩
      · exact ⟨first, own, .here absent, rfl, rfl⟩
    · rintro ⟨k, v, last, rfl, rfl⟩
      rcases cons_iff.1 last with last | ⟨rfl, rfl, absent⟩
      · exact .inl ⟨k, v, last, rfl, rfl⟩
      · exact .inr ⟨rfl, rfl, absent⟩

end Last

end

namespace Table

variable {σ : Type}

theorem get?_insertAll_iff {t : Table σ} {pairs : List (String × Replacement σ)} {key : String}
    {value : Replacement σ} :
    (t.insertAll pairs).get? key = some value ↔
      Last pairs key value ∨ ((∀ v, ¬ Last pairs key v) ∧ t.get? key = some value) := by
  rw [← not_exists, Last.exists_iff]
  induction pairs generalizing t with
  | nil =>
    constructor
    · exact fun found => .inr ⟨List.not_mem_nil, found⟩
    · rintro (last | ⟨-, found⟩)
      · cases last
      · exact found
  | cons pair pairs ih =>
    obtain ⟨first, own⟩ := pair
    change ((t.insert first own).insertAll pairs).get? key = some value ↔ _
    rw [ih, Last.cons_iff, List.map_cons, List.mem_cons, not_or]
    by_cases same : key = first
    · subst same
      rw [get?_insert_self, Option.some.injEq]
      constructor
      · rintro (last | ⟨absent, rfl⟩)
        · exact .inl (.inl last)
        · exact .inl (.inr ⟨rfl, rfl, absent⟩)
      · rintro ((last | ⟨-, rfl, absent⟩) | ⟨⟨different, -⟩, -⟩)
        · exact .inl last
        · exact .inr ⟨absent, rfl⟩
        · exact absurd rfl different
    · rw [get?_insert_of_ne t same]
      simp [same]

theorem eraseDups_of_nodup {keys : List String} (distinct : keys.Nodup) :
    keys.eraseDups = keys := by
  induction keys with
  | nil => rfl
  | cons key keys ih =>
    obtain ⟨absent, distinct⟩ := List.nodup_cons.1 distinct
    have others : keys.filter (fun other => !other == key) = keys := by
      apply List.filter_eq_self.2
      intro other member
      have different : other ≠ key := fun same => absent (same ▸ member)
      simpa using different
    rw [List.eraseDups_cons, others, ih distinct]

theorem keys_insertAll (t : Table σ) (pairs : List (String × Replacement σ)) :
    (t.insertAll pairs).keys = (t.keys ++ pairs.map Prod.fst).eraseDups := by
  induction pairs generalizing t with
  | nil =>
    rw [List.map_nil, List.append_nil, eraseDups_of_nodup t.keys_nodup]
    rfl
  | cons pair pairs ih =>
    obtain ⟨first, own⟩ := pair
    change ((t.insert first own).insertAll pairs).keys = _
    rw [ih, List.map_cons]
    by_cases member : first ∈ t.keys
    · have known : t.keys.contains first = true := by simpa using member
      rw [keys_insert_of_mem member, List.eraseDups_append, List.eraseDups_append,
        List.cons_removeAll, known]
      rfl
    · rw [keys_insert_of_not_mem member, List.append_assoc]
      rfl

end Table

end KeySubst

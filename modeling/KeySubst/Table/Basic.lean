import KeySubst.Value.Replacement

/-!
# Tables of replacements

Keys stand in the order of their first insertion, each once, with an index from keys to places that
agrees with the entries.
-/

namespace KeySubst

structure Entry (σ : Type) where
  key : String
  value : Replacement σ

structure Table (σ : Type) where
  entries : Array (Entry σ)
  index : Std.HashMap String Nat
  index_eq_some_iff (key : String) (i : Nat) :
    index[key]? = some i ↔ entries[i]?.map Entry.key = some key

namespace Table

variable {σ : Type}

def empty : Table σ := ⟨#[], ∅, by simp⟩

instance : EmptyCollection (Table σ) := ⟨empty⟩
instance : Inhabited (Table σ) := ⟨empty⟩

theorem modify_key (entries : Array (Entry σ)) (place i : Nat) (value : Replacement σ) :
    (entries.modify place fun e => { e with value })[i]?.map Entry.key =
      entries[i]?.map Entry.key := by
  rw [Array.getElem?_modify]
  split
  · rw [Option.map_map]; rfl
  · rfl

theorem push_key {t : Table σ} {new : String} (absent : t.index[new]? = none)
    (value : Replacement σ) (key : String) (i : Nat) :
    (t.index.insert new t.entries.size)[key]? = some i ↔
      (t.entries.push ⟨new, value⟩)[i]?.map Entry.key = some key := by
  have fresh : ∀ i, t.entries[i]?.map Entry.key ≠ some new := fun i known => by
    rw [(t.index_eq_some_iff new i).2 known] at absent
    cases absent
  rw [Std.HashMap.getElem?_insert, Array.getElem?_push]
  by_cases same : new = key
  · subst same
    by_cases last : i = t.entries.size
    · simp [last]
    · simp only [BEq.rfl, if_true, Option.some.injEq, if_neg last]
      exact ⟨fun eq => absurd eq.symm last, fun known => absurd known (fresh i)⟩
  · simp only [beq_iff_eq, same, if_false, t.index_eq_some_iff]
    by_cases last : i = t.entries.size
    · simp [last, same]
    · rw [if_neg last]

def insert (t : Table σ) (key : String) (value : Replacement σ) : Table σ :=
  match known : t.index[key]? with
  | some i =>
    { t with
      entries := t.entries.modify i fun e => { e with value }
      index_eq_some_iff := fun k j => by rw [modify_key]; exact t.index_eq_some_iff k j }
  | none =>
    ⟨t.entries.push ⟨key, value⟩, t.index.insert key t.entries.size, push_key known value⟩

def get? (t : Table σ) (key : String) : Option (Replacement σ) :=
  t.index[key]?.bind fun i => t.entries[i]?.map (·.value)

def contains (t : Table σ) (key : String) : Bool := t.index.contains key

def size (t : Table σ) : Nat := t.entries.size

def isEmpty (t : Table σ) : Bool := t.entries.isEmpty

def toList (t : Table σ) : List (Entry σ) := t.entries.toList

def keys (t : Table σ) : List String := t.toList.map (·.key)

def insertAll (t : Table σ) (pairs : List (String × Replacement σ)) : Table σ :=
  pairs.foldl (fun t (key, value) => t.insert key value) t

def ofList (pairs : List (String × Replacement σ)) : Table σ := empty.insertAll pairs

end Table

end KeySubst

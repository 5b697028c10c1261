import KeySubst.Proofs.Table.Layers
import KeySubst.Table.Environment

/-!
# Completed tables

`Resolves` tells what each string stands for from the entries and the variables alone.
-/

namespace KeySubst

theorem accessorOf_injective : Function.Injective fun name => "process.env." ++ name :=
  fun _ _ same => (String.append_right_inj _).1 same

theorem ne_accessorOf {string : String} (short : string.utf8ByteSize < 12) (name : String) :
    string ≠ "process.env." ++ name := by
  rintro rfl
  rw [String.utf8ByteSize_append, show "process.env.".utf8ByteSize = 12 by decide] at short
  omega

theorem accessorOf_ne (name : String) : "process.env." ++ name ≠ "process.env" :=
  (ne_accessorOf (by decide) name).symm

theorem isExposed_iff {name : String} :
    isExposed name = true ↔ ∃ rest, name = "NUXT_ENV" ++ rest := by
  rw [isExposed, List.isPrefixOf_iff_prefix]
  constructor
  · rintro ⟨rest, split⟩
    refine ⟨String.ofList rest, ?_⟩
    rw [← String.toList_inj, ← split]
    simp [variableStart]
  · rintro ⟨rest, rfl⟩
    exact ⟨rest.toList, String.toList_append.symm⟩

variable {σ : Type} {values : Table σ} {environment : List (String × String)}

/-- A variable whose name has the right start stands for the last value given for it. -/
def Exposes (environment : List (String × String)) (name value : String) : Prop :=
  (∃ rest, name = "NUXT_ENV" ++ rest) ∧ Last environment name value

/-- What a string stands for. An accessor stands for the variable of its name before it stands for
the configured key of that name, and for either before it stands for itself as a configured key. -/
inductive Resolves (values : Table σ) (environment : List (String × String)) :
    String → Replacement σ → Prop
  | exposed {name value : String} (exposes : Exposes environment name value) :
      Resolves values environment ("process.env." ++ name) (.ofString (Json.quote value))
  | derived {key : String} {value : Replacement σ} (configured : ⟨key, value⟩ ∈ values.toList)
      (uncovered : ∀ v, ¬ Exposes environment key v) :
      Resolves values environment ("process.env." ++ key) value.quoted
  | own {key : String} {value : Replacement σ} (configured : ⟨key, value⟩ ∈ values.toList)
      (underived : ∀ other ∈ values.keys, key ≠ "process.env." ++ other)
      (uncovered : ∀ name v, Exposes environment name v → key ≠ "process.env." ++ name) :
      Resolves values environment key value
  | bare (absent : "process.env" ∉ values.keys) :
      Resolves values environment "process.env" (.ofString "\x7b\x7d")

theorem mem_keys_of_mem {t : Table σ} {key : String} {value : Replacement σ}
    (member : ⟨key, value⟩ ∈ t.toList) : key ∈ t.keys :=
  List.mem_map_of_mem (f := Entry.key) member

theorem resolves_bare_iff (absent : "process.env" ∉ values.keys) {value : Replacement σ} :
    Resolves values environment "process.env" value ↔ value = .ofString "\x7b\x7d" := by
  constructor
  · intro resolves
    generalize same : "process.env" = key at resolves
    cases resolves with
    | exposed => exact absurd same.symm (accessorOf_ne _)
    | derived => exact absurd same.symm (accessorOf_ne _)
    | own configured =>
      subst same
      exact absurd (mem_keys_of_mem configured) absent
    | bare => rfl
  · rintro rfl
    exact .bare absent

namespace Table

def layered (values : Table σ) (environment : List (String × String)) : Table σ :=
  (values.insertAll values.accessors).insertAll (variableAccessors environment)

theorem keys_accessors : values.accessors.map Prod.fst = values.keys.map ("process.env." ++ ·) := by
  rw [accessors, Table.keys, List.map_map, List.map_map]
  rfl

theorem keys_variableAccessors :
    (variableAccessors (σ := σ) environment).map Prod.fst =
      ((environment.map Prod.fst).filter isExposed).map ("process.env." ++ ·) := by
  rw [variableAccessors, List.filter_map, List.map_map, List.map_map]
  rfl

theorem last_variableAccessors_iff {key : String} {value : Replacement σ} :
    Last (variableAccessors environment) key value ↔
      ∃ name v, Exposes environment name v ∧ key = "process.env." ++ name ∧
        value = .ofString (Json.quote v) := by
  have injective : Function.Injective accessorOf := accessorOf_injective
  have layers : variableAccessors (σ := σ) environment =
      (environment.filter fun pair => isExposed pair.1).map fun pair =>
        (accessorOf pair.1, .ofString (Json.quote pair.2)) := rfl
  rw [layers, Last.map_iff injective fun v => Replacement.ofString (Json.quote v)]
  simp only [Last.filter_iff, isExposed_iff]
  exact Iff.rfl

theorem last_accessors_iff {key : String} {value : Replacement σ} :
    Last values.accessors key value ↔
      ∃ k v, ⟨k, v⟩ ∈ values.toList ∧ key = "process.env." ++ k ∧ value = v.quoted := by
  have distinct : (values.accessors.map Prod.fst).Nodup := by
    rw [keys_accessors]
    exact values.keys_nodup.map accessorOf_injective
  constructor
  · intro last
    obtain ⟨e, member, same⟩ := List.mem_map.1 last.mem
    obtain ⟨rfl, rfl⟩ := Prod.mk.inj same
    exact ⟨e.key, e.value, member, rfl, rfl⟩
  · rintro ⟨k, v, member, rfl, rfl⟩
    exact Last.of_mem distinct (List.mem_map.2 ⟨⟨k, v⟩, member, rfl⟩)

theorem get?_layered_iff {key : String} {value : Replacement σ} :
    (values.layered environment).get? key = some value ↔
      Resolves values environment key value ∧
        (key = "process.env" → "process.env" ∈ values.keys) := by
  rw [layered, get?_insertAll_iff, get?_insertAll_iff]
  simp only [get?_eq_some_iff, last_variableAccessors_iff, last_accessors_iff]
  -- From the top layer down: variables, derived keys, configured ones.
  constructor
  · rintro (⟨name, v, exposes, rfl, rfl⟩ | ⟨uncovered, ⟨k, v, configured, rfl, rfl⟩ |
      ⟨underived, configured⟩⟩)
    · exact ⟨.exposed exposes, fun same => absurd same (accessorOf_ne name)⟩
    · refine ⟨.derived configured fun v exposes => ?_, fun same => absurd same (accessorOf_ne k)⟩
      exact uncovered _ ⟨k, v, exposes, rfl, rfl⟩
    · have member := mem_keys_of_mem configured
      refine ⟨.own configured (fun other known same => ?_) fun name v exposes same => ?_,
        fun same => same ▸ member⟩
      · obtain ⟨e, stored, rfl⟩ := List.mem_map.1 known
        exact underived _ ⟨e.key, e.value, stored, same, rfl⟩
      · exact uncovered _ ⟨name, v, exposes, same, rfl⟩
  · rintro ⟨resolves, bare⟩
    cases resolves with
    | exposed exposes => exact .inl ⟨_, _, exposes, rfl, rfl⟩
    | @derived k v configured uncovered =>
      refine .inr ⟨?_, .inl ⟨k, v, configured, rfl, rfl⟩⟩
      rintro _ ⟨name, v, exposes, same, -⟩
      obtain rfl := accessorOf_injective same
      exact uncovered v exposes
    | own configured underived uncovered =>
      refine .inr ⟨?_, .inr ⟨?_, configured⟩⟩
      · rintro _ ⟨name, v, exposes, same, -⟩
        exact uncovered name v exposes same
      · rintro _ ⟨k, v, stored, same, -⟩
        exact underived k (mem_keys_of_mem stored) same
    | bare absent => exact absurd (bare rfl) absent

theorem mem_keys_layered_iff :
    "process.env" ∈ (values.layered environment).keys ↔ "process.env" ∈ values.keys := by
  constructor
  · intro member
    obtain ⟨value, found⟩ := exists_get?_of_mem_keys member
    exact (get?_layered_iff.1 found).2 rfl
  · intro member
    rw [layered, keys_insertAll, keys_insertAll]
    simp [member]

/-! ### Completing a table -/

structure Completes (t values : Table σ) (environment : List (String × String)) : Prop where
  distinct : t.keys.Nodup
  get?_iff : ∀ key value, t.get? key = some value ↔ Resolves values environment key value
  keys_eq : t.keys =
    (values.keys ++ values.keys.map ("process.env." ++ ·) ++
      ((environment.map Prod.fst).filter isExposed).map ("process.env." ++ ·) ++
        ["process.env"]).eraseDups

def completed (values : Table σ) (environment : List (String × String)) : Table σ :=
  if "process.env" ∈ values.keys then values.layered environment
  else (values.layered environment).insert "process.env" (.ofString "\x7b\x7d")

theorem withEnvironment_eq (values : Table σ) (environment : List (String × String)) :
    values.withEnvironment environment =
      if "" ∈ values.keys then .error .emptyKey else .ok (values.completed environment) := by
  have empty : values.keys.any String.isEmpty = true ↔ "" ∈ values.keys := by
    simp
  have known : (values.layered environment).contains accessor = true ↔
      "process.env" ∈ values.keys := contains_iff.trans mem_keys_layered_iff
  have completes : values.withEnvironment environment =
      if values.keys.any String.isEmpty then .error .emptyKey
      else .ok (if (values.layered environment).contains accessor then values.layered environment
        else (values.layered environment).insert accessor (.ofString "\x7b\x7d")) := rfl
  rw [completes, completed]
  simp only [empty, known]
  rfl

theorem withEnvironment_eq_ok_iff {t : Table σ} :
    values.withEnvironment environment = .ok t ↔
      "" ∉ values.keys ∧ t = values.completed environment := by
  rw [withEnvironment_eq]
  split
  · rename_i empty
    simp [empty]
  · rename_i nonempty
    rw [Except.ok.injEq, eq_comm]
    exact (and_iff_right nonempty).symm

theorem keys_completed :
    (values.completed environment).keys =
      (values.keys ++ values.keys.map ("process.env." ++ ·) ++
        ((environment.map Prod.fst).filter isExposed).map ("process.env." ++ ·) ++
          ["process.env"]).eraseDups := by
  have added : (values.completed environment).keys =
      ((values.layered environment).insert "process.env" (.ofString "\x7b\x7d")).keys := by
    unfold completed
    split
    · rename_i member
      exact (keys_insert_of_mem (mem_keys_layered_iff.2 member) _).symm
    · rfl
  have once : (values.layered environment).insert "process.env" (.ofString "\x7b\x7d") =
      values.insertAll (values.accessors ++ variableAccessors environment ++
        [("process.env", .ofString "\x7b\x7d")]) := by
    simp only [layered, insertAll, List.foldl_append, List.foldl_cons, List.foldl_nil]
  rw [added, once, keys_insertAll, List.map_append, List.map_append, keys_accessors,
    keys_variableAccessors, ← List.append_assoc, ← List.append_assoc]
  rfl

theorem completes_of_withEnvironment {t : Table σ}
    (made : values.withEnvironment environment = .ok t) : t.Completes values environment := by
  obtain ⟨-, rfl⟩ := withEnvironment_eq_ok_iff.1 made
  refine ⟨keys_nodup _, fun key value => ?_, keys_completed⟩
  · unfold completed
    split
    · rename_i member
      rw [get?_layered_iff]
      exact and_iff_left fun _ => member
    · rename_i absent
      by_cases bare : key = "process.env"
      · subst bare
        rw [get?_insert_self, resolves_bare_iff absent, Option.some.injEq, eq_comm]
      · rw [get?_insert_of_ne _ bare, get?_layered_iff]
        exact and_iff_left fun same => absurd same bare

end Table

/-- A string stands for the value of a configured key: it is that key or its accessor, and no other
value covers it. -/
def Serves (values : Table σ) (environment : List (String × String)) (key string : String) : Prop :=
  (string = key ∧ (∀ other ∈ values.keys, key ≠ "process.env." ++ other) ∧
      ∀ name v, Exposes environment name v → key ≠ "process.env." ++ name) ∨
    (string = "process.env." ++ key ∧ ∀ v, ¬ Exposes environment key v)

theorem Serves.resolves {key string : String} {value : Replacement σ}
    (configured : ⟨key, value⟩ ∈ values.toList) (serves : Serves values environment key string) :
    Resolves values environment string value ∨ Resolves values environment string value.quoted := by
  rcases serves with ⟨rfl, underived, uncovered⟩ | ⟨rfl, uncovered⟩
  · exact .inl (.own configured underived uncovered)
  · exact .inr (.derived configured uncovered)

theorem Resolves.serves {string : String} {r : Replacement σ}
    (resolves : Resolves values environment string r) :
    (∃ l, r = .literal l) ∨ ∃ key value, ⟨key, value⟩ ∈ values.toList ∧
      Serves values environment key string ∧ (r = value ∨ r = value.quoted) := by
  cases resolves with
  | exposed => exact .inl ⟨_, rfl⟩
  | @derived key value configured uncovered =>
    exact .inr ⟨key, value, configured, .inr ⟨rfl, uncovered⟩, .inr rfl⟩
  | own configured underived uncovered =>
    exact .inr ⟨string, r, configured, .inl ⟨rfl, underived, uncovered⟩, .inl rfl⟩
  | bare => exact .inl ⟨_, rfl⟩

theorem Replacement.produce_quoted (r : Replacement σ) (name : String) (s : σ) :
    ((r.quoted.produce name).run s).2 = ((r.produce name).run s).2 := by
  cases r with
  | literal l => rfl
  | function p => rfl

end KeySubst

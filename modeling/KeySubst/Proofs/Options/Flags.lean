import KeySubst.Options.Flags
import Mathlib.Data.List.Forall2
import Mathlib.Data.List.Nodup

/-!
# Flags of a configuration

What the reserved names of a configuration say, told from its entries.
-/

namespace KeySubst

/-- A text is spelled by a string, or by a datetime as its normal form. -/
inductive Spells : Toml.Value → String → Prop
  | string (s : String) : Spells (.string s) s
  | datetime (d : Toml.Datetime) : Spells (.datetime d) d.text

inductive Lists : Toml.Value → List String → Prop
  | array {items : List Toml.Value} {texts : List String}
      (spelled : List.Forall₂ Spells items texts) : Lists (.array items) texts

inductive Globs : Toml.Value → List String → Prop
  | one {v : Toml.Value} {glob : String} (spelled : Spells v glob) : Globs v [glob]
  | many {v : Toml.Value} {globs : List String} (listed : Lists v globs) : Globs v globs

inductive Says : Toml.Value → Bool → Prop
  | boolean (b : Bool) : Says (.boolean b) b

inductive Holds : Toml.Value → Toml.Table → Prop
  | table (entries : Toml.Table) : Holds (.table entries) entries

/-- A value has the right type for a name, which says nothing unless the name is reserved. -/
structure Fits (name : String) (v : Toml.Value) : Prop where
  globs : name = "include" ∨ name = "exclude" → ∃ globs, Globs v globs
  texts : name = "delimiters" → ∃ texts, Lists v texts
  boolean : name ∈ assignmentSpellings ∨ name = "sourcemap" ∨ name = "sourceMap" → ∃ b, Says v b
  table : name = "values" → ∃ entries, Holds v entries

/-- A reserved name has a value of the wrong type, or the flag for assignments has two spellings. -/
inductive Malformed (entries : Toml.Table) : Prop
  | misfit {name : String} {v : Toml.Value} (member : (name, v) ∈ entries)
      (reserved : isReserved name = true) (misfit : ¬ Fits name v)
  | clash {a b : String} (left : a ∈ assignmentSpellings) (right : b ∈ assignmentSpellings)
      (different : a ≠ b) {v w : Toml.Value} (first : (a, v) ∈ entries) (second : (b, w) ∈ entries)

/-- What a flag is given as under one of its names and no other, or that it is not given. -/
inductive Given {α : Type} (entries : Toml.Table) (names : List String)
    (Reads : Toml.Value → α → Prop) : Option α → Prop
  | given {name : String} {v : Toml.Value} {x : α} (named : name ∈ names)
      (member : (name, v) ∈ entries) (read : Reads v x)
      (alone : ∀ other ∈ names, ∀ w, (other, w) ∈ entries → other = name) :
      Given entries names Reads (some x)
  | absent (absent : ∀ name ∈ names, ∀ v, (name, v) ∉ entries) : Given entries names Reads none

structure Flags.ReadFrom (f : Flags) (entries : Toml.Table) : Prop where
  included : Given entries ["include"] Globs f.included
  excluded : Given entries ["exclude"] Globs f.excluded
  delimiters : Given entries ["delimiters"] Lists f.delimiters
  preventAssignment : Given entries assignmentSpellings Says f.preventAssignment
  sourceMaps : Given entries ["sourcemap"] Says f.sourceMaps
  sourceMapsToo : Given entries ["sourceMap"] Says f.sourceMapsToo
  values : Given entries ["values"] Holds f.values

theorem asText?_eq_some_iff {v : Toml.Value} {s : String} : v.asText? = some s ↔ Spells v s := by
  constructor
  · intro read
    cases v with
    | string text => cases read; exact .string s
    | datetime d => cases read; exact .datetime d
    | _ => cases read
  · rintro (s | d) <;> rfl

theorem mapM_eq_some_iff {α β : Type} {f : α → Option β} {R : α → β → Prop}
    (reads : ∀ a b, f a = some b ↔ R a b) {as : List α} {bs : List β} :
    as.mapM f = some bs ↔ List.Forall₂ R as bs := by
  induction as generalizing bs with
  | nil => simp [eq_comm]
  | cons a as ih =>
    rw [List.forall₂_cons_left_iff]
    simp only [List.mapM_cons, Option.bind_eq_bind, Option.bind_eq_some_iff, Option.pure_def,
      Option.some.injEq, ih, reads]
    exact ⟨fun ⟨b, here, rest, later, same⟩ => ⟨b, rest, here, later, same.symm⟩,
      fun ⟨b, rest, here, later, same⟩ => ⟨b, here, rest, later, same.symm⟩⟩

theorem asTexts?_eq_some_iff {v : Toml.Value} {texts : List String} :
    v.asTexts? = some texts ↔ Lists v texts := by
  constructor
  · intro read
    cases v with
    | array items => exact .array ((mapM_eq_some_iff fun _ _ => asText?_eq_some_iff).1 read)
    | _ => cases read
  · rintro ⟨spelled⟩
    exact (mapM_eq_some_iff fun _ _ => asText?_eq_some_iff).2 spelled

theorem globs?_eq_some_iff {v : Toml.Value} {globs : List String} :
    Flags.globs? v = some globs ↔ Globs v globs := by
  rw [Flags.globs?, Option.or_eq_some_iff, Option.map_eq_some_iff, Option.map_eq_none_iff,
    asTexts?_eq_some_iff]
  constructor
  · rintro (⟨glob, spelled, rfl⟩ | ⟨-, listed⟩)
    · exact .one (asText?_eq_some_iff.1 spelled)
    · exact .many listed
  · rintro (spelled | listed)
    · exact .inl ⟨_, asText?_eq_some_iff.2 spelled, rfl⟩
    · refine .inr ⟨?_, listed⟩
      cases listed
      rfl

theorem asBoolean?_eq_some_iff {v : Toml.Value} {b : Bool} : v.asBoolean? = some b ↔ Says v b := by
  constructor
  · intro read
    cases v with
    | boolean b => cases read; exact .boolean b
    | _ => cases read
  · rintro ⟨b⟩
    rfl

theorem asTable?_eq_some_iff {v : Toml.Value} {entries : Toml.Table} :
    v.asTable? = some entries ↔ Holds v entries := by
  constructor
  · intro read
    cases v with
    | table entries => cases read; exact .table entries
    | _ => cases read
  · rintro ⟨entries⟩
    rfl

section

variable {α : Type} {entries : Toml.Table}

theorem eq_of_distinct (distinct : (entries.map Prod.fst).Nodup) {name : String}
    {v w : Toml.Value} (left : (name, v) ∈ entries) (right : (name, w) ∈ entries) : v = w :=
  congrArg Prod.snd (List.inj_on_of_nodup_map distinct left right rfl)

theorem filter_names_cases (distinct : (entries.map Prod.fst).Nodup) (names : List String) :
    (entries.filter (fun (key, _) => names.contains key) = [] ∧
      ∀ name ∈ names, ∀ v, (name, v) ∉ entries) ∨
    (∃ name v, entries.filter (fun (key, _) => names.contains key) = [(name, v)] ∧
      name ∈ names ∧ (name, v) ∈ entries ∧
      ∀ other ∈ names, ∀ w, (other, w) ∈ entries → other = name) ∨
    ∃ a v b w rest, entries.filter (fun (key, _) => names.contains key) =
      (a, v) :: (b, w) :: rest ∧ a ∈ names ∧ b ∈ names ∧ a ≠ b ∧
        (a, v) ∈ entries ∧ (b, w) ∈ entries := by
  have member : ∀ name v, (name, v) ∈ entries.filter (fun (key, _) => names.contains key) ↔
      (name, v) ∈ entries ∧ name ∈ names := by
    intro name v
    simp [List.mem_filter]
  have kept : ((entries.filter fun (key, _) => names.contains key).map Prod.fst).Nodup :=
    distinct.sublist (List.filter_sublist.map _)
  cases named : entries.filter (fun (key, _) => names.contains key) with
  | nil =>
    refine .inl ⟨rfl, fun name known v stored => ?_⟩
    have := (member name v).2 ⟨stored, known⟩
    rw [named] at this
    cases this
  | cons first others =>
    obtain ⟨a, v⟩ := first
    rw [named] at kept member
    obtain ⟨stored, known⟩ := (member a v).1 List.mem_cons_self
    cases others with
    | nil =>
      refine .inr (.inl ⟨a, v, rfl, known, stored, fun other known w stored => ?_⟩)
      have := (member other w).2 ⟨stored, known⟩
      rw [List.mem_singleton] at this
      exact congrArg Prod.fst this
    | cons second rest =>
      obtain ⟨b, w⟩ := second
      obtain ⟨stored', known'⟩ := (member b w).1 (List.mem_cons_of_mem _ List.mem_cons_self)
      refine .inr (.inr ⟨a, v, b, w, rest, rfl, known, known', fun same => ?_, stored, stored'⟩)
      refine (List.nodup_cons.1 kept).1 ?_
      rw [same]
      exact List.mem_cons_self

theorem lookup_eq_some_iff_mem (distinct : (entries.map Prod.fst).Nodup) {name : String}
    {v : Toml.Value} : entries.lookup name = some v ↔ (name, v) ∈ entries := by
  constructor
  · intro found
    obtain ⟨before, after, rfl, -⟩ := List.lookup_eq_some_iff.1 found
    simp
  · intro member
    cases found : entries.lookup name with
    | none =>
      have unknown := List.lookup_eq_none_iff.1 found _ member
      simp at unknown
    | some w =>
      obtain ⟨before, after, same, -⟩ := List.lookup_eq_some_iff.1 found
      have stored : (name, w) ∈ entries := by simp [same]
      rw [eq_of_distinct distinct stored member]

def Settles (entries : Toml.Table) (found : Option α) (P : α → Prop) : Prop :=
  (∃ x, found = some x ∧ P x) ∨ (found = none ∧ Malformed entries)

theorem Settles.bind {β : Type} {found : Option α} {next : α → Option β} {P : α → Prop}
    {Q : β → Prop} (first : Settles entries found P)
    (later : ∀ x, P x → Settles entries (next x) Q) : Settles entries (found.bind next) Q := by
  rcases first with ⟨x, rfl, holds⟩ | ⟨rfl, malformed⟩
  · exact later x holds
  · exact .inr ⟨rfl, malformed⟩

variable {read? : Toml.Value → Option α} {Reads : Toml.Value → α → Prop}

theorem settles_value (reads : ∀ v x, read? v = some x ↔ Reads v x) {name : String}
    {v : Toml.Value} (member : (name, v) ∈ entries) (reserved : isReserved name = true)
    (fits : Fits name v → ∃ x, Reads v x) : Settles entries (read? v) (Reads v) := by
  cases read : read? v with
  | some x => exact .inl ⟨x, rfl, (reads v x).1 read⟩
  | none =>
    refine .inr ⟨rfl, .misfit member reserved fun fit => ?_⟩
    obtain ⟨x, reading⟩ := fits fit
    rw [(reads v x).2 reading] at read
    cases read

theorem Settles.map_some {found : Option α} {P : α → Prop} {Q : Option α → Prop}
    (first : Settles entries found P) (holds : ∀ x, P x → Q (some x)) :
    Settles entries (found.map some) Q := by
  rw [Option.map_eq_bind]
  exact first.bind fun x read => .inl ⟨some x, rfl, holds x read⟩

theorem flagOfSpellings?_settles (distinct : (entries.map Prod.fst).Nodup)
    (reads : ∀ v x, read? v = some x ↔ Reads v x)
    (fits : ∀ name ∈ assignmentSpellings, ∀ v, Fits name v → ∃ x, Reads v x) :
    Settles entries (Flags.flagOfSpellings? read? entries assignmentSpellings)
      (Given entries assignmentSpellings Reads) := by
  unfold Flags.flagOfSpellings?
  rcases filter_names_cases distinct assignmentSpellings with ⟨none, absent⟩ |
    ⟨name, v, one, named, member, alone⟩ |
    ⟨a, v, b, w, rest, several, left, right, different, first, second⟩
  · rw [none]
    exact .inl ⟨_, rfl, .absent absent⟩
  · have reserved : ∀ name ∈ assignmentSpellings, isReserved name = true := by decide
    rw [one]
    exact (settles_value reads member (reserved name named) (fits name named v)).map_some
      fun _ read => .given named member read alone
  · rw [several]
    exact .inr ⟨rfl, .clash left right different first second⟩

theorem flag?_settles (distinct : (entries.map Prod.fst).Nodup)
    (reads : ∀ v x, read? v = some x ↔ Reads v x) {name : String}
    (reserved : isReserved name = true) (fits : ∀ v, Fits name v → ∃ x, Reads v x) :
    Settles entries (Flags.flag? read? entries name) (Given entries [name] Reads) := by
  unfold Flags.flag?
  cases found : entries.lookup name with
  | none =>
    refine .inl ⟨none, rfl, .absent fun other named v member => ?_⟩
    obtain rfl := List.mem_singleton.1 named
    rw [(lookup_eq_some_iff_mem distinct).2 member] at found
    cases found
  | some v =>
    have member := (lookup_eq_some_iff_mem distinct).1 found
    exact (settles_value reads member reserved (fits v)).map_some fun _ read =>
      .given List.mem_cons_self member read fun _ named _ _ => List.mem_singleton.1 named

theorem Given.unique {names : List String} {x y : Option α}
    (distinct : (entries.map Prod.fst).Nodup) (left : Given entries names Reads x)
    (right : Given entries names Reads y) (functional : ∀ v a b, Reads v a → Reads v b → a = b) :
    x = y := by
  cases left with
  | given named member read alone =>
    cases right with
    | given named' member' read' _ =>
      obtain rfl := alone _ named' _ member'
      obtain rfl := eq_of_distinct distinct member member'
      rw [functional _ _ _ read read']
    | absent absent => exact absurd member (absent _ named _)
  | absent absent =>
    cases right with
    | given named member => exact absurd member (absent _ named _)
    | absent => rfl

theorem Given.exists_reads {names : List String} {x : Option α}
    (distinct : (entries.map Prod.fst).Nodup) (given : Given entries names Reads x) {name : String}
    (named : name ∈ names) {v : Toml.Value} (member : (name, v) ∈ entries) : ∃ y, Reads v y := by
  cases given with
  | given _ stored read alone =>
    obtain rfl := alone name named v member
    rw [eq_of_distinct distinct member stored]
    exact ⟨_, read⟩
  | absent absent => exact absurd member (absent name named v)

end

theorem Flags.ReadFrom.not_malformed {f : Flags} {entries : Toml.Table}
    (distinct : (entries.map Prod.fst).Nodup) (readFrom : f.ReadFrom entries) :
    ¬ Malformed entries := by
  rintro (⟨member, -, misfit⟩ | ⟨left, right, different, first, second⟩)
  · refine misfit ⟨?_, ?_, ?_, ?_⟩
    · rintro (rfl | rfl)
      · exact readFrom.included.exists_reads distinct List.mem_cons_self member
      · exact readFrom.excluded.exists_reads distinct List.mem_cons_self member
    · rintro rfl
      exact readFrom.delimiters.exists_reads distinct List.mem_cons_self member
    · rintro (spelling | rfl | rfl)
      · exact readFrom.preventAssignment.exists_reads distinct spelling member
      · exact readFrom.sourceMaps.exists_reads distinct List.mem_cons_self member
      · exact readFrom.sourceMapsToo.exists_reads distinct List.mem_cons_self member
    · rintro rfl
      exact readFrom.values.exists_reads distinct List.mem_cons_self member
  · have given := readFrom.preventAssignment
    generalize f.preventAssignment = x at given
    cases given with
    | given _ _ _ alone =>
      exact different ((alone _ left _ first).trans (alone _ right _ second).symm)
    | absent absent => exact absent _ left _ first

theorem read?_settles {entries : Toml.Table} (distinct : (entries.map Prod.fst).Nodup) :
    Settles entries (Flags.read? entries) fun f => f.ReadFrom entries := by
  have readsBoolean : ∀ v b, Toml.Value.asBoolean? v = some b ↔ Says v b := fun _ _ =>
    asBoolean?_eq_some_iff
  -- The flags are taken in the order of reading: the first that is not read ends it.
  refine (flag?_settles distinct (fun _ _ => globs?_eq_some_iff) (by decide) fun v fits =>
    fits.globs (.inl rfl)).bind fun included givenIncluded => ?_
  refine (flag?_settles distinct (fun _ _ => globs?_eq_some_iff) (by decide) fun v fits =>
    fits.globs (.inr rfl)).bind fun excluded givenExcluded => ?_
  refine (flag?_settles distinct (fun _ _ => asTexts?_eq_some_iff) (by decide) fun v fits =>
    fits.texts rfl).bind fun delimiters givenDelimiters => ?_
  refine (flagOfSpellings?_settles distinct readsBoolean fun name spelling v fits =>
    fits.boolean (.inl spelling)).bind fun preventAssignment givenPreventAssignment => ?_
  refine (flag?_settles distinct readsBoolean (by decide) fun v fits =>
    fits.boolean (.inr (.inl rfl))).bind fun sourceMaps givenSourceMaps => ?_
  refine (flag?_settles distinct readsBoolean (by decide) fun v fits =>
    fits.boolean (.inr (.inr rfl))).bind fun sourceMapsToo givenSourceMapsToo => ?_
  refine (flag?_settles distinct (fun _ _ => asTable?_eq_some_iff) (by decide) fun v fits =>
    fits.table rfl).bind fun values givenValues => ?_
  exact .inl ⟨_, rfl, givenIncluded, givenExcluded, givenDelimiters, givenPreventAssignment,
    givenSourceMaps, givenSourceMapsToo, givenValues⟩

end KeySubst

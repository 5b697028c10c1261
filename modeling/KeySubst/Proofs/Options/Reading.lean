import KeySubst.Proofs.Options.Flags
import KeySubst.Proofs.Table.Lookup

/-!
# Reading options

One rule for each stage tells what comes of a configuration; a rule applies only if none before it
does.
-/

namespace KeySubst

variable {σ : Type}

/-- The literal that a value stands for. A datetime is one only within the table of values. -/
inductive Yields (nested : Bool) : Toml.Value → Literal → Prop
  | string (s : String) : Yields nested (.string s) (.string s)
  | integer (i : Int) : Yields nested (.integer i) (.integer i)
  | float (x : Binary64) : Yields nested (.float x) (.float x)
  | boolean (b : Bool) : Yields nested (.boolean b) (.boolean b)
  | datetime (d : Toml.Datetime) (within : nested = true) :
      Yields nested (.datetime d) (.string d.text)

inductive Replaces (nested : Bool) : String × Toml.Value → String × Literal → Prop
  | entry {key : String} {v : Toml.Value} {l : Literal} (named : key ≠ "")
      (yields : Yields nested v l) : Replaces nested (key, v) (key, l)

/-- What is wrong with an entry: first of all that it names no key. -/
inductive Faulty (nested : Bool) : String × Toml.Value → Error → Prop
  | unnamed (v : Toml.Value) : Faulty nested ("", v) .emptyKey
  | unsupported {key : String} {v : Toml.Value} (named : key ≠ "")
      (unsupported : ∀ l, ¬ Yields nested v l) :
      Faulty nested (key, v) (.unsupportedValue key v.kind)

inductive FirstFault (nested : Bool) : Toml.Table → Error → Prop
  | here {entry : String × Toml.Value} {rest : Toml.Table} {e : Error}
      (faulty : Faulty nested entry e) : FirstFault nested (entry :: rest) e
  | later {entry : String × Toml.Value} {pair : String × Literal} {rest : Toml.Table} {e : Error}
      (good : Replaces nested entry pair) (later : FirstFault nested rest e) :
      FirstFault nested (entry :: rest) e

/-- The entries that say what is replaced: those of the table of values, or else all at the top that
are not reserved. -/
inductive Source (entries : Toml.Table) : (nested : Bool) → Toml.Table → Prop
  | values {table : Toml.Table} (given : ("values", .table table) ∈ entries) :
      Source entries true table
  | others (absent : ∀ v, ("values", v) ∉ entries) :
      Source entries false (entries.filter fun (key, _) => !isReserved key)

def Sets {α : Type} (entries : Toml.Table) (names : List String) (Reads : Toml.Value → α → Prop)
    (default x : α) : Prop :=
  ∃ given, Given entries names Reads given ∧ x = given.getD default

structure Options.ReadFrom (o : Options σ) (entries : Toml.Table) (nested : Bool)
    (source : Toml.Table) : Prop where
  included : Sets entries ["include"] Globs ["./src/**/*"] o.included
  excluded : Sets entries ["exclude"] Globs [] o.excluded
  delimiters : ∃ given, Given entries ["delimiters"] Lists given ∧
    given = o.delimiters.map fun (opening, closing) => [opening, closing]
  preventAssignment : Sets entries assignmentSpellings Says true o.preventAssignment
  sourceMaps : o.sourceMaps = false ↔
    ("sourcemap", .boolean false) ∈ entries ∨ ("sourceMap", .boolean false) ∈ entries
  baseDirectory : o.baseDirectory = none
  values : ∃ pairs, List.Forall₂ (Replaces nested) source pairs ∧
    o.values.toList = pairs.map fun (key, l) => ⟨key, .literal l⟩

inductive Reading (entries : Toml.Table) (path : String) : Except Error (Options σ) → Prop
  | malformed (malformed : Malformed entries) :
      Reading entries path (.error (.configMalformed path))
  | delimiters (wellFormed : ¬ Malformed entries) {texts : List String}
      (given : Given entries ["delimiters"] Lists (some texts)) (wrong : texts.length ≠ 2) :
      Reading entries path (.error (.delimiterCount texts.length))
  | value (wellFormed : ¬ Malformed entries)
      (right : ∀ texts, Given entries ["delimiters"] Lists (some texts) → texts.length = 2)
      {nested : Bool} {source : Toml.Table} (taken : Source entries nested source) {e : Error}
      (first : FirstFault nested source e) : Reading entries path (.error e)
  | options (wellFormed : ¬ Malformed entries) {nested : Bool} {source : Toml.Table}
      (taken : Source entries nested source) {o : Options σ}
      (readFrom : o.ReadFrom entries nested source) : Reading entries path (.ok o)

/-- A table that names each of its entries once, as do the tables among its values. -/
structure NamesOnce (entries : Toml.Table) : Prop where
  distinct : (entries.map Prod.fst).Nodup
  inner : ∀ name table, (name, .table table) ∈ entries → (table.map Prod.fst).Nodup

def seen (nested : Bool) (v : Toml.Value) : Toml.Value := if nested then withinValues v else v

theorem ofToml?_seen_eq_some_iff {nested : Bool} {v : Toml.Value} {l : Literal} :
    Literal.ofToml? (seen nested v) = some l ↔ Yields nested v l := by
  constructor
  · intro read
    cases nested <;> cases v <;> cases read <;> (constructor; try rfl)
  · rintro (s | i | x | b | ⟨d, rfl⟩)
    · cases nested <;> rfl
    · cases nested <;> rfl
    · cases nested <;> rfl
    · cases nested <;> rfl
    · rfl

theorem kind_seen {nested : Bool} {v : Toml.Value} (unsupported : ∀ l, ¬ Yields nested v l) :
    (seen nested v).kind = v.kind := by
  cases nested with
  | false => rfl
  | true =>
    cases v with
    | datetime d => exact absurd (.datetime d rfl) (unsupported _)
    | _ => rfl

theorem readEntry_cases (nested : Bool) (key : String) (v : Toml.Value) :
    (∃ pair, readEntry (key, seen nested v) = .ok pair ∧ Replaces nested (key, v) pair) ∨
      ∃ e, readEntry (key, seen nested v) = .error e ∧ Faulty nested (key, v) e := by
  unfold readEntry
  by_cases named : key = ""
  · subst named
    exact .inr ⟨.emptyKey, rfl, .unnamed v⟩
  · rw [if_neg (by simpa using named)]
    cases read : Literal.ofToml? (seen nested v) with
    | some l => exact .inl ⟨(key, l), rfl, .entry named (ofToml?_seen_eq_some_iff.1 read)⟩
    | none =>
      have unsupported : ∀ l, ¬ Yields nested v l := fun l yields => by
        rw [ofToml?_seen_eq_some_iff.2 yields] at read
        cases read
      refine .inr ⟨_, rfl, ?_⟩
      rw [kind_seen unsupported]
      exact .unsupported named unsupported

theorem readEntries_cases (nested : Bool) (source : Toml.Table) :
    (∃ pairs, readEntries (source.map fun (key, v) => (key, seen nested v)) = .ok pairs ∧
      List.Forall₂ (Replaces nested) source pairs) ∨
    ∃ e, readEntries (source.map fun (key, v) => (key, seen nested v)) = .error e ∧
      FirstFault nested source e := by
  induction source with
  | nil => exact .inl ⟨[], rfl, .nil⟩
  | cons entry source ih =>
    obtain ⟨key, v⟩ := entry
    rw [readEntries] at ih ⊢
    rw [List.map_cons, List.mapM_cons]
    rcases readEntry_cases nested key v with ⟨pair, read, good⟩ | ⟨e, read, faulty⟩
    · rw [read]
      rcases ih with ⟨pairs, rest, all⟩ | ⟨e, rest, first⟩
      · rw [rest]
        exact .inl ⟨pair :: pairs, rfl, .cons good all⟩
      · rw [rest]
        exact .inr ⟨e, rfl, .later good first⟩
    · rw [read]
      exact .inr ⟨e, rfl, .here faulty⟩

theorem keys_of_replaces {nested : Bool} {source : Toml.Table} {pairs : List (String × Literal)}
    (all : List.Forall₂ (Replaces nested) source pairs) :
    pairs.map Prod.fst = source.map Prod.fst := by
  induction all with
  | nil => rfl
  | cons here _ ih =>
    obtain ⟨_, _⟩ := here
    rw [List.map_cons, List.map_cons, ih]

def reserved (entries : Toml.Table) : Toml.Table := entries.filter fun (key, _) => isReserved key

theorem mem_reserved_iff {entries : Toml.Table} {name : String} {v : Toml.Value}
    (named : isReserved name = true) : (name, v) ∈ reserved entries ↔ (name, v) ∈ entries := by
  simp [reserved, named]

theorem Given.of_reserved {α : Type} {entries : Toml.Table} {names : List String}
    {Reads : Toml.Value → α → Prop} {x : Option α} (named : ∀ name ∈ names, isReserved name = true)
    (given : Given (reserved entries) names Reads x) : Given entries names Reads x := by
  cases given with
  | given known member read alone =>
    refine .given known ((mem_reserved_iff (named _ known)).1 member) read
      fun other known w stored => ?_
    exact alone other known w ((mem_reserved_iff (named _ known)).2 stored)
  | absent absent =>
    refine .absent fun name known v stored => ?_
    exact absent name known v ((mem_reserved_iff (named _ known)).2 stored)

theorem Flags.ReadFrom.of_reserved {f : Flags} {entries : Toml.Table}
    (readFrom : f.ReadFrom (reserved entries)) : f.ReadFrom entries where
  included := readFrom.included.of_reserved (by decide)
  excluded := readFrom.excluded.of_reserved (by decide)
  delimiters := readFrom.delimiters.of_reserved (by decide)
  preventAssignment := readFrom.preventAssignment.of_reserved (by decide)
  sourceMaps := readFrom.sourceMaps.of_reserved (by decide)
  sourceMapsToo := readFrom.sourceMapsToo.of_reserved (by decide)
  values := readFrom.values.of_reserved (by decide)

theorem Malformed.of_reserved {entries : Toml.Table} (malformed : Malformed (reserved entries)) :
    Malformed entries := by
  have spellings : ∀ name ∈ assignmentSpellings, isReserved name = true := by decide
  rcases malformed with ⟨member, named, misfit⟩ | ⟨left, right, different, first, second⟩
  · exact .misfit ((mem_reserved_iff named).1 member) named misfit
  · exact .clash left right different ((mem_reserved_iff (spellings _ left)).1 first)
      ((mem_reserved_iff (spellings _ right)).1 second)

theorem Lists.unique {v : Toml.Value} {a b : List String} (left : Lists v a) (right : Lists v b) :
    a = b :=
  Option.some.inj ((asTexts?_eq_some_iff.2 left).symm.trans (asTexts?_eq_some_iff.2 right))

theorem Says.unique {v : Toml.Value} {a b : Bool} (left : Says v a) (right : Says v b) : a = b := by
  cases left
  cases right
  rfl

theorem delimiterPair_cases (f : Flags) :
    (∃ pair, f.delimiterPair = .ok pair ∧
      f.delimiters = pair.map fun (opening, closing) => [opening, closing]) ∨
    ∃ texts, f.delimiterPair = .error (.delimiterCount texts.length) ∧
      f.delimiters = some texts ∧ texts.length ≠ 2 := by
  unfold Flags.delimiterPair
  split
  · rename_i none
    exact .inl ⟨_, rfl, none⟩
  · rename_i opening closing two
    exact .inl ⟨some (opening, closing), rfl, two⟩
  · rename_i texts others given
    refine .inr ⟨texts, rfl, given, fun two => ?_⟩
    obtain ⟨opening, closing, rfl⟩ := List.length_eq_two.1 two
    exact others opening closing rfl

variable {entries : Toml.Table} {f : Flags}

theorem eq_some_false_iff (distinct : (entries.map Prod.fst).Nodup) {name : String}
    {x : Option Bool} (given : Given entries [name] Says x) :
    x = some false ↔ (name, .boolean false) ∈ entries := by
  constructor
  · rintro rfl
    cases given with
    | given named member read =>
      obtain rfl := List.mem_singleton.1 named
      cases read
      exact member
  · intro member
    have alone : Given entries [name] Says (some false) :=
      .given List.mem_cons_self member (.boolean false) fun _ named _ _ =>
        List.mem_singleton.1 named
    exact given.unique distinct alone fun _ _ _ => Says.unique

theorem makesSourceMaps_eq_false_iff (distinct : (entries.map Prod.fst).Nodup)
    (readFrom : f.ReadFrom entries) : f.makesSourceMaps = false ↔
      ("sourcemap", .boolean false) ∈ entries ∨ ("sourceMap", .boolean false) ∈ entries := by
  rw [← eq_some_false_iff distinct readFrom.sourceMaps,
    ← eq_some_false_iff distinct readFrom.sourceMapsToo]
  unfold Flags.makesSourceMaps
  rw [Bool.and_eq_false_iff, bne_eq_false_iff_eq, bne_eq_false_iff_eq]

theorem exists_source (readFrom : f.ReadFrom entries) :
    ∃ nested source, Source entries nested source ∧
      Options.valueEntries f (entries.filter fun (key, _) => !isReserved key) =
        source.map fun (key, v) => (key, seen nested v) := by
  have given := readFrom.values
  unfold Options.valueEntries
  generalize f.values = values at given
  cases given with
  | given named member read =>
    obtain rfl := List.mem_singleton.1 named
    cases read
    exact ⟨true, _, .values member, rfl⟩
  | absent absent =>
    exact ⟨false, _, .others (absent "values" List.mem_cons_self), (List.map_id _).symm⟩

theorem Source.distinct (once : NamesOnce entries) {nested : Bool} {source : Toml.Table}
    (taken : Source entries nested source) : (source.map Prod.fst).Nodup := by
  cases taken with
  | values given => exact once.inner _ _ given
  | others => exact once.distinct.sublist (List.filter_sublist.map _)

/-! ### Options -/

namespace Options

theorem ofToml_eq (entries : Toml.Table) (path : String) :
    (ofToml entries path : Except Error (Options σ)) =
      match Flags.read? (reserved entries) with
      | none => .error (.configMalformed path)
      | some f =>
        f.delimiterPair.bind fun delimiters =>
          (readEntries (valueEntries f (entries.filter fun (key, _) => !isReserved key))).bind
            fun pairs => .ok
              { included := f.included.getD [defaultIncluded]
                excluded := f.excluded.getD []
                delimiters
                preventAssignment := f.preventAssignment.getD true
                sourceMaps := f.makesSourceMaps
                values := .ofList (pairs.map fun (key, l) => (key, .literal l)) } := by
  rw [ofToml, List.partition_eq_filter_filter]
  rfl

theorem toList_ofList_literals {nested : Bool} {source : Toml.Table}
    (distinct : (source.map Prod.fst).Nodup) {pairs : List (String × Literal)}
    (all : List.Forall₂ (Replaces nested) source pairs) :
    (Table.ofList (pairs.map fun (key, l) => (key, Replacement.literal (σ := σ) l))).toList =
      pairs.map fun (key, l) => ⟨key, .literal l⟩ := by
  rw [Table.toList_ofList, List.map_map]
  · rfl
  · rw [List.map_map]
    change (pairs.map Prod.fst).Nodup
    rwa [keys_of_replaces all]

theorem reading_ofToml (once : NamesOnce entries) (path : String) :
    Reading entries path (ofToml entries path : Except Error (Options σ)) := by
  have distinct : ((reserved entries).map Prod.fst).Nodup :=
    once.distinct.sublist (List.filter_sublist.map _)
  rw [ofToml_eq]
  rcases read?_settles distinct with ⟨f, read, readFrom⟩ | ⟨read, malformed⟩
  rotate_left
  · rw [read]
    exact .malformed malformed.of_reserved
  have readFrom := readFrom.of_reserved
  have wellFormed := readFrom.not_malformed once.distinct
  have given := readFrom.delimiters
  simp only [read]
  rcases delimiterPair_cases f with ⟨pair, two, eq⟩ | ⟨texts, wrong, eq, differs⟩
  rotate_left
  · rw [wrong]
    exact .delimiters wellFormed (eq ▸ given) differs
  have right : ∀ texts, Given entries ["delimiters"] Lists (some texts) → texts.length = 2 := by
    intro texts given'
    have same := given.unique once.distinct given' fun _ _ _ => Lists.unique
    rw [eq, Option.map_eq_some_iff] at same
    obtain ⟨_, -, rfl⟩ := same
    rfl
  rw [two]
  obtain ⟨nested, source, taken, entries_eq⟩ := exists_source readFrom
  rw [entries_eq]
  rcases readEntries_cases nested source with ⟨pairs, all, replaced⟩ | ⟨e, fails, first⟩
  rotate_left
  · rw [fails]
    exact .value wellFormed right taken first
  rw [all]
  exact .options wellFormed taken
    { included := ⟨_, readFrom.included, rfl⟩
      excluded := ⟨_, readFrom.excluded, rfl⟩
      delimiters := ⟨_, given, eq⟩
      preventAssignment := ⟨_, readFrom.preventAssignment, rfl⟩
      sourceMaps := makesSourceMaps_eq_false_iff once.distinct readFrom
      baseDirectory := rfl
      values := ⟨pairs, replaced, toList_ofList_literals (taken.distinct once) replaced⟩ }

theorem ofToml_eq_of_reserved (once : NamesOnce entries) {v : Toml.Value}
    (given : ("values", v) ∈ entries) {others : Toml.Table}
    (same : reserved others = reserved entries) (path : String) :
    (ofToml others path : Except Error (Options σ)) = ofToml entries path := by
  have distinct : ((reserved entries).map Prod.fst).Nodup :=
    once.distinct.sublist (List.filter_sublist.map _)
  rw [ofToml_eq, ofToml_eq, same]
  rcases read?_settles distinct with ⟨f, read, readFrom⟩ | ⟨read, -⟩
  · have present := readFrom.of_reserved.values
    have valueEntries : ∀ table, valueEntries f table = valueEntries f [] := by
      intro table
      unfold Options.valueEntries
      generalize f.values = values at present
      cases present with
      | given => rfl
      | absent absent => exact absurd given (absent "values" List.mem_cons_self v)
    simp only [read]
    rw [valueEntries (others.filter _), valueEntries (entries.filter _)]
  · rw [read]

theorem values_of_reserved (once : NamesOnce entries) {path : String} {o : Options σ}
    (read : ofToml entries path = .ok o) {key : String} (known : key ∈ o.values.keys)
    (named : isReserved key = true) :
    ∃ table, ("values", .table table) ∈ entries ∧ key ∈ table.map Prod.fst := by
  have reading := reading_ofToml (σ := σ) once path
  rw [read] at reading
  cases reading with
  | options _ taken readFrom =>
    obtain ⟨pairs, all, values⟩ := readFrom.values
    have keys := keys_of_replaces all
    rw [Table.keys, values, List.map_map] at known
    change key ∈ pairs.map Prod.fst at known
    rw [keys] at known
    cases taken with
    | values given => exact ⟨_, given, known⟩
    | others absent =>
      obtain ⟨⟨name, v⟩, member, rfl⟩ := List.mem_map.1 known
      have free := (List.mem_filter.1 member).2
      simp [named] at free

/-- Reading gives the options that a configuration stands for, or the fault that comes first. With
a table of values the other entries at the top never count, and only there a reserved name is
replaced. -/
theorem ofToml_reads (once : NamesOnce entries) (path : String) :
    Reading entries path (ofToml entries path : Except Error (Options σ)) ∧
    (∀ v others, ("values", v) ∈ entries → reserved others = reserved entries →
      (ofToml others path : Except Error (Options σ)) = ofToml entries path) ∧
    ∀ o : Options σ, ofToml entries path = .ok o → ∀ key ∈ o.values.keys, isReserved key = true →
      ∃ table, ("values", .table table) ∈ entries ∧ key ∈ table.map Prod.fst := by
  refine ⟨reading_ofToml once path, fun v others given same => ?_, fun o read key known named => ?_⟩
  · exact ofToml_eq_of_reserved once given same path
  · exact values_of_reserved once read known named

theorem ofToml_reads_inner_values :
    ∃ entries others : Toml.Table, NamesOnce entries ∧
      entries =
        [("IGNORED", .array []), ("sourceMap", .boolean false),
          ("values", .table [("values", .integer 7), ("D", .datetime (.date ⟨1979, 5, 27⟩))])] ∧
      others = ("", .string "ignored too") :: entries.tail ∧
      (ofToml others "c.toml" : Except Error (Options Unit)) = ofToml entries "c.toml" ∧
      ∃ o : Options Unit, ofToml entries "c.toml" = .ok o ∧ o.sourceMaps = false ∧
        o.preventAssignment = true ∧
        o.values.toList = [⟨"values", .literal (.integer 7)⟩, ⟨"D", .ofString "1979-05-27"⟩] := by
  let inner : Toml.Table := [("values", .integer 7), ("D", .datetime (.date ⟨1979, 5, 27⟩))]
  let entries : Toml.Table :=
    [("IGNORED", .array []), ("sourceMap", .boolean false), ("values", .table inner)]
  have once : NamesOnce entries := by
    refine ⟨by decide, fun name table member => ?_⟩
    obtain ⟨-, rfl⟩ : name = "values" ∧ table = inner := by simpa [entries] using member
    decide
  obtain ⟨reading, free, -⟩ := ofToml_reads (σ := Unit) once "c.toml"
  refine ⟨entries, _, once, rfl, rfl, free (.table inner) _ (by simp [entries]) rfl, ?_⟩
  exact ⟨_, rfl, rfl, rfl, Table.toList_ofList (by decide)⟩

end Options

end KeySubst

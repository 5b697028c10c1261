import KeySubst.Proofs.Options.Reading

/-!
# Forms of a configuration

Values are configured at the top, among the flags, or in a table of their own.
-/

namespace KeySubst

structure Flat (flags values entries : Toml.Table) : Prop where
  reserved : reserved entries = flags
  others : entries.filter (fun (key, _) => !isReserved key) = values

def Nested (flags values entries : Toml.Table) : Prop :=
  ∃ before after, flags = before ++ after ∧
    reserved entries = before ++ ("values", .table values) :: after

def withTexts (values : Toml.Table) : Toml.Table :=
  values.map fun (key, v) => (key, withinValues v)

section

variable {α : Type} {read? : Toml.Value → Option α} {before after entries : Toml.Table}
  {name : String} {v : Toml.Value}

theorem lookup_eq_none (free : ∀ w, (name, w) ∉ entries) : entries.lookup name = none := by
  refine List.lookup_eq_none_iff.2 fun entry member => bne_iff_ne.2 ?_
  rintro rfl
  exact free _ member

theorem flag?_absent (free : ∀ w, (name, w) ∉ entries) :
    Flags.flag? read? entries name = some none := by
  rw [Flags.flag?, lookup_eq_none free]

theorem flag?_given (free : ∀ w, (name, w) ∉ before) :
    Flags.flag? read? (before ++ (name, v) :: after) name = (read? v).map some := by
  rw [Flags.flag?, List.lookup_append, lookup_eq_none free, List.lookup_cons_self]
  rfl

theorem flag?_inserted {other : String} (apart : other ≠ name) :
    Flags.flag? read? (before ++ (name, v) :: after) other =
      Flags.flag? read? (before ++ after) other := by
  have skipped : (other == name) = false := beq_false_of_ne apart
  rw [Flags.flag?, Flags.flag?, List.lookup_append, List.lookup_append, List.lookup_cons, skipped]

theorem flagOfSpellings?_inserted {names : List String} (apart : name ∉ names) :
    Flags.flagOfSpellings? read? (before ++ (name, v) :: after) names =
      Flags.flagOfSpellings? read? (before ++ after) names := by
  rw [Flags.flagOfSpellings?, Flags.flagOfSpellings?, List.filter_append, List.filter_append,
    List.filter_cons_of_neg (by simpa using apart)]

end

theorem read?_inserted {before after values : Toml.Table}
    (free : ∀ v, ("values", v) ∉ before ++ after) :
    Flags.read? (before ++ ("values", .table values) :: after) =
      (Flags.read? (before ++ after)).map fun f => { f with values := some values } := by
  have freeBefore : ∀ v, ("values", v) ∉ before := fun v member =>
    free v (List.mem_append_left _ member)
  have spelled : "values" ∉ assignmentSpellings := by decide
  unfold Flags.read?
  rw [flag?_inserted (by decide), flag?_inserted (by decide), flag?_inserted (by decide),
    flag?_inserted (by decide), flag?_inserted (by decide), flagOfSpellings?_inserted spelled,
    flag?_given freeBefore, flag?_absent free]
  simp only [Toml.Value.asTable?, Option.pure_def, Option.bind_eq_bind, Option.bind_some,
    Option.map_bind, Option.map_some, Function.comp_def]

theorem values_of_read? {flags : Toml.Table} {f : Flags} (free : ∀ v, ("values", v) ∉ flags)
    (read : Flags.read? flags = some f) : f.values = none := by
  have absent : Flags.flag? Toml.Value.asTable? flags "values" = some none := flag?_absent free
  unfold Flags.read? at read
  rw [absent] at read
  simp only [Option.bind_eq_bind, Option.bind_eq_some_iff] at read
  obtain ⟨_, -, _, -, _, -, _, -, _, -, _, -, _, none, same⟩ := read
  cases none
  cases same
  rfl

theorem readEntry_within (key : String) (v : Toml.Value) :
    readEntry (key, withinValues v) = readEntry (key, v) ∨
      readEntry (key, v) = .error (.unsupportedValue key .datetime) := by
  cases v with
  | datetime d =>
    by_cases named : key = ""
    · subst named
      exact .inl rfl
    · refine .inr ?_
      rw [readEntry, if_neg (by simpa using named)]
      rfl
  | _ => exact .inl rfl

theorem readEntries_within (values : Toml.Table) :
    readEntries (withTexts values) = readEntries values ∨
      ∃ key, readEntries values = .error (.unsupportedValue key .datetime) := by
  induction values with
  | nil => exact .inl rfl
  | cons entry values ih =>
    obtain ⟨key, v⟩ := entry
    simp only [withTexts, readEntries, List.map_cons, List.mapM_cons] at ih ⊢
    rcases readEntry_within key v with same | refused
    · -- Both forms go on to the other entries, or stop here with one fault.
      rw [same]
      cases readEntry (key, v) with
      | error e => exact .inl rfl
      | ok pair =>
        rcases ih with rest | ⟨later, rest⟩
        · rw [rest]
          exact .inl rfl
        · rw [rest]
          exact .inr ⟨later, rfl⟩
    · rw [refused]
      exact .inr ⟨key, rfl⟩

theorem FirstFault.ne_datetime {source : Toml.Table} {e : Error} (first : FirstFault true source e)
    (key : String) : e ≠ .unsupportedValue key .datetime := by
  induction first with
  | here faulty =>
    rintro refused
    cases faulty with
    | unnamed v => cases refused
    | @unsupported _ v _ unsupported =>
      cases v with
      | datetime d => exact unsupported _ (.datetime d rfl)
      | _ => cases refused
  | later _ _ ih => exact ih

namespace Options

variable {σ : Type} {flags values flat nested : Toml.Table}

def assemble (f : Flags) (source : Toml.Table) : Except Error (Options σ) :=
  f.delimiterPair.bind fun delimiters =>
    (readEntries source).bind fun pairs => .ok
      { included := f.included.getD [defaultIncluded]
        excluded := f.excluded.getD []
        delimiters
        preventAssignment := f.preventAssignment.getD true
        sourceMaps := f.makesSourceMaps
        values := .ofList (pairs.map fun (key, l) => (key, .literal l)) }

theorem ofToml_flat (free : ∀ v, ("values", v) ∉ flags) (isFlat : Flat flags values flat)
    (path : String) : (ofToml flat path : Except Error (Options σ)) =
      match Flags.read? flags with
      | none => .error (.configMalformed path)
      | some f => assemble f values := by
  rw [ofToml_eq, isFlat.reserved, isFlat.others]
  cases read : Flags.read? flags with
  | none => rfl
  | some f =>
    simp only [valueEntries, values_of_read? free read]
    rfl

theorem ofToml_nested (free : ∀ v, ("values", v) ∉ flags) (isNested : Nested flags values nested)
    (path : String) : (ofToml nested path : Except Error (Options σ)) =
      match Flags.read? flags with
      | none => .error (.configMalformed path)
      | some f => assemble f (withTexts values) := by
  obtain ⟨before, after, rfl, reserved⟩ := isNested
  rw [ofToml_eq, reserved, read?_inserted free]
  cases Flags.read? (before ++ after) with
  | none => rfl
  | some f => rfl

theorem assemble_within (f : Flags) (values : Toml.Table) :
    (assemble f (withTexts values) : Except Error (Options σ)) =
        assemble f values ∨
      ∃ key, (assemble f values : Except Error (Options σ)) =
        .error (.unsupportedValue key .datetime) := by
  unfold assemble
  cases f.delimiterPair with
  | error e => exact .inl rfl
  | ok delimiters =>
    rcases readEntries_within values with same | ⟨key, refused⟩
    · rw [same]
      exact .inl rfl
    · rw [refused]
      exact .inr ⟨key, rfl⟩

theorem assemble_within_ne (f : Flags) (values : Toml.Table) (key : String) :
    (assemble f (withTexts values) : Except Error (Options σ)) ≠
      .error (.unsupportedValue key .datetime) := by
  unfold assemble
  rcases delimiterPair_cases f with ⟨pair, two, -⟩ | ⟨texts, wrong, -⟩
  · rw [two]
    rcases readEntries_cases true values with ⟨pairs, read, -⟩ | ⟨e, fails, first⟩
    · change readEntries (withTexts values) = _ at read
      rw [read]
      intro refused
      cases refused
    · change readEntries (withTexts values) = _ at fails
      rw [fails]
      intro refused
      exact first.ne_datetime key (Except.error.inj refused)
  · rw [wrong]
    intro refused
    cases refused

/-- A configuration with its values in a table comes to the same as one with them at the top and
with texts for their datetimes. With the datetimes left as they are it comes to the same too, unless
just that form is refused for one of them. -/
theorem ofToml_forms (free : ∀ v, ("values", v) ∉ flags) (isFlat : Flat flags values flat)
    (isNested : Nested flags values nested) (path : String) :
    ((∀ key d, (key, .datetime d) ∉ values) →
      (ofToml nested path : Except Error (Options σ)) = ofToml flat path) ∧
    ((ofToml nested path : Except Error (Options σ)) = ofToml flat path ↔
      ∀ key, (ofToml flat path : Except Error (Options σ)) ≠
        .error (.unsupportedValue key .datetime)) ∧
    ∀ texts, Flat flags (withTexts values) texts →
      (ofToml nested path : Except Error (Options σ)) = ofToml texts path := by
  refine ⟨fun dateless => ?_, ?_, fun texts isTexts => ?_⟩
  · have same : withTexts values = values := by
      refine (List.map_congr_left fun ⟨key, v⟩ member => ?_).trans values.map_id
      cases v with
      | datetime d => exact absurd member (dateless key d)
      | _ => rfl
    rw [ofToml_nested free isNested, ofToml_flat free isFlat, same]
  · rw [ofToml_nested free isNested, ofToml_flat free isFlat]
    cases Flags.read? flags with
    | none =>
      refine iff_of_true rfl fun key refused => ?_
      cases refused
    | some f =>
      refine ⟨fun same key refused => ?_, fun accepted => ?_⟩
      · exact assemble_within_ne f values key (same.trans refused)
      · exact (assemble_within f values).resolve_right fun ⟨key, refused⟩ => accepted key refused
  · rw [ofToml_nested free isNested, ofToml_flat free isTexts]

theorem ofToml_forms_mixed :
    let date : Toml.Datetime := .date ⟨1979, 5, 27⟩
    let flags : Toml.Table := [("exclude", .string "x"), ("sourceMap", .boolean false)]
    let values : Toml.Table := [("B", .datetime date), ("A", .integer 7)]
    let texts : Toml.Table :=
      [("B", .string "1979-05-27"), ("exclude", .string "x"), ("A", .integer 7),
        ("sourceMap", .boolean false)]
    let nested : Toml.Table :=
      [("IGNORED", .array []), ("exclude", .string "x"), ("values", .table values),
        ("sourceMap", .boolean false)]
    (∀ v, ("values", v) ∉ flags) ∧ Nested flags values nested ∧
      Flat flags (withTexts values) texts ∧
      (ofToml nested "c.toml" : Except Error (Options Unit)) = ofToml texts "c.toml" := by
  intro date flags values texts nested
  have free : ∀ v, ("values", v) ∉ flags := by simp [flags]
  have isFlat : Flat flags values (flags ++ values) := ⟨rfl, rfl⟩
  have isNested : Nested flags values nested := ⟨[flags[0]], [flags[1]], rfl, rfl⟩
  have isTexts : Flat flags (withTexts values) texts := ⟨rfl, rfl⟩
  exact ⟨free, isNested, isTexts, (ofToml_forms free isFlat isNested "c.toml").2.2 texts isTexts⟩

/-- A datetime at the top is refused, and in the table of values it is replaced by its text. -/
theorem ofToml_forms_datetime :
    let values : Toml.Table := [("D", .datetime (.date ⟨1979, 5, 27⟩))]
    Flat [] values values ∧ Nested [] values [("values", .table values)] ∧
      (ofToml values "c.toml" : Except Error (Options Unit)) =
        .error (.unsupportedValue "D" .datetime) ∧
      ∃ o : Options Unit, ofToml [("values", .table values)] "c.toml" = .ok o ∧
        o.values.toList = [⟨"D", .ofString "1979-05-27"⟩] := by
  intro values
  have isNested : Nested [] values [("values", .table values)] := ⟨[], [], rfl, rfl⟩
  exact ⟨⟨rfl, rfl⟩, isNested, rfl, _, rfl, Table.toList_ofList (by decide)⟩

end Options

end KeySubst

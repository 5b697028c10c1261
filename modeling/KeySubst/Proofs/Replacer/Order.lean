import KeySubst.Proofs.Replacer.Making

/-!
# Order of a configuration

The order of keys of one size among the ranks depends on the order of a configuration, but
`Leftmost` names no rank, so the matches do not.
-/

namespace KeySubst

variable {σ : Type}

theorem Last.of_perm {α β : Type} {pairs others : List (α × β)} (permuted : pairs.Perm others)
    (distinct : (pairs.map Prod.fst).Nodup) {key : α} {value : β} (last : Last pairs key value) :
    Last others key value :=
  .of_mem ((permuted.map Prod.fst).nodup_iff.1 distinct) (permuted.mem_iff.1 last.mem)

theorem Resolves.congr {values values' : Table σ} {environment environment' : List (String × String)}
    (entries : ∀ e, e ∈ values.toList ↔ e ∈ values'.toList)
    (exposed : ∀ name v, Exposes environment name v ↔ Exposes environment' name v)
    {string : String} {r : Replacement σ} (resolves : Resolves values environment string r) :
    Resolves values' environment' string r := by
  have keys : ∀ key, key ∈ values.keys ↔ key ∈ values'.keys := by
    intro key
    simp only [Table.keys, List.mem_map, entries]
  cases resolves with
  | exposed exposes => exact .exposed ((exposed _ _).1 exposes)
  | derived configured uncovered =>
    refine .derived ((entries _).1 configured) fun v exposes => ?_
    exact uncovered v ((exposed _ _).2 exposes)
  | own configured underived uncovered =>
    refine .own ((entries _).1 configured) (fun other known => ?_) fun name v exposes => ?_
    · exact underived other ((keys other).2 known)
    · exact uncovered name v ((exposed _ _).2 exposes)
  | bare absent => exact .bare fun known => absent ((keys _).2 known)

namespace Table

def Agrees (t t' : Table σ) : Prop := ∀ key, t.get? key = t'.get? key

theorem Agrees.mem_keys_iff {t t' : Table σ} (agrees : t.Agrees t') {key : String} :
    key ∈ t.keys ↔ key ∈ t'.keys := by
  have known : ∀ t : Table σ, key ∈ t.keys ↔ ∃ value, t.get? key = some value := by
    intro t
    refine ⟨exists_get?_of_mem_keys, fun ⟨value, found⟩ => ?_⟩
    exact mem_keys_of_mem (get?_eq_some_iff.1 found)
  rw [known, known, agrees key]

theorem Agrees.keys_perm {t t' : Table σ} (agrees : t.Agrees t') : t.keys.Perm t'.keys :=
  (List.perm_ext_iff_of_nodup t.keys_nodup t'.keys_nodup).2 fun _ => agrees.mem_keys_iff

theorem Completes.agrees {t t' values values' : Table σ}
    {environment environment' : List (String × String)}
    (completes : t.Completes values environment) (completes' : t'.Completes values' environment')
    (entries : ∀ e, e ∈ values.toList ↔ e ∈ values'.toList)
    (exposed : ∀ name v, Exposes environment name v ↔ Exposes environment' name v) :
    t.Agrees t' := by
  intro key
  apply Option.ext
  intro value
  rw [completes.get?_iff, completes'.get?_iff]
  constructor
  · exact .congr entries exposed
  · exact .congr (fun e => (entries e).symm) fun name v => (exposed name v).symm

end Table

namespace Matcher

variable {m m' : Matcher σ} {table table' : Table σ} {options : MatchOptions}

theorem compile_of_agrees (agrees : table.Agrees table') (options : MatchOptions) :
    (compile table options = .error .emptyKey ∧ compile table' options = .error .emptyKey) ∨
      ∃ m m', compile table options = .ok m ∧ compile table' options = .ok m' := by
  have empty : table.keys.any String.isEmpty = table'.keys.any String.isEmpty :=
    agrees.keys_perm.any_eq
  unfold compile
  rw [empty]
  split
  · exact .inl ⟨rfl, rfl⟩
  · exact .inr ⟨_, _, rfl, rfl⟩

theorem find_eq_of_agrees (made : m.MadeFrom table options) (made' : m'.MadeFrom table' options)
    (agrees : table.Agrees table') (text : String) : m.find text = m'.find text :=
  ((find_leftmost made text).congr fun _ => agrees.mem_keys_iff).unique (find_leftmost made' text)

theorem edits_eq_of_agrees (made : m.MadeFrom table options) (made' : m'.MadeFrom table' options)
    (agrees : table.Agrees table') (name : String) (all : List Match) :
    m.edits name all = m'.edits name all := by
  have replacement : ∀ key, m.replacement? key = m'.replacement? key := by
    intro key
    rw [replacement?, replacement?, made.table_eq, made'.table_eq, agrees key]
  induction all with
  | nil => rfl
  | cons found others ih => rw [edits, edits, produce, produce, replacement, ih]

theorem substitute_eq_of_agrees (made : m.MadeFrom table options)
    (made' : m'.MadeFrom table' options) (agrees : table.Agrees table') (text name : String)
    (withMap : Bool) : m.substitute text name withMap = m'.substitute text name withMap := by
  rw [substitute, substitute, find_eq_of_agrees made made' agrees,
    edits_eq_of_agrees made made' agrees]

theorem keys_perm_of_agrees (made : m.MadeFrom table options) (made' : m'.MadeFrom table' options)
    (agrees : table.Agrees table') : m.keys.Perm m'.keys :=
  (made.keys_perm.trans agrees.keys_perm).trans made'.keys_perm.symm

end Matcher

namespace Replacer

theorem make_eq (options : Options σ) (values : Table σ) (environment : List (String × String)) :
    make { options with values } environment =
      (values.withEnvironment environment).bind fun table =>
        (Filter.ofPatterns options.included options.excluded options.baseDirectory).bind
          fun filter => (Matcher.compile table options.matching).bind
            fun matcher => .ok ⟨matcher, filter, options.sourceMaps⟩ := rfl

theorem transform_eq_of_agrees {m m' : Matcher σ} {table table' : Table σ} {options : MatchOptions}
    (made : m.MadeFrom table options) (made' : m'.MadeFrom table' options)
    (agrees : table.Agrees table') (filter : Filter) (sourceMaps : Bool) (text name : String) :
    transform ⟨m, filter, sourceMaps⟩ text name = transform ⟨m', filter, sourceMaps⟩ text name := by
  have empty : m.isEmpty = m'.isEmpty := (Matcher.keys_perm_of_agrees made made' agrees).isEmpty_eq
  change (if m.isEmpty || !filter.admits name then pure none
      else m.substitute text name sourceMaps) =
    if m'.isEmpty || !filter.admits name then pure none else m'.substitute text name sourceMaps
  rw [empty, Matcher.substitute_eq_of_agrees made made' agrees]

/-- Whichever way the values and the variables are ordered, a replacer is made or fails to be for the
same reason, and transforms every text called by any name to the same effect. -/
theorem make_perm (options : Options σ) {values : Table σ}
    {environment environment' : List (String × String)}
    (entries : options.values.toList.Perm values.toList) (environments : environment.Perm environment')
    (distinct : (environment.map Prod.fst).Nodup) :
    (∃ e, make options environment = .error e ∧
      make { options with values } environment' = .error e) ∨
    ∃ r r', make options environment = .ok r ∧
      make { options with values } environment' = .ok r' ∧ r.keys.Perm r'.keys ∧
      ∀ text name, r.transform text name = r'.transform text name := by
  have same : ∀ e, e ∈ options.values.toList ↔ e ∈ values.toList := fun _ => entries.mem_iff
  have exposed : ∀ name v, Exposes environment name v ↔ Exposes environment' name v := by
    intro name v
    have distinct' := (environments.map Prod.fst).nodup_iff.1 distinct
    exact and_congr_right fun _ =>
      ⟨.of_perm environments distinct, .of_perm environments.symm distinct'⟩
  have left : make options environment = _ := make_eq options options.values environment
  rw [left, make_eq, Table.withEnvironment_eq, Table.withEnvironment_eq]
  have empty : "" ∈ options.values.keys ↔ "" ∈ values.keys := (entries.map Entry.key).mem_iff
  split
  · rename_i known
    rw [if_pos (empty.1 known)]
    exact .inl ⟨_, rfl, rfl⟩
  · rename_i absent
    rw [if_neg (empty.not.1 absent)]
    have agrees : (options.values.completed environment).Agrees (values.completed environment') := by
      apply Table.Completes.agrees _ _ same exposed
      · exact Table.completes_of_withEnvironment (Table.withEnvironment_eq_ok_iff.2 ⟨absent, rfl⟩)
      · exact Table.completes_of_withEnvironment
          (Table.withEnvironment_eq_ok_iff.2 ⟨empty.not.1 absent, rfl⟩)
    -- The filter is made from neither of what is permuted, so it fails in both or in none.
    cases Filter.ofPatterns options.included options.excluded options.baseDirectory with
    | error e => exact .inl ⟨e, rfl, rfl⟩
    | ok filter =>
      simp only [Except.bind]
      rcases Matcher.compile_of_agrees agrees options.matching with ⟨fails, fails'⟩ | ⟨m, m',
        compiled, compiled'⟩
      · rw [fails, fails']
        exact .inl ⟨.emptyKey, rfl, rfl⟩
      · have made := Matcher.madeFrom_of_compile compiled
        have made' := Matcher.madeFrom_of_compile compiled'
        rw [compiled, compiled']
        exact .inr ⟨_, _, rfl, rfl, Matcher.keys_perm_of_agrees made made' agrees,
          transform_eq_of_agrees made made' agrees filter options.sourceMaps⟩

theorem make_perm_two_keys :
    ∃ (options : Options Unit) (values : Table Unit) (r r' : Replacer Unit),
      options.values.toList = [⟨"K1", .ofString "x"⟩, ⟨"K2", .ofString "y"⟩] ∧
      values.toList = [⟨"K2", .ofString "y"⟩, ⟨"K1", .ofString "x"⟩] ∧
      make options [("NUXT_ENV_A", "1"), ("NUXT_ENV_B", "2")] = .ok r ∧
      make { options with values } [("NUXT_ENV_B", "2"), ("NUXT_ENV_A", "1")] = .ok r' ∧
      (r.transform "K2" "a.js").outcome () =
        (.ok (some ⟨"y", some ⟨[⟨.replaced, ⟨0, 1⟩, ⟨0, 2⟩⟩], 1, 2⟩⟩), ()) ∧
      r'.transform "K2" "a.js" = r.transform "K2" "a.js" := by
  let options : Options Unit :=
    { included := [], values := .ofList [("K1", .ofString "x"), ("K2", .ofString "y")] }
  let values : Table Unit := .ofList [("K2", .ofString "y"), ("K1", .ofString "x")]
  let environment := [("NUXT_ENV_A", "1"), ("NUXT_ENV_B", "2")]
  have entries : options.values.toList = [⟨"K1", .ofString "x"⟩, ⟨"K2", .ofString "y"⟩] :=
    Table.toList_ofList (by decide)
  have entries' : values.toList = [⟨"K2", .ofString "y"⟩, ⟨"K1", .ofString "x"⟩] :=
    Table.toList_ofList (by decide)
  have swapped : options.values.toList.Perm values.toList := by
    rw [entries, entries']
    exact .swap _ _ _
  have nonempty : "" ∉ options.values.keys := by
    rw [Table.keys, entries]
    decide
  obtain ⟨_, m, madeWith⟩ := Matcher.exists_madeWith nonempty environment ⟨none, true⟩
  have first : make options environment = .ok ⟨m, ⟨none, [], none⟩, true⟩ :=
    make_of_madeWith madeWith
  have configured : ⟨"K2", .literal (.string "y")⟩ ∈ options.values.toList := by
    rw [entries]
    exact .tail _ (.head _)
  have admitted : Filter.admits ⟨none, [], none⟩ "a.js" = true := by decide +kernel
  have outcome : (transform ⟨m, ⟨none, [], none⟩, true⟩ "K2" "a.js").outcome () =
      (.ok (some ⟨"y", some ⟨[⟨.replaced, ⟨0, 1⟩, ⟨0, 2⟩⟩], 1, 2⟩⟩), ()) :=
    transform_spelling madeWith configured (by decide) (fun _ => by decide +kernel) admitted true ()
  have environments : environment.Perm [("NUXT_ENV_B", "2"), ("NUXT_ENV_A", "1")] := .swap _ _ _
  rcases make_perm options swapped environments (by decide) with
    ⟨e, fails, -⟩ | ⟨r, r', made, made', -, same⟩
  · rw [first] at fails
    cases fails
  · obtain rfl := Except.ok.inj (first.symm.trans made)
    exact ⟨options, values, _, r', entries, entries', first, made', outcome, (same _ _).symm⟩

end Replacer

end KeySubst

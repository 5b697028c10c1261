import KeySubst.Proofs.Filter.Patterns
import KeySubst.Proofs.Matcher.Completed
import KeySubst.Proofs.Substitution.Tiling
import KeySubst.Replacer

namespace KeySubst

variable {σ : Type}

namespace Replacer

open Glob (IsFaulty WithinLimits)

variable {options : Options σ} {environment : List (String × String)}

theorem make_of_madeWith {m : Matcher σ} {table : Table σ}
    (made : m.MadeWith table options.values environment options.matching) :
    make options environment =
      (Filter.ofPatterns options.included options.excluded options.baseDirectory).map
        fun filter => ⟨m, filter, options.sourceMaps⟩ := by
  rw [make, made.completed]
  simp only [bind, Except.bind, made.compiled]
  cases Filter.ofPatterns options.included options.excluded options.baseDirectory <;> rfl

theorem make_of_empty (empty : "" ∈ options.values.keys) :
    make options environment = .error .emptyKey := by
  rw [make, Table.withEnvironment_eq, if_pos empty]
  rfl

theorem parts_of_make {r : Replacer σ} (made : make options environment = .ok r) :
    r.matcher.MadeWith r.matcher.table options.values environment options.matching ∧
      r.sourceMaps = options.sourceMaps := by
  rw [make] at made
  obtain ⟨table, completed, made⟩ := Error.exists_of_bind_ok made
  obtain ⟨filter, -, made⟩ := Error.exists_of_bind_ok made
  obtain ⟨m, compiled, made⟩ := Error.exists_of_bind_ok made
  cases made
  rw [(Matcher.madeFrom_of_compile compiled).table_eq]
  exact ⟨⟨completed, compiled⟩, rfl⟩

theorem keys_of_make {r : Replacer σ} (made : make options environment = .ok r) :
    options.values.withEnvironment environment = .ok r.matcher.table ∧
      r.keys.Perm r.matcher.table.keys ∧ "process.env" ∈ r.matcher.table.keys ∧
      r.matcher.table.isEmpty = false ∧ r.matcher.isEmpty = false := by
  obtain ⟨madeWith, -⟩ := parts_of_make made
  have member := Table.accessor_mem_of_withEnvironment madeWith.completed
  refine ⟨madeWith.completed, madeWith.madeFrom.keys_perm, member, ?_, madeWith.isEmpty_eq⟩
  simpa [Table.isEmpty, Table.keys, Table.toList] using List.ne_nil_of_mem member

/-- A replacer puts a literal in place of its key where nothing else stands in the text. -/
theorem transform_spelling {m : Matcher σ} {table values : Table σ} {options : MatchOptions}
    (made : m.MadeWith table values environment options) {key : String} {l : Literal}
    (configured : ⟨key, .literal l⟩ ∈ values.toList) (short : key.utf8ByteSize < 12)
    (edges : options.delimiters = none → Text.isByteEdge (options.spelling key) 0 = true ∧
      Text.isByteEdge (options.spelling key) (options.spelling key).utf8ByteSize = true)
    {filter : Filter} {name : String} (admitted : filter.admits name = true) (sourceMaps : Bool)
    (s : σ) :
    (transform ⟨m, filter, sourceMaps⟩ (options.spelling key) name).outcome s =
      (.ok (some (.ofPieces
        [⟨.replaced, l.text.toList, ⟨0, (options.spelling key).utf8ByteSize⟩⟩]
        (options.spelling key).toList sourceMaps)), s) := by
  have stored := made.completes.mem_of_short configured short
  rw [transform, if_neg (by simp [made.isEmpty_eq, includes, admitted])]
  exact Matcher.substitute_spelling made.madeFrom stored (.of_spelling options key edges)
    sourceMaps s

/-- Making a replacer fails if a configured key is empty, whatever the patterns are, and otherwise
for the first pattern that is no glob. If there is neither, and unless globs nest too deep, a
replacer is made; no empty key comes up on the way, and its keys are those of the completed table,
the bare accessor among them. -/
theorem make_outcome (options : Options σ) (environment : List (String × String)) :
    ("" ∈ options.values.keys → make options environment = .error .emptyKey) ∧
    ("" ∉ options.values.keys → WithinLimits options.included →
      (∀ before pattern after glob fault,
        options.included ++ options.excluded = before ++ pattern :: after →
        (∀ other ∈ before, ¬ IsFaulty other) → Glob.Faulty pattern glob fault →
        make options environment = .error (.invalidGlob pattern glob fault)) ∧
      ((∀ pattern ∈ options.included ++ options.excluded, ¬ IsFaulty pattern) →
        WithinLimits options.excluded → ∃ r, make options environment = .ok r)) ∧
    (∀ table, options.values.withEnvironment environment = .ok table →
      "" ∉ table.keys ∧ ∃ m, Matcher.compile table options.matching = .ok m) ∧
    ∀ r, make options environment = .ok r →
      ∃ table, options.values.withEnvironment environment = .ok table ∧ r.matcher.table = table ∧
        r.keys.Perm table.keys ∧ "process.env" ∈ table.keys ∧ table.isEmpty = false ∧
        r.matcher.isEmpty = false := by
  refine ⟨make_of_empty, fun nonempty within => ?_, fun table completed => ?_, fun r made => ?_⟩
  · obtain ⟨_, _, made⟩ := Matcher.exists_madeWith nonempty environment options.matching
    rw [make_of_madeWith made]
    constructor
    · intro before pattern after glob fault split earlier faulty
      rw [Filter.ofPatterns_of_faulty split earlier faulty within]
      rfl
    · intro good within'
      obtain ⟨filter, read⟩ := Filter.exists_ofPatterns good within within' options.baseDirectory
      rw [read]
      exact ⟨_, rfl⟩
  · have nonempty := Table.nonempty_of_withEnvironment completed
    exact ⟨fun empty => nonempty _ empty rfl, Matcher.exists_compile nonempty options.matching⟩
  · obtain ⟨completed, keys⟩ := keys_of_make made
    exact ⟨_, completed, rfl, keys⟩

theorem make_outcome_second_pattern :
    let options : Options Unit := { included := ["src/*.js"], excluded := ["././[a", "\\"] }
    let unnamed : Table Unit := .ofList [("", .ofString "x")]
    let environment := [("NUXT_ENV_A", "1")]
    make options environment = .error (.invalidGlob "././[a" "[a" .unclosedSet) ∧
      make { options with values := unnamed } environment = .error .emptyKey ∧
      ∃ r, make { options with excluded := [] } environment = .ok r ∧ "process.env" ∈ r.keys := by
  intro options unnamed environment
  have shallow : (Glob.parsePattern "src/*.js").toOption.any
      (fun glob => (Glob.excess? [glob]).isNone) = true := by decide +kernel
  have within : WithinLimits ["src/*.js"] := by
    rintro _ (_ | ⟨reads, _ | _⟩)
    simpa [Glob.parsePattern_eq_ok_iff.2 reads, Except.toOption] using shallow
  have within' : WithinLimits [] := by
    rintro _ ⟨⟩
    rfl
  have good : ¬ IsFaulty "src/*.js" := by
    rintro ⟨glob, fault, faulty⟩
    simp [Glob.parsePattern_of_faulty faulty, Except.toOption] at shallow
  have faulty : Glob.Faulty "././[a" "[a" .unclosedSet := ⟨⟨2, rfl, by decide⟩, by cbv⟩
  have known : "" ∈ unnamed.keys := by
    rw [Table.keys_ofList (by decide)]
    simp
  obtain ⟨-, outcome, -⟩ := make_outcome options environment
  obtain ⟨empty, -⟩ := make_outcome { options with values := unnamed } environment
  obtain ⟨-, succeeds, -, keys⟩ := make_outcome { options with excluded := [] } environment
  refine ⟨(outcome (by decide) within).1 ["src/*.js"] _ ["\\"] _ _ rfl (by simpa using good) faulty,
    empty known, ?_⟩
  have all : ∀ pattern ∈ ["src/*.js"] ++ [], ¬ IsFaulty pattern := by simpa using good
  obtain ⟨r, made⟩ := (succeeds (by decide) within).2 all within'
  obtain ⟨table, -, -, permuted, member, -⟩ := keys r made
  exact ⟨r, made, permuted.mem_iff.2 member⟩

end Replacer

end KeySubst

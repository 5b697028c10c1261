import KeySubst.Proofs.CommandLine.Results
import KeySubst.Proofs.Replacer.Literals

/-!
# Runs that end at a file

What a run does is told file by file: each file is read as the files before it left the workspace,
and what comes of it is printed or written.
-/

namespace KeySubst.CommandLine

variable {outDir : String} {w w' : Workspace}

/-- Texts are written in order, each to its path, and nothing goes wrong. -/
inductive Writes : Workspace → List (String × String) → Workspace → Prop
  | nil {w : Workspace} : Writes w [] w
  | cons {w w' : Workspace} {path text : String} {others : List (String × String)}
      (wrote : w.result (writeBelow path text) = .ok ())
      (later : Writes (w.after (writeBelow path text)) others w') :
      Writes w ((path, text) :: others) w'

def Job.outputs (job : Job) (file text : String) (outcome : Option Substitution) :
    List (String × String) :=
  match job.outDir with
  | none => []
  | some outDir =>
    if job.changedOnly = true ∧ outcome = none then []
    else CommandLine.outputs job.directory outDir file text outcome

def Job.shown (job : Job) (text : String) (outcome : Option Substitution) : String :=
  if job.outDir.isSome then ""
  else outcome.elim (if job.changedOnly then "" else text) Substitution.code

/-- Files are processed in order: each is read as it stands when it is reached, the text that is
printed for it is added, and the texts for it are written. -/
inductive Processed (job : Job) (results : String → String → Option Substitution) :
    Workspace → List String → String → Workspace → Prop
  | nil {w : Workspace} : Processed job results w [] "" w
  | cons {w w' w'' : Workspace} {file text printed : String} {files : List String}
      (read : w.tree.read w.directory file = .ok text)
      (writes : Writes w (job.outputs file text (results text file)) w')
      (later : Processed job results w' files printed w'') :
      Processed job results w (file :: files) (job.shown text (results text file) ++ printed) w''

theorem deliver_eq_ok_iff {directory file text : String} {outcome : Option Substitution} :
    let delivery := deliver (targetOf directory outDir file) file text outcome
    (w.result delivery = .ok () ∧ w.after delivery = w') ↔
      Writes w (outputs directory outDir file text outcome) w' := by
  rw [outputs]
  generalize targetOf directory outDir file = target
  cases outcome with
  | none =>
    constructor
    · rintro ⟨done, rfl⟩
      exact .cons done .nil
    · rintro (_ | ⟨done, last⟩)
      cases last
      exact ⟨done, rfl⟩
  | some result =>
    rw [deliver, writeOutcome, Option.bind_some, ← sourceMap?]
    constructor
    · rintro ⟨done, rfl⟩
      obtain ⟨_, wrote, done, after⟩ := Workspace.ok_of_result_bind (by rintro _ _ ⟨⟩) done
      rw [after]
      refine .cons wrote ?_
      cases made : sourceMap? file text result with
      | none =>
        simp only [Workspace.after_pure]
        exact .nil
      | some document =>
        simp only [made] at done ⊢
        exact .cons done .nil
    · rintro (_ | ⟨wrote, later⟩)
      change w.result (writeBelow target result.code) = .ok () at wrote
      change Writes (w.after (writeBelow target result.code)) _ w' at later
      rw [Workspace.result_bind_of_result wrote, Workspace.after_bind_of_result wrote]
      cases made : sourceMap? file text result with
      | none =>
        rw [made] at later
        cases later
        exact ⟨rfl, Workspace.after_pure _ _⟩
      | some document =>
        rw [made] at later
        obtain _ | ⟨wrote', last⟩ := later
        cases last
        exact ⟨wrote', rfl⟩

theorem transformFile_of_writes {job : Job} {file text : String} {outcome : Option Substitution}
    (read : w.tree.read w.directory file = .ok text)
    (ran : evaluate (job.replacer.transform text file) = .ok outcome)
    (writes : Writes w (job.outputs file text outcome) w') :
    w.result (transformFile job file) = .ok (job.shown text outcome) ∧
      w.after (transformFile job file) = w' := by
  rw [Job.outputs] at writes
  cases output : job.outDir with
  | none =>
    rw [output] at writes
    cases writes
    rw [transformFile, Workspace.result_read_bind, Workspace.after_read_bind, read]
    simp only [ran, output, Job.shown]
    cases outcome <;> exact ⟨rfl, rfl⟩
  | some outDir =>
    have silent : job.shown text outcome = "" := by simp [Job.shown, output]
    rw [output] at writes
    simp only at writes
    rw [silent]
    by_cases skipped : job.changedOnly = true ∧ outcome = none
    · obtain ⟨changed, rfl⟩ := skipped
      rw [if_pos ⟨changed, rfl⟩] at writes
      cases writes
      rw [transformFile, Workspace.result_read_bind, Workspace.after_read_bind, read]
      simp only [ran, output, changed]
      exact ⟨rfl, rfl⟩
    · rw [if_neg skipped] at writes
      obtain ⟨delivered, rfl⟩ := deliver_eq_ok_iff.2 writes
      have kept : job.changedOnly = false ∨ outcome ≠ none := by
        rw [← Bool.not_eq_true]
        exact not_and_or.1 skipped
      obtain ⟨result, after⟩ := transformFile_eq output kept read ran
      rw [result, delivered]
      exact ⟨rfl, after⟩

theorem transformFile_of_unreadable {file : String} {failure : SystemError}
    (read : w.tree.read w.directory file = .error failure) (job : Job) :
    w.result (transformFile job file) =
        .error (.ofSystem ("Failed to read " ++ file) failure) ∧
      w.after (transformFile job file) = w := by
  rw [transformFile, Workspace.result_read_bind, Workspace.after_read_bind, read]
  exact ⟨rfl, rfl⟩

/-! ### Several files -/

section

variable {job : Job} {results : String → String → Option Substitution} {before : List String}
  {added : String}

theorem Processed.continues (processed : Processed job results w before added w')
    (ran : ∀ text name, evaluate (job.replacer.transform text name) = .ok (results text name))
    (printed : String) (files : List String) :
    w.result (transformAll job printed (before ++ files)) =
        w'.result (transformAll job (printed ++ added) files) ∧
      w.after (transformAll job printed (before ++ files)) =
        w'.after (transformAll job (printed ++ added) files) := by
  induction processed generalizing printed with
  | nil =>
    rw [String.append_empty]
    exact ⟨rfl, rfl⟩
  | @cons w w₁ _ file text added before read writes _ ih =>
    obtain ⟨step, after⟩ := transformFile_of_writes read (ran text file) writes
    rw [← String.append_assoc, List.cons_append, transformAll,
      Workspace.result_bind_of_result step, Workspace.after_bind_of_result step, after]
    exact ih _

theorem Processed.finishes (processed : Processed job results w before added w')
    (ran : ∀ text name, evaluate (job.replacer.transform text name) = .ok (results text name)) :
    w.result (transformAll job "" before) = (added, none) ∧
      w.after (transformAll job "" before) = w' := by
  have run := processed.continues ran "" []
  rw [List.append_nil, String.empty_append] at run
  exact run

theorem Processed.stops (processed : Processed job results w before added w')
    (ran : ∀ text name, evaluate (job.replacer.transform text name) = .ok (results text name))
    {file : String} {failure : SystemError}
    (read : w'.tree.read w'.directory file = .error failure) (after : List String) :
    w.result (transformAll job "" (before ++ file :: after)) =
        (added, some (.ofSystem ("Failed to read " ++ file) failure)) ∧
      w.after (transformAll job "" (before ++ file :: after)) = w' := by
  obtain ⟨result, left⟩ := processed.continues ran "" (file :: after)
  obtain ⟨fails, unchanged⟩ := transformFile_of_unreadable read job
  rw [result, left, String.empty_append, transformAll,
    Workspace.result_bind_of_result fails, Workspace.after_bind_of_result fails, unchanged]
  exact ⟨rfl, rfl⟩

theorem Processed.printed_eq (processed : Processed job results w before added w')
    (noOutput : job.outDir = none) :
    w' = w ∧ ∃ texts,
      List.Forall₂ (fun file text => w.tree.read w.directory file = .ok text) before texts ∧
        added = String.join (List.zipWith
          (fun file text =>
            (results text file).elim (if job.changedOnly then "" else text) Substitution.code)
          before texts) := by
  induction processed with
  | nil => exact ⟨rfl, [], .nil, rfl⟩
  | @cons w w₁ _ file text added before read writes _ ih =>
    simp only [Job.outputs, noOutput] at writes
    cases writes
    obtain ⟨rfl, texts, reads, rfl⟩ := ih
    refine ⟨rfl, text :: texts, .cons read reads, ?_⟩
    rw [List.zipWith_cons_cons, String.join_cons, Job.shown, noOutput]
    rfl

end

/-! ### Runs -/

theorem override_literals {options : Options Unit} (literals : options.values.Literals)
    (a : Arguments) : (override options a).values.Literals := by
  refine literals.insertAll fun pair member => ?_
  obtain ⟨_, -, rfl⟩ := List.mem_map.1 member
  exact ⟨_, rfl⟩

theorem resolve_literals {s : Surroundings} {a : Arguments} {loaded : LoadedOptions Unit}
    (resolved : w.result (resolve s a) = .ok loaded) : loaded.options.values.Literals := by
  rw [resolve] at resolved
  split at resolved
  · rename_i path _
    cases read : w.result (Options.loadFile path s.directory) with
    | error fault =>
      rw [Workspace.result_bind_of_result read] at resolved
      cases resolved
    | ok l =>
      rw [Workspace.result_bind_of_result read] at resolved
      cases resolved
      exact override_literals (Options.loads_loadFile read).literals a
  · cases read : w.result (Options.load s.directory s.home?) with
    | error fault =>
      rw [Workspace.result_bind_of_result read] at resolved
      cases resolved
    | ok l =>
      rw [Workspace.result_bind_of_result read] at resolved
      cases resolved
      obtain ⟨found, loads⟩ := Options.exists_loads read
      exact override_literals loads.literals a

theorem exists_results {s : Surroundings} {a : Arguments} {loaded : LoadedOptions Unit}
    {r : Replacer Unit} (prepared : w.result (prepare s a) = .ok (loaded, r)) :
    ∃ results : String → String → Option Substitution,
      ∀ text name, evaluate (r.transform text name) = .ok (results text name) := by
  obtain ⟨resolved, made⟩ := prepare_eq_ok_iff.1 prepared
  have each : ∀ text name, ∃ outcome, evaluate (r.transform text name) = .ok outcome := by
    intro text name
    obtain ⟨outcome, ran⟩ := Replacer.exists_outcome made (resolve_literals resolved) text name ()
    exact ⟨outcome, congrArg Prod.fst ran⟩
  choose results ran using each
  exact ⟨results, ran⟩

def Arguments.withFiles (a : Arguments) (files : List String) : Arguments :=
  { a with given := { a.given with files } }

/-- Files that are processed up to one that cannot be read are all that a run deals with: it fails,
and prints and leaves what it would with them alone. Files that are all processed make it succeed,
and without an output directory it prints a text for each of them and leaves everything as it is. -/
theorem transformFiles_processed {s : Surroundings} {a : Arguments} {loaded : LoadedOptions Unit}
    {r : Replacer Unit} (prepared : w.result (prepare s a) = .ok (loaded, r)) :
    let job : Job := ⟨r, s.directory, a.given.outDir, a.has .changedOnly⟩
    ∃ results : String → String → Option Substitution,
      (∀ text name, evaluate (r.transform text name) = .ok (results text name)) ∧
      (∀ before file after failure printed w', a.given.files = before ++ file :: after →
        Processed job results w before printed w' →
        w'.tree.read w'.directory file = .error failure →
          w.result (transformFiles s a) =
            .failure printed (.ofSystem ("Failed to read " ++ file) failure) ∧
          w.after (transformFiles s a) = w' ∧
          w.result (transformFiles s (a.withFiles before)) = .success printed ∧
          w.after (transformFiles s (a.withFiles before)) = w' ∧
          (before = [] → printed = "" ∧ w' = w)) ∧
      (∀ printed w', Processed job results w a.given.files printed w' →
        w.result (transformFiles s a) = .success printed ∧ w.after (transformFiles s a) = w' ∧
          (a.given.outDir = none → w' = w ∧ ∃ texts,
            List.Forall₂ (fun file text => w.tree.read w.directory file = .ok text)
              a.given.files texts ∧
            printed = String.join (List.zipWith
              (fun file text =>
                (results text file).elim (if a.has .changedOnly then "" else text)
                  Substitution.code)
              a.given.files texts))) ∧
      ∀ args files, Arguments.read args = .ok (a.withFiles files) → a.has .init = false →
        a.action = none → files ≠ [] →
          (run s args : StateM Workspace Outcome) = transformFiles s (a.withFiles files) := by
  intro job
  obtain ⟨results, ran⟩ := exists_results prepared
  obtain ⟨left, outcome⟩ := outcome_of_prepare prepared
  refine ⟨results, ran, ?_, ?_, ?_⟩
  · intro before file after failure printed w' split processed read
    obtain ⟨stops, unchanged⟩ := processed.stops ran read after
    obtain ⟨done, same⟩ := processed.finishes ran
    -- Preparing does not look at the files.
    have prepared' : w.result (prepare s (a.withFiles before)) = .ok (loaded, r) := prepared
    obtain ⟨left', outcome'⟩ := outcome_of_prepare prepared'
    rw [left, outcome, left', outcome', split]
    refine ⟨congrArg Outcome.ofAll stops, unchanged, congrArg Outcome.ofAll done, same, ?_⟩
    rintro rfl
    cases processed
    exact ⟨rfl, rfl⟩
  · intro printed w' processed
    obtain ⟨done, same⟩ := processed.finishes ran
    rw [left, outcome]
    exact ⟨congrArg Outcome.ofAll done, same, processed.printed_eq⟩
  · exact fun args files read noInit transforms some_file =>
      run_eq_transformFiles read noInit transforms some_file

/-- The second file is a directory by the time it is reached: the first one's result lies in it. -/
theorem transformFiles_processed_directory :
    let args := ["--out-dir", "out", "--set", "KEY=one", "src/a.js", "out/src", "b.js"]
    let w' := sample.after (run sampleSurroundings args)
    sample.tree.read sample.directory "out/src" = .error .notFound ∧
      sample.result (run sampleSurroundings args) =
        .failure "" (.ofSystem "Failed to read out/src" .isDirectory) ∧
      w'.tree.read w'.directory "out/src/a.js" = .ok "one" ∧
      w' = sample.after (run sampleSurroundings
        ["--out-dir", "out", "--set", "KEY=one", "src/a.js"]) := by
  intro args w'
  let delivery := deliver (targetOf "/w" "out" "src/a.js") "src/a.js" "KEY" (some sampleResult)
  let files := ["src/a.js", "out/src", "b.js"]
  have given : Arguments.read args = .ok (sampleArguments files) := rfl
  have given' : Arguments.read ["--out-dir", "out", "--set", "KEY=one", "src/a.js"] =
      .ok ((sampleArguments files).withFiles ["src/a.js"]) := rfl
  obtain ⟨loaded, r, prepared, -, changed, -⟩ := sample_prepared files
  obtain ⟨results, ran, stops, -, runs⟩ := transformFiles_processed prepared
  have result : results "KEY" "src/a.js" = some sampleResult :=
    Except.ok.inj ((ran "KEY" "src/a.js").symm.trans changed)
  have key : sample.tree.read sample.directory "src/a.js" = .ok "KEY" := by decide +kernel
  have delivered : sample.result delivery = .ok () := by decide +kernel
  have processed : Processed ⟨r, "/w", some "out", false⟩ results sample ["src/a.js"] ""
      (sample.after delivery) := by
    refine .cons key ?_ .nil
    rw [result]
    exact deliver_eq_ok_iff.1 ⟨delivered, rfl⟩
  obtain ⟨outcome, left, -, left', -⟩ := stops ["src/a.js"] "out/src" ["b.js"] .isDirectory ""
    (sample.after delivery) rfl processed (by decide +kernel)
  have same : w' = sample.after delivery := by
    rw [← left]
    exact congrArg sample.after (runs args files given rfl rfl (List.cons_ne_nil _ _))
  refine ⟨by decide +kernel, ?_, ?_, ?_⟩
  · rw [runs args files given rfl rfl (List.cons_ne_nil _ _)]
    exact outcome
  · rw [same]
    decide +kernel
  · rw [same, runs _ _ given' rfl rfl (List.cons_ne_nil _ _)]
    exact left'.symm

end KeySubst.CommandLine

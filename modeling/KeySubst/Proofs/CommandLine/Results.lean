import KeySubst.Proofs.CommandLine.Output
import KeySubst.Proofs.Replacer.Making
import KeySubst.Proofs.SourceMap.Decoded
import KeySubst.Proofs.Substitution.Locality

namespace KeySubst.CommandLine

open Workspace (Edits)
open KeySubst.Path (Below Around)

variable {outDir : String} {w w' w'' : Workspace}

/-- Texts are written below a directory, each to a path, and of every path the last one stays. -/
structure Leaves (outDir : String) (written : List (String × String)) (w w' : Workspace) :
    Prop where
  edits : Edits (· ∈ written.map Prod.fst) (Around outDir) w w'
  below : ∀ path ∈ written.map Prod.fst, Below outDir path
  held : ∀ before path text after, written = before ++ (path, text) :: after →
    path ∉ after.map Prod.fst → w'.tree.read w'.directory path = .ok text

theorem Leaves.nil : Leaves outDir [] w w :=
  ⟨Edits.refl w, by simp, by simp⟩

theorem Leaves.read_of_read {written : List (String × String)} {path text : String}
    (leaves : Leaves outDir written w w') (below : Below outDir path)
    (apart : path ∉ written.map Prod.fst) (read : w.tree.read w.directory path = .ok text) :
    w'.tree.read w'.directory path = .ok text := by
  obtain ⟨place, content, located, file, -⟩ := FileTree.exists_of_read read
  have same : w'.tree.node? place = w.tree.node? place := by
    refine leaves.edits.file_eq file fun other listed there => apart ?_
    rw [FileTree.locate_place located] at there
    rwa [← (leaves.below other listed).eq_of_place below there]
  rw [leaves.edits.directory, FileTree.read_of_keeps leaves.edits.keeps located same, read]

theorem Leaves.append {first second : List (String × String)} (leaves : Leaves outDir first w w')
    (leaves' : Leaves outDir second w' w'') : Leaves outDir (first ++ second) w w'' := by
  have left : ∀ path ∈ first.map Prod.fst, path ∈ (first ++ second).map Prod.fst := by
    rw [List.map_append]
    exact fun path => List.mem_append_left _
  have right : ∀ path ∈ second.map Prod.fst, path ∈ (first ++ second).map Prod.fst := by
    rw [List.map_append]
    exact fun path => List.mem_append_right _
  refine ⟨(leaves.edits.mono left).trans (leaves'.edits.mono right), ?_, ?_⟩
  · rw [List.map_append]
    exact List.forall_mem_append.2 ⟨leaves.below, leaves'.below⟩
  · -- Either the text is one of the second part, or none of those goes to its path.
    intro before path text after split last
    rcases List.append_eq_append_iff.1 split with ⟨more, -, inner⟩ | ⟨more, inner, rest⟩
    · exact leaves'.held more path text after inner last
    · cases more with
      | nil => exact leaves'.held [] path text after rest.symm last
      | cons entry more =>
        obtain ⟨rfl, rfl⟩ := List.cons.inj rest
        have apart : path ∉ (more ++ second).map Prod.fst := last
        rw [List.map_append, List.mem_append, not_or] at apart
        obtain ⟨earlier, later⟩ := apart
        have listed : path ∈ first.map Prod.fst := by
          rw [inner]
          simp
        exact leaves'.read_of_read (leaves.below path listed) later
          (leaves.held before path text more inner earlier)

theorem writeBelow_leaves {path text : String} (below : Below outDir path)
    (done : w.result (writeBelow path text) = .ok ()) :
    Leaves outDir [(path, text)] w (w.after (writeBelow path text)) := by
  refine ⟨(writeBelow_ensures below (by simp) text w).1, by simpa using below, ?_⟩
  have held : (w.after (writeBelow path text)).tree.read
      (w.after (writeBelow path text)).directory path = .ok text := by
    rw [writeBelow] at done ⊢
    obtain ⟨_, -, done, after⟩ := Workspace.ok_of_result_bind (by rintro _ _ ⟨⟩) done
    obtain ⟨_, wrote, -, after'⟩ := Workspace.ok_of_result_bind (by rintro _ _ ⟨⟩) done
    rw [after, after', Workspace.after_pure]
    exact Workspace.read_after_write wrote
  intro before other text' later split last
  cases before with
  | nil =>
    cases split
    exact held
  | cons entry before => simp at split

def sourceMap? (file text : String) (result : Substitution) : Option SourceMap :=
  result.map.bind fun map => SourceMap.ofPositionMap? map file text result.code

def targetOf (directory outDir file : String) : String :=
  Path.join outDir (outputPath directory file)

def outputs (directory outDir file text : String) (outcome : Option Substitution) :
    List (String × String) :=
  let target := targetOf directory outDir file
  let companion := (outcome.bind (sourceMap? file text)).map fun document =>
    (target ++ ".map", (document.withFile ((Path.fileName? target).getD "")).toJson)
  (target, Substitution.codeOr text outcome) :: companion.toList

def deliver (target file text : String) :
    Option Substitution → StateM Workspace (Except Failure Unit)
  | some result => writeOutcome target file text result
  | none => writeBelow target text

theorem deliver_leaves {directory file text : String} {outcome : Option Substitution}
    (below : Below outDir (targetOf directory outDir file))
    (done : w.result (deliver (targetOf directory outDir file) file text outcome) = .ok ()) :
    Leaves outDir (outputs directory outDir file text outcome) w
      (w.after (deliver (targetOf directory outDir file) file text outcome)) := by
  rw [outputs]
  generalize targetOf directory outDir file = target at below done ⊢
  cases outcome with
  | none => exact writeBelow_leaves below done
  | some result =>
    rw [deliver, writeOutcome] at done ⊢
    obtain ⟨_, wrote, done, after⟩ := Workspace.ok_of_result_bind (by rintro _ _ ⟨⟩) done
    have first := writeBelow_leaves below wrote
    rw [← sourceMap?] at done
    rw [after, ← sourceMap?, Option.bind_some]
    cases made : sourceMap? file text result with
    | none =>
      simp only [Workspace.after_pure]
      exact first
    | some document =>
      simp only [made] at done
      exact first.append (writeBelow_leaves below.append_map done)

theorem transformFile_eq {job : Job} {file text : String} {outcome : Option Substitution}
    (output : job.outDir = some outDir) (kept : job.changedOnly = false ∨ outcome ≠ none)
    (read : w.tree.read w.directory file = .ok text)
    (ran : evaluate (job.replacer.transform text file) = .ok outcome) :
    let delivery := deliver (targetOf job.directory outDir file) file text outcome
    w.result (transformFile job file) = (w.result delivery).map (fun _ => "") ∧
      w.after (transformFile job file) = w.after delivery := by
  rw [transformFile, Workspace.result_read_bind, Workspace.after_read_bind, read]
  simp only
  rw [ran, output]
  cases outcome with
  | none =>
    have all : job.changedOnly = false := kept.resolve_right (by simp)
    simp only [all, Bool.false_eq_true, if_false, deliver]
    exact ⟨Workspace.result_bind_pure _ _ _, Workspace.after_bind_pure _ _ _⟩
  | some result =>
    simp only [deliver]
    exact ⟨Workspace.result_bind_pure _ _ _, Workspace.after_bind_pure _ _ _⟩

theorem transformFile_leaves {job : Job} {file printed : String} (output : job.outDir = some outDir)
    (all : job.changedOnly = false) (stands : Stands job.directory w)
    (done : w.result (transformFile job file) = .ok printed) :
    ∃ text outcome, w.tree.read w.directory file = .ok text ∧
      evaluate (job.replacer.transform text file) = .ok outcome ∧
      Leaves outDir (outputs job.directory outDir file text outcome) w
        (w.after (transformFile job file)) := by
  cases read : w.tree.read w.directory file with
  | error failure =>
    rw [transformFile, Workspace.result_read_bind, read] at done
    cases done
  | ok text =>
    cases ran : evaluate (job.replacer.transform text file) with
    | error failure =>
      rw [transformFile, Workspace.result_read_bind, read] at done
      simp only [ran] at done
      cases done
    | ok outcome =>
      obtain ⟨result, after⟩ := transformFile_eq output (.inl all) read ran
      have below : Below outDir (targetOf job.directory outDir file) :=
        ⟨_, isPlain_of_read stands read, rfl⟩
      rw [after]
      cases delivered :
          w.result (deliver (targetOf job.directory outDir file) file text outcome) with
      | error failure =>
        rw [result, delivered] at done
        cases done
      | ok _ => exact ⟨text, outcome, rfl, ran, deliver_leaves below delivered⟩

/-- A path that leads to a file that does not lie below a directory. -/
def IsInput (outDir : String) (w : Workspace) (file : String) : Prop :=
  ∃ place content, w.tree.locate w.directory file = .ok place ∧
    w.tree.node? place = some (.file content) ∧ ¬ Path.place w.directory outDir <+: place

theorem IsInput.of_edits {files directories : String → Prop} {file : String}
    (edits : Edits files directories w w') (below : ∀ path, files path → Below outDir path)
    (input : IsInput outDir w file) : IsInput outDir w' file ∧
      w'.tree.read w'.directory file = w.tree.read w.directory file := by
  obtain ⟨place, content, located, node, outside⟩ := input
  have same : w'.tree.node? place = w.tree.node? place := by
    refine edits.file_eq node fun path kind there => outside ?_
    rw [← there]
    exact (below path kind).prefix_place w.directory
  refine ⟨⟨place, content, ?_, same.trans node, ?_⟩, ?_⟩
  · rw [edits.directory]
    exact FileTree.locate_of_keeps edits.keeps located
  · rw [edits.directory]
    exact outside
  · rw [edits.directory, FileTree.read_of_keeps edits.keeps located same]

def written (r : Replacer Unit) (directory outDir : String) (w : Workspace) (file : String) :
    List (String × String) :=
  match w.tree.read w.directory file with
  | .error _ => []
  | .ok text =>
    match evaluate (r.transform text file) with
    | .error _ => []
    | .ok outcome => outputs directory outDir file text outcome

theorem written_of_read {r : Replacer Unit} {directory file text : String}
    {outcome : Option Substitution} (read : w.tree.read w.directory file = .ok text)
    (ran : evaluate (r.transform text file) = .ok outcome) :
    written r directory outDir w file = outputs directory outDir file text outcome := by
  simp only [written, read, ran]

theorem written_congr {r : Replacer Unit} {directory file : String}
    (same : w'.tree.read w'.directory file = w.tree.read w.directory file) :
    written r directory outDir w' file = written r directory outDir w file := by
  rw [written, same]
  rfl

theorem transformAll_leaves {job : Job} {files : List String} {printed : String}
    (output : job.outDir = some outDir) (all : job.changedOnly = false)
    (stands : Stands job.directory w) (inputs : ∀ file ∈ files, IsInput outDir w file)
    (done : (w.result (transformAll job printed files)).2 = none) :
    (∀ file ∈ files, ∃ text outcome, w.tree.read w.directory file = .ok text ∧
        evaluate (job.replacer.transform text file) = .ok outcome) ∧
      Leaves outDir (files.flatMap (written job.replacer job.directory outDir w)) w
        (w.after (transformAll job printed files)) := by
  induction files generalizing printed w with
  | nil => exact ⟨by simp, Leaves.nil⟩
  | cons file files ih =>
    obtain ⟨-, inputs⟩ := List.forall_mem_cons.1 inputs
    rw [transformAll] at done ⊢
    cases step : w.result (transformFile job file) with
    | error failure =>
      rw [Workspace.result_bind_of_result step] at done
      cases done
    | ok shown =>
      obtain ⟨text, outcome, read, ran, leaves⟩ := transformFile_leaves output all stands step
      rw [Workspace.result_bind_of_result step] at done
      rw [Workspace.after_bind_of_result step]
      generalize w.after (transformFile job file) = w₁ at done leaves ⊢
      -- The other files lie elsewhere, so they are read as in the beginning.
      have kept : ∀ other ∈ files, IsInput outDir w₁ other ∧
          w₁.tree.read w₁.directory other = w.tree.read w.directory other :=
        fun other member => (inputs other member).of_edits leaves.edits leaves.below
      obtain ⟨others, rest⟩ := ih (stands.of_edits leaves.edits)
        (fun other member => (kept other member).1) done
      have same : files.flatMap (written job.replacer job.directory outDir w₁) =
          files.flatMap (written job.replacer job.directory outDir w) := by
        simp only [List.flatMap_def]
        rw [List.map_congr_left fun other member => written_congr (kept other member).2]
      refine ⟨List.forall_mem_cons.2 ⟨⟨text, outcome, read, ran⟩, fun other member => ?_⟩, ?_⟩
      · rw [← (kept other member).2]
        exact others other member
      · rw [List.flatMap_cons, written_of_read read ran, ← same]
        exact leaves.append rest

theorem prepare_eq_ok_iff {s : Surroundings} {a : Arguments} {loaded : LoadedOptions Unit}
    {r : Replacer Unit} :
    w.result (prepare s a) = .ok (loaded, r) ↔
      w.result (resolve s a) = .ok loaded ∧
        Replacer.make loaded.options s.environment = .ok r := by
  rw [prepare]
  constructor
  · intro prepared
    obtain ⟨loaded', resolved, made, -⟩ :=
      Workspace.ok_of_result_bind (by rintro _ _ ⟨⟩) prepared
    cases maker : Replacer.make loaded'.options s.environment with
    | error fault =>
      simp only [maker] at made
      cases made
    | ok r' =>
      simp only [maker] at made
      cases made
      exact ⟨resolved, maker⟩
  · rintro ⟨resolved, made⟩
    rw [Workspace.result_bind_of_result resolved]
    simp only [made]
    rfl

theorem make_of_prepare {s : Surroundings} {a : Arguments} {loaded : LoadedOptions Unit}
    {r : Replacer Unit} (prepared : w.result (prepare s a) = .ok (loaded, r)) :
    Replacer.make loaded.options s.environment = .ok r :=
  (prepare_eq_ok_iff.1 prepared).2

theorem exists_sourceMap {options : Options Unit} {environment : List (String × String)}
    {r : Replacer Unit} (made : Replacer.make options environment = .ok r)
    (maps : options.sourceMaps = true) {file text : String} {result : Substitution}
    (ran : evaluate (r.transform text file) = .ok (some result)) :
    ∃ document, sourceMap? file text result = some document := by
  obtain ⟨madeWith, same⟩ := Replacer.parts_of_make made
  have outcome : (r.transform text file).outcome () = (.ok (some result), ()) := Prod.ext ran rfl
  rw [Replacer.transform, same, maps] at outcome
  split at outcome
  · cases outcome
  · obtain ⟨_, pieces, -, cut, rfl⟩ :=
      Matcher.produced_of_substitute madeWith.madeFrom outcome
    obtain ⟨document, -, written, -⟩ := (cut.fit rfl).decode?_eq_some file
    exact ⟨document, written⟩

theorem run_eq_transformFiles {s : Surroundings} {args : List String} {a : Arguments}
    (read : Arguments.read args = .ok a) (noInit : a.has .init = false)
    (transforms : a.action = none) (some_file : a.given.files ≠ []) :
    (run s args : StateM Workspace Outcome) = transformFiles s a := by
  rw [run, read]
  simp only
  rw [perform, if_neg (by simp [noInit]), transforms]
  simp [some_file]

def Outcome.ofAll : String × Option Failure → Outcome
  | (printed, some failure) => .failure printed failure
  | (printed, none) => .success printed

theorem Outcome.exit_ofAll (done : String × Option Failure) :
    (ofAll done).exit = 0 ↔ done.2 = none := by
  obtain ⟨printed, _ | failure⟩ := done
  · exact iff_of_true rfl rfl
  · exact iff_of_false (by rintro ⟨⟩) (by simp)

theorem outcome_of_prepare {s : Surroundings} {a : Arguments} {loaded : LoadedOptions Unit}
    {r : Replacer Unit} (prepared : w.result (prepare s a) = .ok (loaded, r)) :
    let job : Job := ⟨r, s.directory, a.given.outDir, a.has .changedOnly⟩
    w.after (transformFiles s a) = w.after (transformAll job "" a.given.files) ∧
      w.result (transformFiles s a) =
        .ofAll (w.result (transformAll job "" a.given.files)) := by
  intro job
  have unchanged : w.after (prepare s a) = w := (prepare_ensures (R := (· = ·)) s a w).1.symm
  rw [transformFiles, Workspace.after_bind_of_result prepared,
    Workspace.result_bind_of_result prepared, unchanged]
  cases done : w.result (transformAll job "" a.given.files) with
  | mk printed failure =>
    simp only
    rw [Workspace.after_bind_of_result done, Workspace.result_bind_of_result done]
    cases failure <;> exact ⟨rfl, rfl⟩

theorem transformFiles_of_prepare {s : Surroundings} {a : Arguments} {loaded : LoadedOptions Unit}
    {r : Replacer Unit} (prepared : w.result (prepare s a) = .ok (loaded, r)) :
    let job : Job := ⟨r, s.directory, a.given.outDir, a.has .changedOnly⟩
    w.after (transformFiles s a) = w.after (transformAll job "" a.given.files) ∧
      ((w.result (transformFiles s a)).exit = 0 ↔
        (w.result (transformAll job "" a.given.files)).2 = none) := by
  intro job
  obtain ⟨after, outcome⟩ := outcome_of_prepare prepared
  rw [outcome]
  exact ⟨after, Outcome.exit_ofAll _⟩

theorem transformAll_nil (w : Workspace) (job : Job) (printed : String) :
    w.result (transformAll job printed []) = (printed, none) ∧
      w.after (transformAll job printed []) = w := ⟨rfl, rfl⟩

theorem transformAll_cons {job : Job} {file text : String} {outcome : Option Substitution}
    (output : job.outDir = some outDir) (all : job.changedOnly = false)
    (read : w.tree.read w.directory file = .ok text)
    (ran : evaluate (job.replacer.transform text file) = .ok outcome)
    (delivered : w.result (deliver (targetOf job.directory outDir file) file text outcome) = .ok ())
    (printed : String) (files : List String) :
    let w₁ := w.after (deliver (targetOf job.directory outDir file) file text outcome)
    w.result (transformAll job printed (file :: files)) =
        w₁.result (transformAll job printed files) ∧
      w.after (transformAll job printed (file :: files)) =
        w₁.after (transformAll job printed files) := by
  obtain ⟨result, after⟩ := transformFile_eq output (.inl all) read ran
  have step : w.result (transformFile job file) = .ok "" := by
    rw [result, delivered]
    rfl
  rw [transformAll, Workspace.result_bind_of_result step, Workspace.after_bind_of_result step,
    after]
  constructor <;> simp only [String.append_empty]

theorem ne_append_map (path : String) : path ≠ path ++ ".map" := by
  intro same
  have sizes := congrArg String.utf8ByteSize same
  rw [String.utf8ByteSize_append, show ".map".utf8ByteSize = 4 by decide] at sizes
  omega

theorem Leaves.outputs {directory file text : String} {outcome : Option Substitution}
    {before after : List (String × String)}
    (leaves : Leaves outDir (before ++ outputs directory outDir file text outcome ++ after) w w') :
    (targetOf directory outDir file ∉ after.map Prod.fst →
      w'.tree.read w'.directory (targetOf directory outDir file) =
        .ok (Substitution.codeOr text outcome)) ∧
    ∀ result document, outcome = some result → sourceMap? file text result = some document →
      targetOf directory outDir file ++ ".map" ∉ after.map Prod.fst →
        w'.tree.read w'.directory (targetOf directory outDir file ++ ".map") =
          .ok (document.withFile
            ((Path.fileName? (targetOf directory outDir file)).getD "")).toJson := by
  rw [CommandLine.outputs, List.append_assoc, List.cons_append] at leaves
  generalize targetOf directory outDir file = target at leaves ⊢
  constructor
  · intro last
    refine leaves.held before target _ _ rfl ?_
    rw [List.map_append, List.mem_append]
    -- The source map does not go to the path of the result.
    rintro (companion | later)
    · simp only [List.mem_map, Option.mem_toList, Option.map_eq_some_iff] at companion
      obtain ⟨_, ⟨document, -, rfl⟩, same⟩ := companion
      exact ne_append_map target same.symm
    · exact last later
  · rintro result document rfl made last
    rw [Option.bind_some, made] at leaves
    exact leaves.held (before ++ [(target, result.code)]) _ _ after (by simp [Substitution.codeOr])
      last

/-- A file in the scope of a run in `/w`, and two of one name that are not. -/
def sample : Workspace :=
  { tree := ⟨[(["w"], .directory), (["w", "src"], .directory),
      (["w", "src", "a.js"], .file "KEY".toUTF8), (["w", "b.js"], .file "one".toUTF8),
      (["b.js"], .file "two".toUTF8)]⟩
    directory := ["w"] }

def sampleSurroundings : Surroundings := { directory := "/w", environment := [] }

def sampleArguments (files : List String) : Arguments :=
  { given := { outDir := some "out", set := some [("KEY", "one")], files }, action := none }

def sampleResult : Substitution := ⟨"one", some ⟨[⟨.replaced, ⟨0, 3⟩, ⟨0, 3⟩⟩], 3, 3⟩⟩

theorem sample_stands : Stands sampleSurroundings.directory sample := by
  refine ⟨fun outer above other => ?_, rfl, by decide +kernel⟩
  obtain rfl : outer = [] := by
    rcases List.prefix_concat_iff.1 (show outer <+: [] ++ ["w"] from above) with whole | shorter
    · exact absurd whole other
    · exact List.prefix_nil.1 shorter
  rfl

theorem sample_inputs : IsInput "out" sample "src/a.js" ∧ IsInput "out" sample "b.js" ∧
    IsInput "out" sample "../b.js" := by
  have located : sample.tree.locate ["w"] "src/a.js" = .ok ["w", "src", "a.js"] := by decide +kernel
  have located' : sample.tree.locate ["w"] "b.js" = .ok ["w", "b.js"] := by decide +kernel
  have located'' : sample.tree.locate ["w"] "../b.js" = .ok ["b.js"] := by decide +kernel
  exact ⟨⟨_, _, located, rfl, by decide +kernel⟩, ⟨_, _, located', rfl, by decide +kernel⟩,
    ⟨_, _, located'', rfl, by decide +kernel⟩⟩

theorem sample_prepared (files : List String) : ∃ loaded r,
    sample.result (prepare sampleSurroundings (sampleArguments files)) = .ok (loaded, r) ∧
      loaded.options.sourceMaps = true ∧
      evaluate (r.transform "KEY" "src/a.js") = .ok (some sampleResult) ∧
      ∀ text, evaluate (r.transform text "b.js") = .ok none ∧
        evaluate (r.transform text "../b.js") = .ok none := by
  have decisions : (Filter.ofPatterns [defaultIncluded] [] (some "/w")).toOption.any
      (fun f => f.admits "src/a.js" && !f.admits "b.js" && !f.admits "../b.js") = true := by
    decide +kernel
  cases filtered : Filter.ofPatterns [defaultIncluded] [] (some "/w") with
  | error fault =>
    rw [filtered] at decisions
    cases decisions
  | ok filter =>
    simp only [filtered, Except.toOption, Option.any_some, Bool.and_eq_true, Bool.not_eq_true']
      at decisions
    obtain ⟨⟨inside, outside⟩, outside'⟩ := decisions
    let options : Options Unit :=
      { values := .ofList [("KEY", .ofString "one")], baseDirectory := some "/w" }
    have resolved : sample.result (resolve sampleSurroundings (sampleArguments files)) =
        .ok ⟨options, none⟩ := rfl
    have entries : options.values.toList = [⟨"KEY", .ofString "one"⟩] :=
      Table.toList_ofList (by decide)
    have nonempty : "" ∉ options.values.keys := by
      rw [Table.keys, entries]
      decide
    obtain ⟨_, m, madeWith⟩ := Matcher.exists_madeWith nonempty [] ⟨none, true⟩
    have made : Replacer.make options [] = .ok ⟨m, filter, true⟩ := by
      rw [Replacer.make_of_madeWith madeWith, filtered]
      rfl
    have configured : ⟨"KEY", .literal (.string "one")⟩ ∈ options.values.toList := by
      rw [entries]
      exact .head _
    refine ⟨_, _, prepare_eq_ok_iff.2 ⟨resolved, made⟩, rfl, ?_, fun text => ⟨?_, ?_⟩⟩
    · have ran : (Replacer.transform ⟨m, filter, true⟩ "KEY" "src/a.js").outcome () =
          (.ok (some sampleResult), ()) :=
        Replacer.transform_spelling madeWith configured (by decide) (fun _ => by decide +kernel)
          inside true ()
      exact congrArg Prod.fst ran
    · rw [Replacer.transform, if_pos (by simp [Replacer.includes, outside])]
      rfl
    · rw [Replacer.transform, if_pos (by simp [Replacer.includes, outside'])]
      rfl

theorem sample_run {args : List String} {file file' text text' : String}
    {outcome outcome' : Option Substitution} {loaded : LoadedOptions Unit} {r : Replacer Unit}
    (given : Arguments.read args = .ok (sampleArguments [file, file']))
    (prepared : sample.result (prepare sampleSurroundings (sampleArguments [file, file'])) =
      .ok (loaded, r))
    (read : sample.tree.read sample.directory file = .ok text)
    (ran : evaluate (r.transform text file) = .ok outcome)
    (delivered : sample.result (deliver (targetOf "/w" "out" file) file text outcome) = .ok ())
    (w₁ : Workspace)
    (after : w₁ = sample.after (deliver (targetOf "/w" "out" file) file text outcome))
    (read' : w₁.tree.read w₁.directory file' = .ok text')
    (ran' : evaluate (r.transform text' file') = .ok outcome')
    (delivered' : w₁.result (deliver (targetOf "/w" "out" file') file' text' outcome') = .ok ()) :
    (sample.result (run sampleSurroundings args)).exit = 0 ∧
      sample.after (run sampleSurroundings args) =
        w₁.after (deliver (targetOf "/w" "out" file') file' text' outcome') := by
  subst after
  let job : Job := ⟨r, "/w", some "out", false⟩
  have output : job.outDir = some "out" := rfl
  obtain ⟨result₁, after₁⟩ := transformAll_cons output rfl read ran delivered "" [file']
  obtain ⟨result₂, after₂⟩ := transformAll_cons output rfl read' ran' delivered' "" []
  obtain ⟨finished, succeeds⟩ := transformFiles_of_prepare prepared
  rw [run_eq_transformFiles given rfl rfl (List.cons_ne_nil _ _)]
  have result := result₁.trans (result₂.trans (transformAll_nil _ job "").1)
  have after := after₁.trans (after₂.trans (transformAll_nil _ job "").2)
  exact ⟨succeeds.2 (congrArg Prod.snd result), finished.trans after⟩

/-! ### Runs -/

/-- After a run that succeeds every file has its result below the output directory, unless a later
one was written to the same path. Where source maps are made, those of changed files are beside
their results, with the same exception. -/
theorem run_holds {s : Surroundings} {args : List String} {a : Arguments}
    (read : Arguments.read args = .ok a) (noInit : a.has .init = false)
    (transforms : a.action = none) (output : a.given.outDir = some outDir)
    (all : a.has .changedOnly = false) (stands : Stands s.directory w)
    (inputs : ∀ file ∈ a.given.files, IsInput outDir w file)
    (success : (w.result (run s args)).exit = 0) :
    ∃ loaded r, w.result (prepare s a) = .ok (loaded, r) ∧
      ∀ before file after, a.given.files = before ++ file :: after →
        ∃ text outcome, w.tree.read w.directory file = .ok text ∧
          evaluate (r.transform text file) = .ok outcome ∧
          let w' := w.after (run s args)
          let target := targetOf s.directory outDir file
          let later := (after.flatMap (written r s.directory outDir w)).map Prod.fst
          (target ∉ later →
            w'.tree.read w'.directory target = .ok (Substitution.codeOr text outcome)) ∧
          ∀ result, outcome = some result → loaded.options.sourceMaps = true →
            ∃ document, sourceMap? file text result = some document ∧
              (target ++ ".map" ∉ later → w'.tree.read w'.directory (target ++ ".map") =
                .ok (document.withFile ((Path.fileName? target).getD "")).toJson) := by
  -- Without files a run does not succeed.
  have some_file : a.given.files ≠ [] := by
    intro nothing
    rw [run, read] at success
    simp only at success
    rw [perform, if_neg (by simp [noInit]), transforms] at success
    simp only at success
    rw [if_pos (by simp [nothing])] at success
    cases success
  rw [run_eq_transformFiles read noInit transforms some_file] at success ⊢
  cases prepared : w.result (prepare s a) with
  | error failure =>
    rw [transformFiles, Workspace.result_bind_of_result prepared] at success
    cases success
  | ok pair =>
    obtain ⟨loaded, r⟩ := pair
    let job : Job := ⟨r, s.directory, a.given.outDir, a.has .changedOnly⟩
    obtain ⟨finished, succeeds⟩ := transformFiles_of_prepare prepared
    obtain ⟨each, leaves⟩ := transformAll_leaves (show job.outDir = some outDir from output) all
      stands inputs (succeeds.1 success)
    rw [finished]
    generalize w.after (transformAll job "" a.given.files) = w' at leaves ⊢
    refine ⟨loaded, r, rfl, fun before file after split => ?_⟩
    obtain ⟨text, outcome, read, ran⟩ := each file (by rw [split]; simp)
    rw [split, List.flatMap_append, List.flatMap_cons, written_of_read read ran,
      ← List.append_assoc] at leaves
    obtain ⟨code, map⟩ := leaves.outputs
    refine ⟨text, outcome, read, ran, code, fun result same maps => ?_⟩
    obtain ⟨document, made⟩ := exists_sourceMap (make_of_prepare prepared) maps (same ▸ ran)
    exact ⟨document, made, map result document same made⟩

theorem run_holds_sample :
    let args := ["--out-dir", "out", "--set", "KEY=one", "src/a.js", "../b.js"]
    let w' := sample.after (run sampleSurroundings args)
    (sample.result (run sampleSurroundings args)).exit = 0 ∧
      w'.tree.read w'.directory "out/src/a.js" = .ok "one" ∧
      (∃ document, sourceMap? "src/a.js" "KEY" sampleResult = some document ∧
        w'.tree.read w'.directory "out/src/a.js.map" = .ok (document.withFile "a.js").toJson) ∧
      w'.tree.read w'.directory "out/b.js" = .ok "two" := by
  intro args w'
  let w₁ := sample.after (deliver "out/src/a.js" "src/a.js" "KEY" (some sampleResult))
  have given : Arguments.read args = .ok (sampleArguments ["src/a.js", "../b.js"]) := rfl
  have key : sample.tree.read sample.directory "src/a.js" = .ok "KEY" := by decide +kernel
  have two : sample.tree.read sample.directory "../b.js" = .ok "two" := by decide +kernel
  have delivered : sample.result
      (deliver (targetOf "/w" "out" "src/a.js") "src/a.js" "KEY" (some sampleResult)) = .ok () := by
    decide +kernel
  have delivered' : w₁.result (deliver (targetOf "/w" "out" "../b.js") "../b.js" "two" none) =
      .ok () := by decide +kernel
  obtain ⟨loaded, r, prepared, maps, changed, unchanged⟩ :=
    sample_prepared ["src/a.js", "../b.js"]
  have done := (sample_run given prepared key changed delivered w₁ rfl
    (by decide +kernel) (unchanged "two").2 delivered').1
  have inputs : ∀ file ∈ ["src/a.js", "../b.js"], IsInput "out" sample file :=
    List.forall_mem_cons.2 ⟨sample_inputs.1, List.forall_mem_singleton.2 sample_inputs.2.2⟩
  obtain ⟨loaded', r', prepared', each⟩ := run_holds given rfl rfl rfl rfl sample_stands inputs done
  obtain ⟨rfl, rfl⟩ := Prod.mk.inj (Except.ok.inj (prepared'.symm.trans prepared))
  have target : targetOf "/w" "out" "src/a.js" = "out/src/a.js" := by decide +kernel
  have target' : targetOf "/w" "out" "../b.js" = "out/b.js" := by decide +kernel
  have named : (Path.fileName? "out/src/a.js").getD "" = "a.js" := by decide +kernel
  have beside : "out/src/a.js" ++ ".map" = "out/src/a.js.map" := by decide +kernel
  have later : (["../b.js"].flatMap (written r' "/w" "out" sample)).map Prod.fst =
      ["out/b.js"] := by
    rw [List.flatMap_singleton, written_of_read two (unchanged "two").2, outputs, target']
    rfl
  obtain ⟨text, outcome, read, ran, code, map⟩ := each [] "src/a.js" ["../b.js"] rfl
  obtain rfl := Except.ok.inj (read.symm.trans key)
  obtain rfl := Except.ok.inj (ran.symm.trans changed)
  obtain ⟨text', outcome', read', ran', code', -⟩ := each ["src/a.js"] "../b.js" [] rfl
  obtain rfl := Except.ok.inj (read'.symm.trans two)
  obtain rfl := Except.ok.inj (ran'.symm.trans (unchanged "two").2)
  obtain ⟨document, made, map⟩ := map sampleResult rfl maps
  simp only [sampleSurroundings, target, target', later, named, beside] at code code' map
  have apart : "out/src/a.js" ∉ ["out/b.js"] := by decide +kernel
  have apart' : "out/src/a.js.map" ∉ ["out/b.js"] := by decide +kernel
  refine ⟨done, code apart, ⟨document, made, map apart'⟩, code' ?_⟩
  simp

/-- Files of one name come to the same path, where only the result of the last one stays. -/
theorem run_holds_same_path :
    let args := ["--out-dir", "out", "--set", "KEY=one", "b.js", "../b.js"]
    let w' := sample.after (run sampleSurroundings args)
    Arguments.read args = .ok (sampleArguments ["b.js", "../b.js"]) ∧
      (∀ file ∈ ["b.js", "../b.js"], IsInput "out" sample file) ∧
      Path.place sample.directory "b.js" ≠ Path.place sample.directory "../b.js" ∧
      (sample.result (run sampleSurroundings args)).exit = 0 ∧
      (∃ loaded r, sample.result
          (prepare sampleSurroundings (sampleArguments ["b.js", "../b.js"])) = .ok (loaded, r) ∧
        sample.tree.read sample.directory "b.js" = .ok "one" ∧
        evaluate (r.transform "one" "b.js") = .ok none) ∧
      w'.tree.read w'.directory (targetOf "/w" "out" "b.js") = .ok "two" := by
  intro args w'
  let w₁ := sample.after (deliver "out/b.js" "b.js" "one" none)
  have given : Arguments.read args = .ok (sampleArguments ["b.js", "../b.js"]) := rfl
  have one : sample.tree.read sample.directory "b.js" = .ok "one" := by decide +kernel
  have delivered : sample.result (deliver (targetOf "/w" "out" "b.js") "b.js" "one" none) =
      .ok () := by decide +kernel
  have delivered' : w₁.result (deliver (targetOf "/w" "out" "../b.js") "../b.js" "two" none) =
      .ok () := by decide +kernel
  obtain ⟨loaded, r, prepared, maps, -, unchanged⟩ := sample_prepared ["b.js", "../b.js"]
  obtain ⟨done, after⟩ := sample_run given prepared one (unchanged "one").1 delivered w₁ rfl
    (by decide +kernel) (unchanged "two").2 delivered'
  have inputs : ∀ file ∈ ["b.js", "../b.js"], IsInput "out" sample file :=
    List.forall_mem_cons.2 ⟨sample_inputs.2.1, List.forall_mem_singleton.2 sample_inputs.2.2⟩
  let w₂ := w₁.after (deliver (targetOf "/w" "out" "../b.js") "../b.js" "two" none)
  have last : w₂.tree.read w₂.directory (targetOf "/w" "out" "b.js") = .ok "two" := by
    decide +kernel
  have same : w' = w₂ := after
  rw [same]
  exact ⟨given, inputs, by decide +kernel, done,
    ⟨loaded, r, prepared, one, (unchanged "one").1⟩, last⟩

end KeySubst.CommandLine

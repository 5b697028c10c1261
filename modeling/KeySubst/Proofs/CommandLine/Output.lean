import KeySubst.CommandLine.Run
import KeySubst.Proofs.Options.Discovery

namespace KeySubst.CommandLine

open Workspace (Ensures Edits)
open KeySubst.Path (IsPlain Below Around components ofNames)

theorem isPlain_outputPath {directory file name : String}
    (named : Path.fileName? file = some name) (apart : components file ≠ components directory) :
    IsPlain (outputPath directory file) := by
  obtain ⟨relative, same, last⟩ : ∃ relative,
      (Path.relativeTo? directory file).getD file = relative ∧
        Path.fileName? relative = some name := by
    cases below : Path.relativeTo? directory file with
    | none => exact ⟨file, rfl, named⟩
    | some rest => exact ⟨rest, rfl, (Path.fileName?_of_relativeTo? below apart).trans named⟩
  have member := List.mem_of_getLast? (Path.fileName?_eq_some_iff.1 last)
  simp only [outputPath, same]
  by_cases absolute : Path.isAbsolute relative = true
  · rw [if_pos absolute, last]
    exact ⟨[name], by simp, by simpa using Path.isOrdinary_of_mem_components member,
      by simp [ofNames]⟩
  · rw [if_neg absolute]
    refine ⟨_, ?_, ?_, rfl⟩
    · exact List.ne_nil_of_mem (List.mem_filterMap.2 ⟨_, member, rfl⟩)
    · intro other listed
      obtain ⟨c, component, ordinary⟩ := List.mem_filterMap.1 listed
      cases c with
      | name text =>
        cases ordinary
        exact Path.isOrdinary_of_mem_components component
      | _ => cases ordinary

/-- The working directory and all that it lies in are there, and a path names it. -/
structure Stands (directory : String) (w : Workspace) : Prop where
  anchored : w.tree.Anchored w.directory
  here : w.tree.node? w.directory = some .directory
  named : Path.place w.directory directory = w.directory

theorem Stands.of_edits {directory : String} {w w' : Workspace} {files directories : String → Prop}
    (stands : Stands directory w) (edits : Edits files directories w w') : Stands directory w' := by
  refine ⟨?_, ?_, ?_⟩
  · rw [edits.directory]
    exact fun outer above other => edits.keeps outer (stands.anchored outer above other)
  · rw [edits.directory]
    exact edits.keeps _ stands.here
  · rw [edits.directory]
    exact stands.named

/-- The output of one of the files below a directory, or the source map beside it. -/
def IsOutput (directory outDir : String) (files : List String) (path : String) : Prop :=
  ∃ file ∈ files, IsPlain (outputPath directory file) ∧
    (path = Path.join outDir (outputPath directory file) ∨
      path = Path.join outDir (outputPath directory file) ++ ".map")

theorem IsOutput.below {directory outDir path : String} {files : List String}
    (output : IsOutput directory outDir files path) : Below outDir path := by
  obtain ⟨file, -, plain, rfl | rfl⟩ := output
  · exact ⟨_, plain, rfl⟩
  · exact Below.append_map ⟨_, plain, rfl⟩

theorem isPlain_of_read {directory file text : String} {w : Workspace}
    (stands : Stands directory w) (read : w.tree.read w.directory file = .ok text) :
    IsPlain (outputPath directory file) := by
  obtain ⟨place, content, located, node, -⟩ := FileTree.exists_of_read read
  have leaf : w.tree.node? place ≠ some .directory := by
    rw [node]
    simp
  obtain ⟨name, named⟩ := FileTree.fileName?_of_locate stands.anchored located leaf
  refine isPlain_outputPath named fun same => leaf ?_
  have there : place = w.directory := by
    rw [FileTree.locate_place located, Path.place, same]
    exact stands.named
  rw [there]
  exact stands.here

variable {R : Workspace → Workspace → Prop} [Std.Refl R] [IsTrans Workspace R]

theorem resolve_ensures (s : Surroundings) (a : Arguments) : Ensures R (resolve s a) := by
  rw [resolve]
  split
  · exact (Options.loadFile_ensures _ _).bind fun _ _ => .pure trivial
  · exact (Options.load_ensures _ _).bind fun _ _ => .pure trivial

theorem prepare_ensures (s : Surroundings) (a : Arguments) : Ensures R (prepare s a) := by
  refine (resolve_ensures s a).bind fun loaded _ => ?_
  cases loaded with
  | error failure => exact .pure trivial
  | ok loaded => exact .pure trivial

theorem around_of_mem_ancestors {directory path outer : String} (below : Below directory path)
    (member : outer ∈ Path.ancestors ((Path.parent? path).getD "")) : Around directory outer := by
  have above := Path.components_of_mem_ancestors member
  refine below.around (above.trans ?_)
  cases up : Path.parent? path with
  | none => exact List.nil_prefix
  | some parent =>
    rw [Option.getD_some, Path.components_of_parent? up]
    exact List.dropLast_prefix _

variable {files : String → Prop} {outDir : String}

theorem writeBelow_ensures {path : String} (below : Below outDir path) (allowed : files path)
    (text : String) : Ensures (Edits files (Around outDir)) (writeBelow path text) := by
  refine (Ensures.makeDirectories fun outer => around_of_mem_ancestors below).bind
    fun made _ => ?_
  cases made with
  | error failure => exact .pure trivial
  | ok _ => exact (Ensures.write allowed text).bind fun _ _ => .pure trivial

theorem writeOutcome_ensures {target : String} (below : Below outDir target)
    (allowed : files target) (map_allowed : files (target ++ ".map")) (file text : String)
    (outcome : Substitution) :
    Ensures (Edits files (Around outDir)) (writeOutcome target file text outcome) := by
  refine (writeBelow_ensures below allowed outcome.code).bind fun wrote _ => ?_
  cases wrote with
  | error failure => exact .pure trivial
  | ok _ =>
    dsimp only
    split
    · exact .pure trivial
    · exact writeBelow_ensures below.append_map map_allowed _

theorem transformFile_ensures {job : Job} (noOutput : job.outDir = none) (file : String) :
    Ensures R (transformFile job file) := by
  refine (Ensures.read file).bind fun read _ => ?_
  cases read with
  | error failure => exact .pure trivial
  | ok text =>
    dsimp only
    rw [noOutput]
    split
    · exact .pure trivial
    · split
      · exact .pure trivial
      · exact .pure trivial
      · rename_i some_output _
        cases some_output
      · rename_i some_output _
        cases some_output

theorem transformAll_ensures {job : Job} (noOutput : job.outDir = none) (printed : String)
    (given : List String) : Ensures R (transformAll job printed given) := by
  induction given generalizing printed with
  | nil => exact .pure trivial
  | cons file given ih =>
    refine (transformFile_ensures noOutput file).bind fun done _ => ?_
    cases done with
    | error failure => exact .pure trivial
    | ok text => exact ih (printed ++ text)

theorem transformFile_edits {job : Job} {w : Workspace} {given : List String} {file : String}
    (output : job.outDir = some outDir) (stands : Stands job.directory w) (member : file ∈ given) :
    Edits (IsOutput job.directory outDir given) (Around outDir) w
      (w.after (transformFile job file)) := by
  rw [transformFile, Workspace.after_read_bind]
  cases read : w.tree.read w.directory file with
  | error failure => exact Edits.refl w
  | ok text =>
    have plain := isPlain_of_read stands read
    have target : IsOutput job.directory outDir given
        (Path.join outDir (outputPath job.directory file)) :=
      ⟨file, member, plain, .inl rfl⟩
    have map : IsOutput job.directory outDir given
        (Path.join outDir (outputPath job.directory file) ++ ".map") :=
      ⟨file, member, plain, .inr rfl⟩
    dsimp only
    cases evaluate (job.replacer.transform text file) with
    | error failure => exact Edits.refl w
    | ok outcome =>
      rw [output]
      cases outcome with
      | some outcome =>
        dsimp only
        rw [Workspace.after_bind, Workspace.after_pure]
        exact (writeOutcome_ensures target.below target map file text outcome w).1
      | none =>
        dsimp only
        split
        · exact Edits.refl w
        · rw [Workspace.after_bind, Workspace.after_pure]
          exact (writeBelow_ensures target.below target text w).1

theorem transformAll_edits {job : Job} {w : Workspace} {given files : List String}
    (output : job.outDir = some outDir) (stands : Stands job.directory w)
    (members : ∀ file ∈ files, file ∈ given) (printed : String) :
    Edits (IsOutput job.directory outDir given) (Around outDir) w
      (w.after (transformAll job printed files)) := by
  induction files generalizing printed w with
  | nil => exact Edits.refl w
  | cons file files ih =>
    obtain ⟨first, others⟩ := List.forall_mem_cons.1 members
    have step := transformFile_edits output stands first
    rw [transformAll, Workspace.after_bind]
    split
    · exact step
    · rename_i text _
      exact step.trans (ih (stands.of_edits step) others (printed ++ text))

theorem displayConfig_ensures (s : Surroundings) (a : Arguments) :
    Ensures R (displayConfig s a) := by
  refine (prepare_ensures s a).bind fun prepared _ => ?_
  cases prepared <;> exact .pure trivial

theorem validateConfig_ensures (s : Surroundings) (a : Arguments) :
    Ensures R (validateConfig s a) := by
  refine (prepare_ensures s a).bind fun prepared _ => ?_
  cases prepared <;> exact .pure trivial

theorem transformFiles_ensures (s : Surroundings) {a : Arguments}
    (noOutput : a.given.outDir = none) : Ensures R (transformFiles s a) := by
  refine (prepare_ensures s a).bind fun prepared _ => ?_
  cases prepared with
  | error failure => exact .pure trivial
  | ok prepared =>
    refine (transformAll_ensures noOutput "" a.given.files).bind fun done _ => ?_
    obtain ⟨printed, _ | failure⟩ := done <;> exact .pure trivial

theorem transformFiles_edits {s : Surroundings} {a : Arguments} {w : Workspace}
    (output : a.given.outDir = some outDir) (stands : Stands s.directory w) :
    Edits (IsOutput s.directory outDir a.given.files) (Around outDir) w
      (w.after (transformFiles s a)) := by
  have unchanged : w.after (prepare s a) = w := (prepare_ensures (R := (· = ·)) s a w).1.symm
  have members : ∀ file ∈ a.given.files, file ∈ a.given.files := fun _ member => member
  rw [transformFiles, Workspace.after_bind, unchanged]
  split
  · exact Edits.refl w
  · rename_i replacer _
    let job : Job := ⟨replacer, s.directory, a.given.outDir, a.has .changedOnly⟩
    have edits := transformAll_edits (show job.outDir = some outDir from output) stands members ""
    dsimp only
    rw [Workspace.after_bind]
    split <;> exact edits

theorem perform_ensures (s : Surroundings) {a : Arguments} (noInit : a.has .init = false)
    (noOutput : a.given.outDir = none) : Ensures R (perform s a) := by
  rw [perform, if_neg (by simp [noInit])]
  split
  · exact displayConfig_ensures s a
  · exact validateConfig_ensures s a
  · split
    · exact .pure trivial
    · exact transformFiles_ensures s noOutput

theorem perform_edits {s : Surroundings} {a : Arguments} {w : Workspace}
    (noInit : a.has .init = false) (output : a.given.outDir = some outDir)
    (stands : Stands s.directory w) :
    Edits (IsOutput s.directory outDir a.given.files) (Around outDir) w
      (w.after (perform s a)) := by
  rw [perform, if_neg (by simp [noInit])]
  split
  · exact (displayConfig_ensures s a w).1
  · exact (validateConfig_ensures s a w).1
  · split
    · exact Edits.refl w
    · exact transformFiles_edits output stands

/-- A run that makes no configuration leaves everything as it is without an output directory. With
one it writes nothing but outputs of its files there, and makes nothing but that directory, those
that it lies in and those that the outputs lie in. -/
theorem run_edits {s : Surroundings} {args : List String} {a : Arguments} {w : Workspace}
    (read : Arguments.read args = .ok a) (noInit : a.has .init = false)
    (stands : Stands s.directory w) :
    (a.given.outDir = none → w.after (run s args) = w) ∧
      ∀ outDir, a.given.outDir = some outDir →
        Edits (IsOutput s.directory outDir a.given.files) (Around outDir) w
          (w.after (run s args)) := by
  rw [run, read]
  refine ⟨fun noOutput => ?_, fun outDir output => perform_edits noInit output stands⟩
  exact (perform_ensures (R := (· = ·)) s noInit noOutput w).1.symm

theorem run_edits_keeps_input :
    let w : Workspace :=
      { tree := ⟨[(["w"], .directory), (["w", "src"], .directory),
          (["w", "src", "a.js"], .file "v = KEY".toUTF8)]⟩
        directory := ["w"] }
    let s : Surroundings := { directory := "/w", environment := [] }
    let args := ["--out-dir", "out/./x", "src/../src/a.js", "."]
    (w.after (run s args)).tree.node? ["w", "src", "a.js"] =
      w.tree.node? ["w", "src", "a.js"] := by
  intro w s args
  let a : Arguments :=
    { given := { outDir := some "out/./x", files := ["src/../src/a.js", "."] }
      action := none }
  have read : Arguments.read args = .ok a := rfl
  have stands : Stands s.directory w := by
    refine ⟨fun outer above other => ?_, rfl, by decide +kernel⟩
    obtain rfl : outer = [] := by
      rcases List.prefix_concat_iff.1 (show outer <+: [] ++ ["w"] from above) with whole | shorter
      · exact absurd whole other
      · exact List.prefix_nil.1 shorter
    rfl
  have edits := (run_edits read rfl stands).2 "out/./x" rfl
  by_contra differs
  rcases edits.changed _ differs with ⟨path, content, output, located, -⟩ | ⟨nothing, -⟩
  · have below := output.below.prefix_place w.directory
    rw [← edits.directory, ← FileTree.locate_place located, edits.directory] at below
    exact absurd below (by decide +kernel)
  · exact absurd nothing (by decide +kernel)

end KeySubst.CommandLine

import KeySubst.Options.Discovery
import KeySubst.Proofs.Files.Edits
import KeySubst.Proofs.Files.Parents

namespace KeySubst.Options

open KeySubst.Path (Rises)
open Workspace (Ensures)

variable {σ : Type} {R : Workspace → Workspace → Prop} [Std.Refl R] [IsTrans Workspace R]

theorem firstFile?_ensures (paths : List String) : Ensures R (firstFile? paths) := by
  induction paths with
  | nil => exact .pure trivial
  | cons path paths ih =>
    refine (Ensures.isFile path).bind fun here _ => ?_
    split
    · exact .pure trivial
    · exact ih

theorem readFile_ensures (path : String) : Ensures R (readFile (σ := σ) path) := by
  refine (Ensures.read path).bind fun read _ => ?_
  cases read with
  | error failure => exact .pure trivial
  | ok text =>
    dsimp only
    split <;> exact .pure trivial

theorem load_ensures (start : String) (home : Option String) :
    Ensures R (load (σ := σ) start home) := by
  refine (firstFile?_ensures _).bind fun found _ => ?_
  cases found with
  | none => exact .pure trivial
  | some path => exact (readFile_ensures path).bind fun _ _ => .pure trivial

theorem loadFile_ensures (path base : String) : Ensures R (loadFile (σ := σ) path base) := by
  refine (Ensures.isFile path).bind fun here _ => ?_
  split
  · exact (readFile_ensures path).bind fun _ _ => .pure trivial
  · exact .pure trivial

def HasConfig (w : Workspace) (directory : String) : Prop :=
  ∃ content, w.tree.find? w.directory (configIn directory) = some (.file content)

/-- The configuration of the nearest directory with one among a directory, its parent, the parent of
that and so on, or else that of the home directory. -/
inductive Finds (w : Workspace) (start : String) (home : Option String) : Option String → Prop
  | near {n : Nat} {directory : String} (rises : Rises start n directory)
      (holds : HasConfig w directory)
      (nearest : ∀ k inner, k < n → Rises start k inner → ¬ HasConfig w inner) :
      Finds w start home (some (configIn directory))
  | atHome {directory : String} (nowhere : ∀ n outer, Rises start n outer → ¬ HasConfig w outer)
      (given : home = some directory) (holds : HasConfig w directory) :
      Finds w start home (some (configIn directory))
  | nothing (nowhere : ∀ n outer, Rises start n outer → ¬ HasConfig w outer)
      (bare : ∀ directory, home = some directory → ¬ HasConfig w directory) :
      Finds w start home none

variable {w : Workspace} {start : String} {home : Option String}

theorem Finds.unique {found found' : Option String} (finds : Finds w start home found)
    (finds' : Finds w start home found') : found = found' := by
  cases finds with
  | near rises holds nearest =>
    cases finds' with
    | near rises' holds' nearest' =>
      rename_i n _ n' _
      rcases Nat.lt_trichotomy n n' with closer | rfl | closer
      · exact absurd holds (nearest' _ _ closer rises)
      · rw [rises.unique rises']
      · exact absurd holds' (nearest _ _ closer rises')
    | atHome nowhere => exact absurd holds (nowhere _ _ rises)
    | nothing nowhere => exact absurd holds (nowhere _ _ rises)
  | atHome nowhere given holds =>
    cases finds' with
    | near rises' holds' => exact absurd holds' (nowhere _ _ rises')
    | atHome _ given' =>
      rw [given, Option.some.injEq] at given'
      rw [given']
    | nothing _ bare => exact absurd holds (bare _ given)
  | nothing nowhere bare =>
    cases finds' with
    | near rises' holds' => exact absurd holds' (nowhere _ _ rises')
    | atHome _ given' holds' => exact absurd holds' (bare _ given')
    | nothing => rfl

theorem result_isFile_iff (w : Workspace) (directory : String) :
    w.result (FileSystem.isFile (configIn directory)) = true ↔ HasConfig w directory := by
  have first : w.result get = w := rfl
  have second : (w.after get).result get = w := rfl
  rw [HasConfig]
  simp only [FileSystem.isFile]
  rw [Workspace.result_bind_of_result first, Workspace.result_bind_pure, second]
  cases w.tree.find? w.directory (configIn directory) with
  | none => exact iff_of_false (by rintro ⟨⟩) (by rintro ⟨_, ⟨⟩⟩)
  | some node =>
    cases node with
    | directory => exact iff_of_false (by rintro ⟨⟩) (by rintro ⟨_, ⟨⟩⟩)
    | file content => exact iff_of_true rfl ⟨content, rfl⟩

theorem result_firstFile? (w : Workspace) (paths : List String) :
    w.result (firstFile? paths) =
      paths.find? fun path => w.result (FileSystem.isFile path) := by
  induction paths with
  | nil => rfl
  | cons path paths ih =>
    rw [firstFile?, List.find?_cons]
    cases here : w.result (FileSystem.isFile path) with
    | true =>
      rw [Workspace.result_bind_of_result here]
      rfl
    | false =>
      rw [Workspace.result_bind_of_result here, ← ih]
      rfl

theorem finds_discover? (w : Workspace) (start : String) (home : Option String) :
    Finds w start home (w.result (discover? start home)) := by
  have holds_iff := result_isFile_iff w
  rw [discover?, result_firstFile?, candidates, List.find?_map, List.find?_append]
  simp only [Function.comp_def]
  cases above : (Path.ancestors start).find? fun directory =>
      w.result (FileSystem.isFile (configIn directory)) with
  | some directory =>
    obtain ⟨holds, n, small, at_, before⟩ := List.find?_eq_some_iff_getElem.1 above
    refine .near (Path.getElem?_ancestors_iff.1 (List.getElem?_eq_some_iff.2 ⟨small, at_⟩))
      ((holds_iff _).1 holds) fun k inner closer rises has => ?_
    obtain ⟨_, same⟩ := List.getElem?_eq_some_iff.1 (Path.getElem?_ancestors_iff.2 rises)
    have missed := before k closer
    rw [same, (holds_iff inner).2 has] at missed
    cases missed
  | none =>
    rw [List.find?_eq_none] at above
    have nowhere : ∀ n outer, Rises start n outer → ¬ HasConfig w outer := fun n outer rises has =>
      above outer (List.mem_of_getElem? (Path.getElem?_ancestors_iff.2 rises))
        ((holds_iff outer).2 has)
    rw [Option.none_or]
    cases home with
    | none => exact .nothing nowhere (by simp)
    | some directory =>
      rw [Option.toList_some, List.find?_singleton]
      split
      · rename_i holds
        exact .atHome nowhere rfl ((holds_iff directory).1 holds)
      · rename_i bare
        refine .nothing nowhere ?_
        rintro _ ⟨⟩ has
        exact bare ((holds_iff directory).2 has)

theorem discover?_eq_iff {found : Option String} :
    w.result (discover? start home) = found ↔ Finds w start home found := by
  constructor
  · rintro rfl
    exact finds_discover? w start home
  · exact (finds_discover? w start home).unique

/-- What comes of loading the configuration that is found: without one the defaults, else the options
that it says, or the fault that makes it unusable. -/
inductive Loads (w : Workspace) (start : String) :
    Option String → Except Error (LoadedOptions σ) → Prop
  | defaults : Loads w start none (.ok ⟨{ baseDirectory := some start }, none⟩)
  | unreadable {path : String} {failure : SystemError}
      (read : w.tree.read w.directory path = .error failure) :
      Loads w start (some path) (.error (.configUnreadable path failure))
  | malformed {path text : String} (read : w.tree.read w.directory path = .ok text)
      (parsed : Toml.parse? text = none) : Loads w start (some path) (.error (.configMalformed path))
  | refused {path text : String} {entries : List (String × Toml.Value)} {fault : Error}
      (read : w.tree.read w.directory path = .ok text) (parsed : Toml.parse? text = some entries)
      (refuses : ofToml (σ := σ) entries path = .error fault) :
      Loads w start (some path) (.error fault)
  | taken {path text : String} {entries : List (String × Toml.Value)} {options : Options σ}
      (read : w.tree.read w.directory path = .ok text) (parsed : Toml.parse? text = some entries)
      (accepts : ofToml entries path = .ok options) :
      Loads w start (some path) (.ok ⟨{ options with baseDirectory := some start }, some path⟩)

theorem loads_readFile (w : Workspace) (start path : String) :
    Loads (σ := σ) w start (some path) ((w.result (readFile path)).map fun options =>
      ⟨{ options with baseDirectory := some start }, some path⟩) := by
  rw [readFile, Workspace.result_read_bind]
  cases read : w.tree.read w.directory path with
  | error failure => exact .unreadable read
  | ok text =>
    simp only
    cases parsed : Toml.parse? text with
    | none => exact .malformed read parsed
    | some entries =>
      simp only
      cases ends : ofToml (σ := σ) entries path with
      | error fault => exact .refused read parsed ends
      | ok options => exact .taken read parsed ends

theorem loads_load {found : Option String} (discovered : w.result (discover? start home) = found) :
    Loads (σ := σ) w start found (w.result (load start home)) := by
  have unchanged : w.after (discover? start home) = w :=
    (firstFile?_ensures (R := (· = ·)) _ w).1.symm
  rw [load, Workspace.result_bind_of_result discovered, unchanged]
  cases found with
  | none => exact .defaults
  | some path => exact loads_readFile w start path

theorem exists_loads {loaded : LoadedOptions σ}
    (done : w.result (load start home) = .ok loaded) :
    ∃ found, Loads w start found (.ok loaded) :=
  ⟨_, done ▸ loads_load rfl⟩

theorem loads_loadFile {path : String} {loaded : LoadedOptions σ}
    (done : w.result (loadFile path start) = .ok loaded) :
    Loads w start (some path) (.ok loaded) := by
  rw [loadFile] at done
  cases here : w.result (FileSystem.isFile path) with
  | false =>
    rw [Workspace.result_bind_of_result here] at done
    cases done
  | true =>
    rw [Workspace.result_bind_of_result here, if_pos rfl, Workspace.result_bind_pure] at done
    exact done ▸ loads_readFile w start path

theorem Loads.of_read {w' : Workspace} {found : Option String}
    {outcome : Except Error (LoadedOptions σ)} (loads : Loads w start found outcome)
    (same : ∀ path, found = some path →
      w'.tree.read w'.directory path = w.tree.read w.directory path) :
    Loads w' start found outcome := by
  cases loads with
  | defaults => exact .defaults
  | unreadable read => exact .unreadable ((same _ rfl).trans read)
  | malformed read parsed => exact .malformed ((same _ rfl).trans read) parsed
  | refused read parsed refuses => exact .refused ((same _ rfl).trans read) parsed refuses
  | taken read parsed accepts => exact .taken ((same _ rfl).trans read) parsed accepts

theorem Loads.unique {found : Option String} {outcome outcome' : Except Error (LoadedOptions σ)}
    (loads : Loads w start found outcome) (loads' : Loads w start found outcome') :
    outcome = outcome' := by
  -- The rules for one path exclude each other: they differ in what is read or in what that says.
  cases loads <;> cases loads' <;> simp_all

theorem Loads.places {found : Option String} {loaded : LoadedOptions σ}
    (loads : Loads w start found (.ok loaded)) :
    loaded.options.baseDirectory = some start ∧ loaded.path = found := by
  cases loads with
  | defaults => exact ⟨rfl, rfl⟩
  | taken => exact ⟨rfl, rfl⟩

/-- One configuration is found for a directory, that of the nearest directory with one or else that of
the home directory, and loading uses it and no other: it fails if that one is faulty, whatever other
files hold, and otherwise names it and takes absolute names relative to the directory. -/
theorem load_nearest (w : Workspace) (start : String) (home : Option String) :
    ∃ found, w.result (discover? start home) = found ∧
      (∀ other, Finds w start home other ↔ other = found) ∧
      Loads (σ := σ) w start found (w.result (load start home)) ∧
      w.after (load (σ := σ) start home) = w ∧
      (∀ loaded : LoadedOptions σ, w.result (load start home) = .ok loaded →
        loaded.options.baseDirectory = some start ∧ loaded.path = found) ∧
      ∀ w' : Workspace, Finds w' start home found →
        (∀ path, found = some path →
          w'.tree.read w'.directory path = w.tree.read w.directory path) →
        w'.result (load (σ := σ) start home) = w.result (load start home) := by
  have loads : Loads (σ := σ) w start (w.result (discover? start home))
      (w.result (load start home)) := loads_load rfl
  refine ⟨_, rfl, fun other => ?_, loads, (load_ensures (R := (· = ·)) start home w).1.symm, ?_, ?_⟩
  · rw [← discover?_eq_iff, eq_comm]
  · intro loaded ok
    rw [ok] at loads
    exact loads.places
  · intro w' finds same
    exact (loads_load (discover?_eq_iff.2 finds)).unique (loads.of_read same)

theorem load_nearest_faulty :
    let nodes : List (Place × Node) :=
      [(["w"], .directory), (["w", "a"], .directory), (["w", "a", "b"], .directory),
        (["w", "a", "b", ".envreplace.toml"], .directory),
        (["w", "a", ".envreplace.toml"], .file "A".toUTF8)]
    let w : Workspace := ⟨⟨(["w", ".envreplace.toml"], .file "A = 1".toUTF8) :: nodes⟩, ["w"]⟩
    let w' : Workspace := ⟨⟨nodes⟩, ["w"]⟩
    let fault : Error := .configMalformed "/w/a/.envreplace.toml"
    w.result (discover? "/w/a/./b" (some "/w")) = some "/w/a/.envreplace.toml" ∧
      w.result (load (σ := Unit) "/w/a/./b" (some "/w")) = .error fault ∧
      w'.result (load (σ := Unit) "/w/a/./b" (some "/w")) = .error fault := by
  intro nodes w w' fault
  have file : w.tree.read w.directory "/w/a/.envreplace.toml" = .ok "A" := by decide +kernel
  have file' : w'.tree.read w'.directory "/w/a/.envreplace.toml" = .ok "A" := by decide +kernel
  have there : w.result (discover? "/w/a/./b" (some "/w")) = some "/w/a/.envreplace.toml" := by
    decide +kernel
  have there' : w'.result (discover? "/w/a/./b" (some "/w")) = some "/w/a/.envreplace.toml" := by
    decide +kernel
  obtain ⟨found, discovered, -, loads, -, -, alone⟩ :=
    load_nearest (σ := Unit) w "/w/a/./b" (some "/w")
  obtain rfl := discovered.symm.trans there
  have same := alone w' (discover?_eq_iff.1 there') fun path given => by
    cases given
    rw [file, file']
  have malformed : Toml.parse? "A" = none := by decide +kernel
  have fails := (Loads.malformed file malformed : Loads (σ := Unit) w "/w/a/./b" _ _).unique loads
  exact ⟨there, fails.symm, same.trans fails.symm⟩

end KeySubst.Options

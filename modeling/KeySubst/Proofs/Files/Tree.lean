import KeySubst.Files.Tree
import KeySubst.Proofs.Files.Path

/-!
# Places in trees

A path that can be walked ends at the place that its components name (`locate_place`).
-/

namespace KeySubst

def Component.follow (place : Place) : Component → Place
  | .root => []
  | .here => place
  | .up => place.dropLast
  | .name text => place ++ [text]

def Step.follow (place : Place) : Step → Place
  | .stay => place
  | .up => place.dropLast
  | .down name => place ++ [name]

def Step.Fits : Step → Prop
  | .down name => name.utf8ByteSize ≤ FileTree.maxNameSize
  | _ => True

namespace Path

def place (directory : Place) (path : String) : Place :=
  (components path).foldl Component.follow directory

def stepOf (part : List Char) : Step :=
  if isVoid part then .stay
  else if part = ['.', '.'] then .up
  else .down (String.ofList part)

theorem steps_eq (path : String) :
    (∃ part parts, pieces path = [] :: part :: parts ∧
      steps path = (true, (part :: parts).map stepOf)) ∨
    (isAbsolute path = false ∧ steps path = (false, (pieces path).map stepOf)) := by
  rw [steps]
  split
  · rename_i rest starts
    obtain ⟨part, parts, split⟩ := List.exists_cons_of_ne_nil (splitSlash_ne_nil rest)
    refine .inl ⟨part, parts, ?_, ?_⟩
    · rw [pieces, starts, splitSlash_slash, split]
    · rw [split]
      rfl
  · rename_i relative
    refine .inr ⟨?_, rfl⟩
    rw [isAbsolute, decide_eq_false_iff_not, List.head?_eq_some_iff]
    rintro ⟨rest, starts⟩
    exact relative rest starts

theorem foldl_stepOf (parts : List (List Char)) (place : Place) :
    (parts.map stepOf).foldl Step.follow place =
      (parts.filterMap component?).foldl Component.follow place := by
  induction parts generalizing place with
  | nil => rfl
  | cons part parts ih =>
    rw [List.map_cons, List.foldl_cons, ih, stepOf]
    by_cases void : isVoid part = true
    · rw [if_pos void, List.filterMap_cons_none (component?_of_isVoid void)]
      rfl
    · by_cases up : part = ['.', '.']
      · have component : component? part = some .up := by rw [component?, if_neg void, if_pos up]
        rw [if_neg void, if_pos up, List.filterMap_cons_some component]
        rfl
      · have component : component? part = some (.name (String.ofList part)) := by
          rw [component?, if_neg void, if_neg up]
        rw [if_neg void, if_neg up, List.filterMap_cons_some component]
        rfl

theorem foldl_start (parts : List (List Char)) (relative : ∀ p ps, parts ≠ [] :: p :: ps)
    (place : Place) : (start parts).toList.foldl Component.follow place = place := by
  cases parts with
  | nil => rfl
  | cons first others =>
    rw [start]
    split
    · rfl
    · rw [if_neg]
      · rfl
      · rintro ⟨rfl, more⟩
        obtain ⟨p, ps, rfl⟩ := List.exists_cons_of_ne_nil more
        exact relative p ps rfl

theorem foldl_steps (path : String) (directory : Place) :
    (steps path).2.foldl Step.follow (if (steps path).1 then [] else directory) =
      place directory path := by
  rw [place, components_eq, List.foldl_append]
  rcases steps_eq path with ⟨part, parts, split, steps⟩ | ⟨relative, steps⟩
  · rw [steps, split]
    exact foldl_stepOf (part :: parts) []
  · rw [steps, foldl_start, foldl_stepOf]
    · rfl
    · intro p ps split
      rw [(isAbsolute_iff path).2 ⟨p, ps, split⟩] at relative
      cases relative

theorem foldl_names (names : List String) (directory : Place) :
    (names.map Component.name).foldl Component.follow directory = directory ++ names := by
  induction names generalizing directory with
  | nil => exact (List.append_nil directory).symm
  | cons name names ih =>
    rw [List.map_cons, List.foldl_cons, ih, Component.follow, List.append_assoc]
    rfl

theorem Below.prefix_place {outer path : String} (below : Below outer path) (directory : Place) :
    place directory outer <+: place directory path := by
  obtain ⟨relative, ⟨names, some_name, ordinary, rfl⟩, rfl⟩ := below
  rw [place, place, components_join outer ordinary some_name, List.foldl_append, foldl_names]
  exact List.prefix_append _ _

theorem Below.eq_of_place {outer path other : String} (below : Below outer path)
    (below' : Below outer other) {directory : Place}
    (same : place directory path = place directory other) : path = other := by
  obtain ⟨relative, ⟨names, some_name, ordinary, rfl⟩, rfl⟩ := below
  obtain ⟨relative, ⟨names', some_name', ordinary', rfl⟩, rfl⟩ := below'
  rw [place, place, components_join outer ordinary some_name,
    components_join outer ordinary' some_name', List.foldl_append, List.foldl_append, foldl_names,
    foldl_names] at same
  rw [List.append_cancel_left same]

theorem steps_eq_map (path : String) : ∃ lead parts last,
    pieces path = lead ++ parts ++ [last] ∧ (steps path).2 = parts.map stepOf ++ [stepOf last] := by
  rcases steps_eq path with ⟨part, parts, split, steps⟩ | ⟨-, steps⟩
  · obtain ⟨others, last, whole⟩ := List.eq_nil_or_concat' (part :: parts) |>.resolve_left (by simp)
    rw [split, steps, whole]
    exact ⟨[[]], others, last, by simp, by simp⟩
  · obtain ⟨others, last, whole⟩ := List.eq_nil_or_concat' (pieces path)
      |>.resolve_left (pieces_ne_nil path)
    rw [steps, whole]
    exact ⟨[], others, last, by simp, by simp⟩

theorem fileName?_of_pieces {path name : String} {parts : List (List Char)} {last : List Char}
    (split : pieces path = parts ++ [last]) (named : component? last = some (.name name)) :
    fileName? path = some name := by
  rw [fileName?, components_eq, split, List.filterMap_append, List.filterMap_cons_some named,
    ← List.append_assoc]
  simp

theorem component?_of_stepOf {part : List Char} {name : String} (step : stepOf part = .down name) :
    component? part = some (.name name) := by
  rw [stepOf] at step
  rw [component?]
  split at step
  · cases step
  · rename_i solid
    rw [if_neg solid]
    split at step
    · cases step
    · rename_i down
      rw [if_neg down]
      cases step
      rfl

end Path

namespace FileTree

variable {t t' : FileTree} {directory place : Place} {steps : List Step} {path : String}

/-! ### Walks -/

theorem walk_cons_iff {s : Step} : t.walk directory (s :: steps) = .ok place ↔
    t.node? directory = some .directory ∧ s.Fits ∧
      t.walk (s.follow directory) steps = .ok place := by
  conv_lhs => unfold walk
  cases node : t.node? directory with
  | none => simp
  | some n =>
    cases n with
    | file content => simp
    | directory =>
      cases s with
      | stay => simp [Step.Fits, Step.follow]
      | up => simp [Step.Fits, Step.follow]
      | down name =>
        by_cases long : maxNameSize < name.utf8ByteSize
        · simp [Step.Fits, long, Nat.not_le.2 long]
        · simp [Step.Fits, Step.follow, long, Nat.le_of_not_lt long]

theorem walk_place (walked : t.walk directory steps = .ok place) :
    place = steps.foldl Step.follow directory := by
  induction steps generalizing directory with
  | nil =>
    cases walked
    rfl
  | cons s steps ih => exact ih (walk_cons_iff.1 walked).2.2

theorem walk_concat {s : Step} (walked : t.walk directory (steps ++ [s]) = .ok place) :
    ∃ before, t.walk directory steps = .ok before ∧ t.node? before = some .directory ∧
      place = s.follow before := by
  induction steps generalizing directory with
  | nil =>
    obtain ⟨here, -, done⟩ := walk_cons_iff.1 walked
    cases done
    exact ⟨directory, rfl, here, rfl⟩
  | cons first steps ih =>
    obtain ⟨here, fits, walked⟩ := walk_cons_iff.1 walked
    obtain ⟨before, walked, there, follows⟩ := ih walked
    exact ⟨before, walk_cons_iff.2 ⟨here, fits, walked⟩, there, follows⟩

/-- Every directory of one tree is one of the other too. -/
def Keeps (t t' : FileTree) : Prop :=
  ∀ place, t.node? place = some .directory → t'.node? place = some .directory

theorem walk_of_keeps (keeps : Keeps t t') (walked : t.walk directory steps = .ok place) :
    t'.walk directory steps = .ok place := by
  induction steps generalizing directory with
  | nil => exact walked
  | cons s steps ih =>
    obtain ⟨here, fits, walked⟩ := walk_cons_iff.1 walked
    exact walk_cons_iff.2 ⟨keeps _ here, fits, ih walked⟩

/-- A place whose outer places, from the root on, are directories. -/
def Anchored (t : FileTree) (place : Place) : Prop :=
  ∀ outer, outer <+: place → outer ≠ place → t.node? outer = some .directory

theorem Anchored.follow {s : Step} (anchored : t.Anchored directory)
    (here : t.node? directory = some .directory) : t.Anchored (s.follow directory) := by
  intro outer above other
  cases s with
  | stay => exact anchored outer above other
  | up =>
    have shorter := above.trans (List.dropLast_prefix directory)
    by_cases whole : outer = directory
    · rw [whole]
      exact here
    · exact anchored outer shorter whole
  | down name =>
    rcases List.prefix_concat_iff.1 above with whole | above
    · exact absurd whole other
    · by_cases whole : outer = directory
      · rw [whole]
        exact here
      · exact anchored outer above whole

theorem Anchored.walk (anchored : t.Anchored directory)
    (walked : t.walk directory steps = .ok place) : t.Anchored place := by
  induction steps generalizing directory with
  | nil =>
    cases walked
    exact anchored
  | cons s steps ih =>
    obtain ⟨here, -, walked⟩ := walk_cons_iff.1 walked
    exact ih (anchored.follow here) walked

theorem locate_eq_ok_iff : t.locate directory path = .ok place ↔
    path ≠ "" ∧ path.utf8ByteSize ≤ maxPathSize ∧
      t.walk (if (Path.steps path).1 then [] else directory) (Path.steps path).2 = .ok place := by
  rw [locate]
  by_cases empty : path = ""
  · simp [empty]
  · by_cases long : maxPathSize < path.utf8ByteSize
    · simp [empty, long, Nat.not_le.2 long]
    · simp [empty, long, Nat.le_of_not_lt long]

theorem locate_place (located : t.locate directory path = .ok place) :
    place = Path.place directory path := by
  rw [← Path.foldl_steps]
  exact walk_place (locate_eq_ok_iff.1 located).2.2

theorem locate_of_keeps (keeps : Keeps t t') (located : t.locate directory path = .ok place) :
    t'.locate directory path = .ok place := by
  obtain ⟨some_path, short, walked⟩ := locate_eq_ok_iff.1 located
  exact locate_eq_ok_iff.2 ⟨some_path, short, walk_of_keeps keeps walked⟩

theorem anchored_nil : t.Anchored [] := fun _ above other =>
  absurd (List.prefix_nil.1 above) other

theorem Anchored.dropLast (anchored : t.Anchored place) :
    t.node? place.dropLast = some .directory := by
  by_cases root : place = []
  · rw [root]
    rfl
  · apply anchored _ (List.dropLast_prefix place)
    intro same
    have shorter := congrArg List.length same
    have := List.length_pos_iff.2 root
    rw [List.length_dropLast] at shorter
    omega

theorem fileName?_of_locate (anchored : t.Anchored directory)
    (located : t.locate directory path = .ok place) (leaf : t.node? place ≠ some .directory) :
    ∃ name, Path.fileName? path = some name := by
  obtain ⟨lead, parts, last, split, steps⟩ := Path.steps_eq_map path
  obtain ⟨-, -, walked⟩ := locate_eq_ok_iff.1 located
  rw [steps] at walked
  obtain ⟨before, walked, there, follows⟩ := walk_concat walked
  have outer : t.Anchored before := by
    split at walked
    · exact Anchored.walk (anchored_nil) walked
    · exact anchored.walk walked
  cases step : Path.stepOf last with
  | stay =>
    rw [step] at follows
    exact absurd (follows ▸ there) leaf
  | up =>
    rw [step] at follows
    exact absurd (follows ▸ outer.dropLast) leaf
  | down name => exact ⟨name, Path.fileName?_of_pieces split (Path.component?_of_stepOf step)⟩

theorem exists_of_read {text : String} (read : t.read directory path = .ok text) :
    ∃ place content, t.locate directory path = .ok place ∧ t.node? place = some (.file content) ∧
      String.fromUTF8? content = some text := by
  rw [FileTree.read] at read
  cases located : t.locate directory path with
  | error failure =>
    rw [located] at read
    cases read
  | ok place =>
    rw [located] at read
    simp only [bind, Except.bind] at read
    split at read
    · cases read
    · cases read
    · rename_i content node
      split at read
      · rename_i decoded
        cases read
        exact ⟨place, content, rfl, node, decoded⟩
      · cases read

/-! ### Changes -/

theorem lookup_filter_ne {nodes : List (Place × Node)} {place other : Place} (ne : other ≠ place) :
    (nodes.filter (·.1 ≠ place)).lookup other = nodes.lookup other := by
  induction nodes with
  | nil => rfl
  | cons entry nodes ih =>
    by_cases dropped : entry.1 = place
    · rw [List.filter_cons_of_neg (by simpa using dropped), ih, List.lookup_cons,
        beq_false_of_ne (dropped ▸ ne)]
    · rw [List.filter_cons_of_pos (by simpa using dropped), List.lookup_cons, List.lookup_cons, ih]

theorem node?_put (n : Node) (inner : place ≠ []) (other : Place) :
    (t.put place n).node? other = if other = place then some n else t.node? other := by
  by_cases root : other = []
  · rw [root, if_neg (Ne.symm inner)]
    rfl
  · by_cases same : other = place
    · simp [node?, put, same, inner]
    · have apart : (other == place) = false := beq_false_of_ne same
      rw [if_neg same, node?, node?, put]
      simp only [List.lookup_cons, apart, lookup_filter_ne same]

theorem exists_of_write {text : String} (wrote : t.write directory path text = .ok t') :
    ∃ place, t.locate directory path = .ok place ∧ t.node? place ≠ some .directory ∧
      t' = t.put place (.file text.toUTF8) := by
  rw [write] at wrote
  cases located : t.locate directory path with
  | error failure =>
    rw [located] at wrote
    cases wrote
  | ok place =>
    rw [located] at wrote
    simp only [bind, Except.bind] at wrote
    split at wrote
    · cases wrote
    · rename_i free
      cases wrote
      exact ⟨place, rfl, free, rfl⟩

theorem exists_of_makeDirectory (made : t.makeDirectory directory path = .ok t') :
    ∃ place, t.locate directory path = .ok place ∧ t.node? place = none ∧
      t' = t.put place .directory := by
  rw [makeDirectory] at made
  cases located : t.locate directory path with
  | error failure =>
    rw [located] at made
    cases made
  | ok place =>
    rw [located] at made
    simp only [bind, Except.bind] at made
    split at made
    · cases made
    · rename_i free
      cases made
      exact ⟨place, rfl, free, rfl⟩

theorem keeps_put {n : Node} (free : t.node? place ≠ some .directory) :
    Keeps t (t.put place n) := by
  have inner : place ≠ [] := fun root => free (by rw [root]; rfl)
  intro other here
  rw [node?_put n inner, if_neg]
  · exact here
  · rintro rfl
    exact free here

theorem read_of_locate {text : String} (located : t.locate directory path = .ok place)
    (node : t.node? place = some (.file text.toUTF8)) : t.read directory path = .ok text := by
  have decoded : String.fromUTF8? text.toUTF8 = some text := dif_pos text.isValidUTF8
  simp only [read, located, bind, Except.bind, node, decoded]
  rfl

theorem read_of_write {text : String} (wrote : t.write directory path text = .ok t') :
    t'.read directory path = .ok text := by
  obtain ⟨place, located, free, rfl⟩ := exists_of_write wrote
  have inner : place ≠ [] := fun root => free (by rw [root]; rfl)
  refine read_of_locate (locate_of_keeps (keeps_put free) located) ?_
  rw [node?_put _ inner, if_pos rfl]

theorem read_of_keeps (keeps : Keeps t t') (located : t.locate directory path = .ok place)
    (same : t'.node? place = t.node? place) : t'.read directory path = t.read directory path := by
  rw [read, read, located, locate_of_keeps keeps located]
  simp only [bind, Except.bind, same]

end FileTree

end KeySubst

import KeySubst.Filter
import KeySubst.Proofs.Files.Path
import Mathlib.Data.List.Forall2
import Mathlib.Data.List.TakeWhile

/-!
# Spellings of names

A name may have any number of dots in front and backslashes for slashes, and stand below the base
directory or be relative to it.
-/

namespace KeySubst

open KeySubst.Path (components pieces isAbsolute isVoid join)

namespace Path

/-- A path whose pieces are all components. -/
def IsSolid (path : String) : Prop := ∀ part ∈ pieces path, isVoid part = false

instance (path : String) : Decidable (IsSolid path) := inferInstanceAs (Decidable (∀ _ ∈ _, _))

theorem IsSolid.isAbsolute {path : String} (solid : IsSolid path) : isAbsolute path = false := by
  rw [← Bool.not_eq_true, isAbsolute_iff]
  rintro ⟨part, parts, split⟩
  have void := solid [] (by rw [split]; exact List.mem_cons_self)
  cases void

theorem dropComponents_zero (parts : List (List Char)) :
    dropComponents 0 parts = parts.dropWhile isVoid := by
  induction parts with
  | nil => rfl
  | cons part parts ih =>
    rw [dropComponents]
    by_cases void : isVoid part = true
    · rw [if_pos void, List.dropWhile_cons_of_pos void, ih]
    · rw [if_neg void, List.dropWhile_cons_of_neg void]

theorem dropComponents_append (parts others : List (List Char)) :
    dropComponents (parts.filterMap component?).length (parts ++ others) =
      others.dropWhile isVoid := by
  induction parts with
  | nil => exact dropComponents_zero others
  | cons part parts ih =>
    rw [List.cons_append]
    unfold dropComponents
    by_cases void : isVoid part = true
    · rw [if_pos void, List.filterMap_cons_none (component?_of_isVoid void), ih]
    · obtain ⟨c, component⟩ := exists_component?_of_not_isVoid (Bool.eq_false_iff.2 void)
      rw [if_neg void, List.filterMap_cons_some component]
      exact ih

theorem dropWhile_isVoid {parts : List (List Char)} (solid : ∀ part ∈ parts, isVoid part = false) :
    parts.dropWhile isVoid = parts := by
  rw [List.dropWhile_eq_self_iff]
  intro some_part
  exact Bool.eq_false_iff.1 (solid _ (List.getElem_mem some_part))

theorem IsSolid.trimEnd {path : String} (solid : IsSolid path) :
    trimEnd (pieces path) = pieces path := by
  rw [Path.trimEnd, dropWhile_isVoid fun part member => solid part (List.mem_reverse.1 member),
    List.reverse_reverse]

theorem shape_root {path : String} {part : List Char} {parts : List (List Char)}
    (split : pieces path = [] :: part :: parts) : shape path = ⟨some .root, part :: parts⟩ := by
  rcases shape_cases path with ⟨_, _, split', shape⟩ | ⟨split', -⟩ | ⟨_, _, split', -⟩ |
    ⟨nowhere, -⟩
  · rw [split] at split'
    cases split'
    exact shape
  · rw [split] at split'
    cases split'
  · rw [split] at split'
    cases split'
  · rw [split] at nowhere
    cases nowhere

theorem component?_ne_root (part : List Char) : component? part ≠ some .root := by
  rw [component?]
  split
  · simp
  · split <;> simp

theorem isAbsolute_iff_components {path : String} :
    isAbsolute path = true ↔ (components path).head? = some .root := by
  rw [components_eq_shape]
  rcases shape_cases path with ⟨part, parts, split, shape⟩ | ⟨split, shape⟩ |
    ⟨part, parts, split, shape⟩ | ⟨nowhere, shape⟩
  · rw [isAbsolute_iff, split, shape]
    simp
  · rw [isAbsolute_iff, split, shape]
    simp
  · rw [isAbsolute_iff, split, shape]
    simp
  · rw [isAbsolute_iff, shape]
    constructor
    · rintro ⟨part, parts, split⟩
      rw [split] at nowhere
      cases nowhere
    · intro root
      obtain ⟨part, -, named⟩ := List.mem_filterMap.1 (List.mem_of_head? root)
      exact absurd named (component?_ne_root part)

theorem isAbsolute_congr {path other : String} (same : components path = components other) :
    isAbsolute path = isAbsolute other := by
  rw [Bool.eq_iff_iff, isAbsolute_iff_components, isAbsolute_iff_components, same]

theorem pieces_join {directory path : String} (absolute : isAbsolute directory = true)
    (relative : isAbsolute path = false) :
    ∃ lead, pieces (join directory path) = [] :: (lead ++ pieces path) ∧
      components directory = .root :: lead.filterMap component? := by
  obtain ⟨part, parts, split⟩ := (isAbsolute_iff directory).1 absolute
  have rooted : components directory = .root :: (part :: parts).filterMap component? := by
    rw [components_eq, split]
    rfl
  rw [join, relative, if_neg (by simp)]
  by_cases ends : directory.toList.getLast? = some '/'
  · obtain ⟨outer, whole⟩ := List.getLast?_eq_some_iff.1 ends
    have alone : pieces directory = splitSlash outer ++ [[]] := by
      rw [pieces, whole, splitSlash_append_slash]
      rfl
    obtain ⟨first, lead, outer_split⟩ := List.exists_cons_of_ne_nil (splitSlash_ne_nil outer)
    rw [split, outer_split, List.cons_append, List.cons.injEq] at alone
    obtain ⟨rfl, alone⟩ := alone
    -- The slash at the end is the one between the two paths.
    refine ⟨lead, ?_, ?_⟩
    · rw [if_pos (by simp [ends]), pieces, String.toList_append, whole, List.append_assoc,
        List.singleton_append, splitSlash_append_slash, outer_split]
      rfl
    · rw [rooted, alone, List.filterMap_append]
      simp [component?, isVoid]
  · have full : directory ≠ "" := by
      rintro rfl
      cases absolute
    refine ⟨part :: parts, ?_, rooted⟩
    rw [if_neg (by simp [full, ends]), pieces, String.toList_append, String.toList_append,
      List.append_assoc]
    change splitSlash (directory.toList ++ '/' :: path.toList) = _
    rw [splitSlash_append_slash, ← pieces, split]
    rfl

theorem isAbsolute_join {directory path : String} (absolute : isAbsolute directory = true)
    (relative : isAbsolute path = false) : isAbsolute (join directory path) = true := by
  obtain ⟨lead, split, -⟩ := pieces_join absolute relative
  obtain ⟨part, parts, behind⟩ :=
    List.exists_cons_of_ne_nil (List.append_ne_nil_of_right_ne_nil lead (pieces_ne_nil path))
  exact (isAbsolute_iff _).2 ⟨part, parts, by rw [split, behind]⟩

theorem relativeTo?_join {base directory path : String} (absolute : isAbsolute directory = true)
    (same : components directory = components base) (relative : isAbsolute path = false) :
    relativeTo? base (join directory path) =
      some (String.ofList (joinSlash (trimEnd ((pieces path).dropWhile isVoid)))) := by
  obtain ⟨lead, split, above⟩ := pieces_join absolute relative
  obtain ⟨part, parts, behind⟩ : ∃ part parts, lead ++ pieces path = part :: parts :=
    List.exists_cons_of_ne_nil (List.append_ne_nil_of_right_ne_nil lead (pieces_ne_nil path))
  have shaped : shape (join directory path) = ⟨some .root, lead ++ pieces path⟩ := by
    rw [behind] at split ⊢
    exact shape_root split
  have starts : (components base).isPrefixOf (components (join directory path)) = true := by
    rw [List.isPrefixOf_iff_prefix, ← same, above, components_eq_shape, shaped,
      List.filterMap_append]
    exact List.cons_prefix_cons.2 ⟨rfl, List.prefix_append _ _⟩
  have some_component : (components base).isEmpty = false := by
    rw [← same, above]
    rfl
  -- The root of the base is no piece of the path, the other components of the base are.
  have count : (components base).length - 1 = (lead.filterMap component?).length := by
    rw [← same, above]
    rfl
  simp only [relativeTo?, starts, some_component, shaped, if_true, Bool.false_eq_true, if_false,
    Option.toList_some, List.length_singleton, count, dropComponents_append]

theorem mem_joinSlash {c : Char} {parts : List (List Char)} (other : c ≠ '/') :
    c ∈ joinSlash parts ↔ ∃ part ∈ parts, c ∈ part := by
  induction parts with
  | nil => simp [joinSlash]
  | cons part parts ih =>
    cases parts with
    | nil => simp [joinSlash]
    | cons next parts =>
      rw [joinSlash_cons, List.mem_append, List.mem_cons, ih]
      simp [other]

theorem mem_iff_components {c : Char} {path : String} (no_slash : c ≠ '/') (no_dot : c ≠ '.') :
    c ∈ path.toList ↔ ∃ text, .name text ∈ components path ∧ c ∈ text.toList := by
  have whole : joinSlash (pieces path) = path.toList := joinSlash_splitSlash path.toList
  rw [← whole, mem_joinSlash no_slash]
  constructor
  · rintro ⟨part, listed, member⟩
    have solid : isVoid part = false := by
      rw [← Bool.not_eq_true, isVoid]
      rintro void
      rcases Bool.or_eq_true_iff.1 void with empty | dot
      · simp [List.isEmpty_iff.1 empty] at member
      · simp [of_decide_eq_true dot, no_dot] at member
    have single : part ≠ ['.', '.'] := by
      rintro rfl
      simp [no_dot] at member
    refine ⟨String.ofList part, ?_, by simpa using member⟩
    rw [components_eq, List.mem_append, List.mem_filterMap]
    exact .inr ⟨part, listed, by simp [component?, solid, single]⟩
  · rintro ⟨text, listed, member⟩
    rw [components_eq, List.mem_append, List.mem_filterMap] at listed
    rcases listed with first | ⟨part, listed, named⟩
    · exact absurd first not_name_of_mem_start
    · refine ⟨part, listed, ?_⟩
      rw [component?] at named
      split at named
      · cases named
      · split at named
        · cases named
        · cases named
          simpa using member

def dotted : Nat → String → String
  | 0, path => path
  | n + 1, path => "./" ++ dotted n path

theorem toList_dotted_succ (n : Nat) (path : String) :
    (dotted (n + 1) path).toList = '.' :: '/' :: (dotted n path).toList := by
  rw [dotted, String.toList_append]
  rfl

theorem pieces_dotted (n : Nat) (path : String) :
    pieces (dotted n path) = List.replicate n ['.'] ++ pieces path := by
  induction n with
  | zero => rfl
  | succ n ih =>
    rw [List.replicate_succ, List.cons_append, ← ih, pieces, toList_dotted_succ]
    exact splitSlash_append_slash ['.'] (dotted n path).toList

theorem IsSolid.isAbsolute_dotted {path : String} (solid : IsSolid path) (n : Nat) :
    Path.isAbsolute (dotted n path) = false := by
  cases n with
  | zero => exact solid.isAbsolute
  | succ n =>
    rw [Path.isAbsolute, toList_dotted_succ]
    rfl

theorem IsSolid.relativeTo?_join {base directory path : String} (solid : IsSolid path) (n : Nat)
    (absolute : Path.isAbsolute base = true) (same : components directory = components base) :
    Path.relativeTo? base (join directory (dotted n path)) = some path := by
  have absolute' : Path.isAbsolute directory = true := (isAbsolute_congr same).trans absolute
  have left : (pieces (dotted n path)).dropWhile isVoid = pieces path := by
    rw [pieces_dotted, List.dropWhile_append_of_pos, dropWhile_isVoid solid]
    intro part member
    rw [List.eq_of_mem_replicate member]
    rfl
  rw [Path.relativeTo?_join absolute' same (solid.isAbsolute_dotted n), left, solid.trimEnd, pieces,
    joinSlash_splitSlash, String.ofList_toList]

def Turns (c d : Char) : Prop := d = c ∨ c = '/' ∧ d = '\\'

/-- A path with some of its slashes written as backslashes. -/
def Turned (path turned : String) : Prop := List.Forall₂ Turns path.toList turned.toList

def toSlashes (path : String) : String :=
  String.ofList (path.toList.map fun c => if c = '\\' then '/' else c)

theorem Turned.toSlashes {path turned : String} (spelt : Turned path turned) :
    toSlashes turned = toSlashes path := by
  have same : ∀ {cs ds : List Char}, List.Forall₂ Turns cs ds →
      (ds.map fun c => if c = '\\' then '/' else c) =
        cs.map fun c => if c = '\\' then '/' else c := by
    intro cs ds turns
    induction turns with
    | nil => rfl
    | cons turn _ ih =>
      rw [List.map_cons, List.map_cons, ih]
      rcases turn with rfl | ⟨rfl, rfl⟩
      · rfl
      · rfl
  rw [Path.toSlashes, Path.toSlashes, same spelt]

theorem mem_toSlashes {c : Char} {path : String} (no_slash : c ≠ '/') (no_backslash : c ≠ '\\') :
    c ∈ (toSlashes path).toList ↔ c ∈ path.toList := by
  rw [toSlashes, String.toList_ofList, List.mem_map]
  constructor
  · rintro ⟨d, member, turned⟩
    split at turned
    · exact absurd turned.symm no_slash
    · exact turned ▸ member
  · intro member
    exact ⟨c, member, if_neg no_backslash⟩

theorem pieces_of_turns {cs ds : List Char} (turns : List.Forall₂ Turns cs ds) :
    ∃ p ps q qs, splitSlash cs = p :: ps ∧ splitSlash ds = q :: qs ∧ (q = p ∨ '\\' ∈ q) ∧
      ∀ part ∈ qs, part ∈ ps ∨ '\\' ∈ part := by
  -- Pieces grow into one where the slash between them turns, and that one has a backslash in it.
  induction turns with
  | nil => exact ⟨[], [], [], [], rfl, rfl, .inl rfl, by simp⟩
  | @cons c d cs ds turn _ ih =>
    obtain ⟨p, ps, q, qs, split, split', first, others⟩ := ih
    rcases turn with rfl | ⟨rfl, rfl⟩
    · by_cases slash : d = '/'
      · subst slash
        refine ⟨[], p :: ps, [], q :: qs, by simp [splitSlash, split], by simp [splitSlash, split'],
          .inl rfl, ?_⟩
        intro part member
        rcases List.mem_cons.1 member with rfl | member
        · exact first.imp_left fun same => List.mem_cons.2 (.inl same)
        · exact (others part member).imp_left (List.mem_cons_of_mem p)
      · refine ⟨d :: p, ps, d :: q, qs, by simp [splitSlash, split, slash],
          by simp [splitSlash, split', slash], ?_, others⟩
        exact first.imp (congrArg (d :: ·)) (List.mem_cons_of_mem d)
    · refine ⟨[], p :: ps, '\\' :: q, qs, by simp [splitSlash, split],
        by simp [splitSlash, split'], .inr List.mem_cons_self, ?_⟩
      exact fun part member => (others part member).imp_left (List.mem_cons_of_mem p)

theorem Turned.isSolid {path turned : String} (spelt : Turned path turned) (solid : IsSolid path) :
    IsSolid turned := by
  obtain ⟨p, ps, q, qs, split, split', first, others⟩ := pieces_of_turns spelt
  have kept : ∀ part ∈ pieces turned, part ∈ pieces path ∨ '\\' ∈ part := by
    intro part member
    rw [pieces, split'] at member
    rw [pieces, split]
    rcases List.mem_cons.1 member with rfl | member
    · exact first.imp_left fun same => List.mem_cons.2 (.inl same)
    · exact (others part member).imp_left (List.mem_cons_of_mem p)
  intro part member
  rcases kept part member with piece | backslash
  · exact solid part piece
  · rw [isVoid, Bool.or_eq_false_iff, decide_eq_false_iff_not, List.isEmpty_eq_false_iff]
    constructor
    · rintro rfl
      cases backslash
    · rintro rfl
      revert backslash
      decide

end Path

/-! ### Names as they are matched -/

namespace Filter

open KeySubst.Path (IsSolid Turned dotted toSlashes)

def selects (included excluded : List (List Glob.Part)) (path : String) : Bool :=
  (included.isEmpty || included.any (Glob.isMatch · path)) && !excluded.any (Glob.isMatch · path)

theorem ofPatterns_eq_ok {included excluded : List String} {base : Option String} {f : Filter}
    (made : ofPatterns included excluded base = .ok f) :
    ∃ admitting refusing, Glob.parsePatterns included = .ok admitting ∧
      Glob.parsePatterns excluded = .ok refusing ∧
      f = ⟨if admitting.isEmpty then none else some admitting, refusing, base⟩ := by
  rw [ofPatterns] at made
  obtain ⟨admitting, includes, made⟩ := Error.exists_of_bind_ok made
  obtain ⟨refusing, excludes, made⟩ := Error.exists_of_bind_ok made
  exact ⟨admitting, refusing, includes, excludes, (Except.ok.inj made).symm⟩

theorem admits_of_nul {f : Filter} {name : String} (nul : '\x00' ∈ name.toList) :
    f.admits name = false := by
  rw [admits, if_pos (List.contains_iff_mem.2 nul)]

theorem admits_eq {included excluded : List (List Glob.Part)} {base : Option String} {f : Filter}
    (made : f = ⟨if included.isEmpty then none else some included, excluded, base⟩) {name : String}
    (clean : '\x00' ∉ name.toList) :
    f.admits name = selects included excluded (f.normalize name) := by
  subst made
  rw [admits, if_neg (by simpa using clean), selects]
  generalize normalize _ name = path
  cases refused : excluded.any (Glob.isMatch · path) with
  | true =>
    rw [if_pos refused, Bool.not_true, Bool.and_false]
  | false =>
    rw [if_neg (by simp [refused]), Bool.not_false, Bool.and_true]
    cases included with
    | nil => rfl
    | cons glob globs => rfl

theorem dropDotSlash_toSlashes_dotted (n : Nat) (path : String) :
    dropDotSlash (toSlashes (dotted n path)).toList = dropDotSlash (toSlashes path).toList := by
  induction n with
  | zero => rfl
  | succ n ih =>
    rw [← ih, toSlashes, Path.toList_dotted_succ, toSlashes]
    simp [dropDotSlash]

variable {f : Filter} {base : String}

theorem normalize_relative {name : String} (relative : isAbsolute name = false) :
    f.normalize name = String.ofList (dropDotSlash (toSlashes name).toList) := by
  rw [normalize, toSlashes, String.toList_ofList]
  cases f.baseDirectory with
  | none => rfl
  | some base => simp only [relative, Bool.false_eq_true, if_false]

theorem normalize_below {name rest : String} (based : f.baseDirectory = some base)
    (absolute : isAbsolute name = true) (below : Path.relativeTo? base name = some rest) :
    f.normalize name = String.ofList (dropDotSlash (toSlashes rest).toList) := by
  simp only [normalize, based, absolute, below, if_true, Option.getD_some, toSlashes,
    String.toList_ofList]

theorem normalize_elsewhere {name : String} (based : f.baseDirectory = some base)
    (absolute : isAbsolute name = true) (elsewhere : ¬ components base <+: components name) :
    f.normalize name = toSlashes name := by
  have apart : Path.relativeTo? base name = none := by
    rw [Path.relativeTo?]
    exact if_neg fun starts => elsewhere (List.isPrefixOf_iff_prefix.1 starts)
  -- It starts with a slash, and so not with a dot that would be dropped.
  obtain ⟨rest, starts⟩ : ∃ rest, name.toList = '/' :: rest := by
    rw [isAbsolute, decide_eq_true_iff] at absolute
    exact List.head?_eq_some_iff.1 absolute
  simp only [normalize, based, absolute, apart, if_true, Option.getD_none, toSlashes, starts,
    List.map_cons]
  rfl

/-- The names of what has a path below the base directory. -/
inductive Spells (base path : String) : String → Prop where
  | relative {turned : String} (n : Nat) (spelt : Turned path turned) :
      Spells base path (dotted n turned)
  | below {turned directory : String} (n : Nat) (spelt : Turned path turned)
      (same : components directory = components base) :
      Spells base path (join directory (dotted n turned))

theorem normalize_spells {path name : String} (based : f.baseDirectory = some base)
    (absolute : isAbsolute base = true) (solid : IsSolid path) (spells : Spells base path name) :
    f.normalize name = String.ofList (dropDotSlash (toSlashes path).toList) := by
  cases spells with
  | @relative turned n spelt =>
    have solid' := spelt.isSolid solid
    rw [normalize_relative (solid'.isAbsolute_dotted n), dropDotSlash_toSlashes_dotted,
      spelt.toSlashes]
  | @below turned directory n spelt same =>
    have solid' := spelt.isSolid solid
    have absolute' : isAbsolute directory = true := (Path.isAbsolute_congr same).trans absolute
    rw [normalize_below based (Path.isAbsolute_join absolute' (solid'.isAbsolute_dotted n))
      (solid'.relativeTo?_join n absolute same), spelt.toSlashes]

theorem nul_dotted (n : Nat) (path : String) :
    '\x00' ∈ (dotted n path).toList ↔ '\x00' ∈ path.toList := by
  induction n with
  | zero => rfl
  | succ n ih =>
    rw [Path.toList_dotted_succ, ← ih]
    simp

theorem nul_of_turned {path turned : String} (spelt : Turned path turned) :
    '\x00' ∈ turned.toList ↔ '\x00' ∈ path.toList := by
  rw [← Path.mem_toSlashes (by decide) (by decide), spelt.toSlashes,
    Path.mem_toSlashes (by decide) (by decide)]

theorem nul_join {directory path : String} (clean : '\x00' ∉ directory.toList)
    (relative : isAbsolute path = false) :
    '\x00' ∈ (join directory path).toList ↔ '\x00' ∈ path.toList := by
  rw [join, relative, if_neg (by simp)]
  split
  · simp [clean]
  · simp [clean]

theorem nul_of_spells {path name : String} (clean : '\x00' ∉ base.toList) (solid : IsSolid path)
    (spells : Spells base path name) : '\x00' ∈ name.toList ↔ '\x00' ∈ path.toList := by
  cases spells with
  | relative n spelt => rw [nul_dotted, nul_of_turned spelt]
  | @below turned directory n spelt same =>
    have clean' : '\x00' ∉ directory.toList := by
      rw [Path.mem_iff_components (by decide) (by decide), same,
        ← Path.mem_iff_components (by decide) (by decide)]
      exact clean
    rw [nul_join clean' ((spelt.isSolid solid).isAbsolute_dotted n), nul_dotted,
      nul_of_turned spelt]

/-! ### Decisions -/

/-- A filter decides about what has a path below its base directory alike under all its names, and
takes no name with a NUL character. Absolute names of what lies elsewhere are matched whole. -/
theorem admits_spellings {included excluded : List String}
    (made : ofPatterns included excluded (some base) = .ok f) (absolute : isAbsolute base = true)
    (clean : '\x00' ∉ base.toList) :
    (∀ path name, IsSolid path → Spells base path name → f.admits name = f.admits path) ∧
    (∃ admitting refusing, Glob.parsePatterns included = .ok admitting ∧
      Glob.parsePatterns excluded = .ok refusing ∧
      ∀ name, isAbsolute name = true → ¬ components base <+: components name →
        '\x00' ∉ name.toList → f.admits name = selects admitting refusing (toSlashes name)) ∧
    ∀ name, '\x00' ∈ name.toList → f.admits name = false := by
  obtain ⟨admitting, refusing, includes, excludes, parts⟩ := ofPatterns_eq_ok made
  have based : f.baseDirectory = some base := by rw [parts]
  refine ⟨?_, ⟨admitting, refusing, includes, excludes, ?_⟩, fun name => admits_of_nul⟩
  · intro path name solid spells
    have nul := nul_of_spells clean solid spells
    by_cases void : '\x00' ∈ path.toList
    · rw [admits_of_nul void, admits_of_nul (nul.2 void)]
    · rw [admits_eq parts void, admits_eq parts (void ∘ nul.1),
        normalize_spells based absolute solid spells, normalize_relative solid.isAbsolute]
  · intro name absolute' elsewhere void
    rw [admits_eq parts void, normalize_elsewhere based absolute' elsewhere]

theorem admits_spellings_source :
    ∃ f admitting refusing, ofPatterns ["src/*.js"] ["src/x.js"] (some "/app") = .ok f ∧
      Glob.parsePatterns ["src/*.js"] = .ok admitting ∧
      Glob.parsePatterns ["src/x.js"] = .ok refusing ∧
      f.admits "src/a.js" = true ∧ f.admits "././src\\a.js" = f.admits "src/a.js" ∧
      f.admits "/app//././src\\a.js" = f.admits "src/a.js" ∧
      f.admits "/app2\\src/a.js" = selects admitting refusing "/app2/src/a.js" ∧
      f.admits "/app/src/\x00.js" = false := by
  have taken : (ofPatterns ["src/*.js"] ["src/x.js"] (some "/app")).toOption.any
      (·.admits "src/a.js") = true := by decide +kernel
  cases made : ofPatterns ["src/*.js"] ["src/x.js"] (some "/app") with
  | error fault =>
    rw [made] at taken
    cases taken
  | ok f =>
    rw [made] at taken
    obtain ⟨alike, ⟨admitting, refusing, includes, excludes, whole⟩, nul⟩ :=
      admits_spellings made (by decide) (by decide)
    have turned : Turned "src/a.js" "src\\a.js" := by simp [Turned, Path.Turns]
    refine ⟨f, admitting, refusing, rfl, includes, excludes, taken, ?_, ?_, ?_, nul _ (by decide)⟩
    · exact alike "src/a.js" _ (by decide) (.relative 2 turned)
    · exact alike "src/a.js" _ (by decide) (@Spells.below _ _ _ "/app//." 1 turned (by decide))
    · exact whole "/app2\\src/a.js" (by decide) (by decide) (by decide)

end Filter

end KeySubst

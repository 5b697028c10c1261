import KeySubst.Files.Path
import Mathlib.Data.List.Basic

/-!
# Components of paths

The components of a path are told by the pieces between its slashes (`components_eq`).
-/

namespace KeySubst.Path

theorem splitSlash_eq_splitOn (cs : List Char) : splitSlash cs = cs.splitOn '/' := by
  induction cs with
  | nil => rfl
  | cons c cs ih =>
    rw [splitSlash, ih, List.splitOn_cons_eq_if_modifyHead]
    cases parts : cs.splitOn '/' with
    | nil => exact absurd parts (List.splitOn_ne_nil '/' cs)
    | cons part parts => simp

theorem splitSlash_ne_nil (cs : List Char) : splitSlash cs ≠ [] := by
  rw [splitSlash_eq_splitOn]
  exact List.splitOn_ne_nil '/' cs

theorem splitSlash_slash (cs : List Char) : splitSlash ('/' :: cs) = [] :: splitSlash cs := by
  rw [splitSlash_eq_splitOn, splitSlash_eq_splitOn, List.splitOn_cons_eq_if_modifyHead]
  rfl

theorem splitSlash_append_slash (cs ds : List Char) :
    splitSlash (cs ++ '/' :: ds) = splitSlash cs ++ splitSlash ds := by
  simp only [splitSlash_eq_splitOn]
  exact List.splitOn_append_cons_self cs ds

theorem slash_not_mem_of_mem_splitSlash {cs part : List Char} (member : part ∈ splitSlash cs) :
    '/' ∉ part := by
  induction cs generalizing part with
  | nil => simp_all [splitSlash]
  | cons c cs ih =>
    rw [splitSlash] at member
    cases parts : splitSlash cs with
    | nil => exact absurd parts (splitSlash_ne_nil cs)
    | cons first others =>
      rw [parts] at ih member
      by_cases slash : c = '/'
      · simp only [slash, if_true, List.mem_cons] at member
        rcases member with rfl | member
        · simp
        · exact ih (List.mem_cons.2 member)
      · simp only [slash, if_false, List.mem_cons] at member
        rcases member with rfl | member
        · have := ih (List.mem_cons_self : first ∈ first :: others)
          simp [this, Ne.symm slash]
        · exact ih (List.mem_cons_of_mem _ member)

theorem splitSlash_joinSlash {parts : List (List Char)} (free : ∀ part ∈ parts, '/' ∉ part)
    (some_part : parts ≠ []) : splitSlash (joinSlash parts) = parts := by
  rw [splitSlash_eq_splitOn]
  exact List.splitOn_intercalate '/' free some_part

theorem joinSlash_splitSlash (cs : List Char) : joinSlash (splitSlash cs) = cs := by
  rw [splitSlash_eq_splitOn]
  exact List.intercalate_splitOn '/'

theorem joinSlash_cons (part next : List Char) (parts : List (List Char)) :
    joinSlash (part :: next :: parts) = part ++ '/' :: joinSlash (next :: parts) := by
  rw [joinSlash, List.intercalate_cons_cons, List.append_assoc]
  rfl

def pieces (path : String) : List (List Char) := splitSlash path.toList

theorem pieces_ne_nil (path : String) : pieces path ≠ [] := splitSlash_ne_nil path.toList

theorem pieces_free (path : String) : ∀ part ∈ pieces path, '/' ∉ part :=
  fun _ => slash_not_mem_of_mem_splitSlash

theorem isAbsolute_iff (path : String) :
    isAbsolute path = true ↔ ∃ part parts, pieces path = [] :: part :: parts := by
  rw [isAbsolute, pieces, decide_eq_true_iff]
  cases path.toList with
  | nil => simp [splitSlash]
  | cons c cs =>
    obtain ⟨part, parts, split⟩ := List.exists_cons_of_ne_nil (splitSlash_ne_nil cs)
    by_cases slash : c = '/'
    · subst slash
      rw [splitSlash_slash, split]
      simp
    · simp [splitSlash, split, slash]

def start : List (List Char) → Option Component
  | [] => none
  | first :: others =>
    if first = ['.'] then some .here
    else if first = [] ∧ others ≠ [] then some .root
    else none

theorem start_kept {parts all : List (List Char)} (kept : parts <+: all)
    (nowhere : start all = none) : start parts = none := by
  obtain ⟨others, rfl⟩ := kept
  cases parts with
  | nil => rfl
  | cons first parts =>
    simp only [List.cons_append, start] at nowhere ⊢
    split at nowhere
    · cases nowhere
    · rename_i dot
      rw [if_neg dot]
      split at nowhere
      · cases nowhere
      · rename_i root
        rw [if_neg fun ⟨empty, more⟩ => root ⟨empty, List.append_ne_nil_of_left_ne_nil more others⟩]

theorem start_eq_none {cs : List Char} (notRoot : ∀ rest, cs ≠ '/' :: rest) (notDot : cs ≠ ['.'])
    (notHere : ∀ rest, cs ≠ '.' :: '/' :: rest) : start (splitSlash cs) = none := by
  have joined := joinSlash_splitSlash cs
  cases split : splitSlash cs with
  | nil => rfl
  | cons first others =>
    rw [split] at joined
    rw [start, if_neg, if_neg]
    · rintro ⟨rfl, more⟩
      obtain ⟨part, parts, rfl⟩ := List.exists_cons_of_ne_nil more
      rw [joinSlash_cons] at joined
      exact notRoot _ joined.symm
    · rintro rfl
      cases others with
      | nil => exact notDot joined.symm
      | cons part parts =>
        rw [joinSlash_cons] at joined
        exact notHere _ joined.symm

theorem shape_cases (path : String) :
    (∃ part parts, pieces path = [] :: part :: parts ∧ shape path = ⟨some .root, part :: parts⟩) ∨
    (pieces path = [['.']] ∧ shape path = ⟨some .here, []⟩) ∨
    (∃ part parts, pieces path = ['.'] :: part :: parts ∧
      shape path = ⟨some .here, [] :: part :: parts⟩) ∨
    (start (pieces path) = none ∧ shape path = ⟨none, pieces path⟩) := by
  rw [shape, pieces]
  split
  · rename_i rest starts
    obtain ⟨part, parts, split⟩ := List.exists_cons_of_ne_nil (splitSlash_ne_nil rest)
    rw [starts, splitSlash_slash, split]
    exact .inl ⟨part, parts, rfl, rfl⟩
  · rename_i starts
    rw [starts]
    exact .inr (.inl ⟨rfl, rfl⟩)
  · rename_i rest starts
    obtain ⟨part, parts, split⟩ := List.exists_cons_of_ne_nil (splitSlash_ne_nil rest)
    have dotted := splitSlash_append_slash ['.'] rest
    rw [List.singleton_append, split] at dotted
    rw [starts, splitSlash_slash, dotted, split]
    exact .inr (.inr (.inl ⟨part, parts, rfl, rfl⟩))
  · rename_i notRoot notDot notHere
    exact .inr (.inr (.inr ⟨start_eq_none notRoot notDot notHere, rfl⟩))

theorem components_eq_shape (path : String) : components path =
    (shape path).head.toList ++ (shape path).parts.filterMap component? := rfl

theorem components_eq (path : String) :
    components path = (start (pieces path)).toList ++ (pieces path).filterMap component? := by
  rw [components_eq_shape]
  rcases shape_cases path with ⟨part, parts, split, shape⟩ | ⟨split, shape⟩ |
    ⟨part, parts, split, shape⟩ | ⟨nowhere, shape⟩
  · rw [split, shape]
    rfl
  · rw [split, shape]
    rfl
  · rw [split, shape]
    rfl
  · rw [nowhere, shape]

theorem components_ofList {parts : List (List Char)} (free : ∀ part ∈ parts, '/' ∉ part)
    (some_part : parts ≠ []) : components (String.ofList (joinSlash parts)) =
      (start parts).toList ++ parts.filterMap component? := by
  rw [components_eq, pieces, String.toList_ofList, splitSlash_joinSlash free some_part]

theorem shape_parts_free (path : String) : ∀ part ∈ (shape path).parts, '/' ∉ part := by
  have free := pieces_free path
  rcases shape_cases path with ⟨part, parts, split, shape⟩ | ⟨split, shape⟩ |
    ⟨part, parts, split, shape⟩ | ⟨nowhere, shape⟩
  · rw [shape]
    rw [split] at free
    exact fun other member => free other (List.mem_cons_of_mem _ member)
  · simp [shape]
  · rw [shape]
    rw [split] at free
    intro other member
    rcases List.mem_cons.1 member with rfl | member
    · simp
    · exact free other (List.mem_cons_of_mem _ member)
  · rw [shape]
    exact free

theorem text_root (part : List Char) (parts : List (List Char)) :
    (Shape.mk (some .root) (part :: parts)).text =
      String.ofList (joinSlash ([] :: part :: parts)) := by
  rw [joinSlash_cons, List.nil_append, String.ofList_cons]
  rfl

theorem text_here (parts : List (List Char)) :
    (Shape.mk (some .here) ([] :: parts)).text = String.ofList (joinSlash (['.'] :: parts)) := by
  cases parts with
  | nil => rfl
  | cons part others =>
    rw [Shape.text, joinSlash_cons, joinSlash_cons, List.singleton_append, String.ofList_cons]
    rfl

theorem text_none (parts : List (List Char)) :
    (Shape.mk none parts).text = String.ofList (joinSlash parts) := rfl

theorem components_slash : components "/" = [.root] := by decide

theorem components_dot : components "." = [.here] := by decide

theorem components_text {path : String} {parts : List (List Char)}
    (kept : parts <+: (shape path).parts) : components (Shape.mk (shape path).head parts).text =
      (shape path).head.toList ++ parts.filterMap component? := by
  have free := pieces_free path
  rcases shape_cases path with ⟨part, others, split, shape⟩ | ⟨split, shape⟩ |
    ⟨part, others, split, shape⟩ | ⟨nowhere, shape⟩
  · rw [shape] at kept ⊢
    rw [split] at free
    cases parts with
    | nil => exact components_slash
    | cons part' parts =>
      have rooted : ∀ other ∈ [] :: part' :: parts, '/' ∉ other := fun other member =>
        free other ((List.cons_prefix_cons.2 ⟨rfl, kept⟩).subset member)
      rw [text_root, components_ofList rooted (by simp)]
      rfl
  · rw [shape] at kept ⊢
    rw [List.prefix_nil.1 kept]
    exact components_dot
  · rw [shape] at kept ⊢
    rw [split] at free
    cases parts with
    | nil => exact components_dot
    | cons first parts =>
      obtain ⟨rfl, behind⟩ := List.cons_prefix_cons.1 kept
      have dotted : ∀ other ∈ ['.'] :: parts, '/' ∉ other := fun other member =>
        free other ((List.cons_prefix_cons.2 ⟨rfl, behind⟩).subset member)
      rw [text_here, components_ofList dotted (by simp)]
      rfl
  · rw [shape] at kept ⊢
    cases parts with
    | nil => rfl
    | cons first parts =>
      have kept_free : ∀ other ∈ first :: parts, '/' ∉ other := fun other member =>
        free other (kept.subset member)
      rw [text_none, components_ofList kept_free (by simp), start_kept kept nowhere]

/-! ### Parents -/

theorem component?_of_isVoid {part : List Char} (void : isVoid part = true) :
    component? part = none := by
  rw [component?, if_pos void]

theorem prefix_trimEnd (parts : List (List Char)) : trimEnd parts <+: parts := by
  rw [trimEnd, ← List.reverse_suffix, List.reverse_reverse]
  exact List.dropWhile_suffix isVoid

theorem filterMap_dropWhile (parts : List (List Char)) :
    (parts.dropWhile isVoid).filterMap component? = parts.filterMap component? := by
  induction parts with
  | nil => rfl
  | cons part parts ih =>
    by_cases void : isVoid part
    · rw [List.dropWhile_cons_of_pos void, List.filterMap_cons_none (component?_of_isVoid void), ih]
    · rw [List.dropWhile_cons_of_neg void]

theorem filterMap_trimEnd (parts : List (List Char)) :
    (trimEnd parts).filterMap component? = parts.filterMap component? := by
  rw [trimEnd, List.filterMap_reverse, filterMap_dropWhile, ← List.filterMap_reverse,
    List.reverse_reverse]

theorem exists_component?_of_not_isVoid {part : List Char} (solid : isVoid part = false) :
    ∃ c, component? part = some c := by
  rw [component?, solid]
  by_cases up : part = ['.', '.']
  · exact ⟨.up, by simp [up]⟩
  · exact ⟨.name (String.ofList part), by simp [up]⟩

theorem components_of_parent? {path parent : String} (outer : parent? path = some parent) :
    components parent = (components path).dropLast := by
  rw [parent?] at outer
  have trimmed := filterMap_trimEnd (shape path).parts
  have kept := prefix_trimEnd (shape path).parts
  have solid := List.head?_dropWhile_not isVoid (shape path).parts.reverse
  rw [trimEnd] at trimmed kept
  rw [components_eq_shape path, ← trimmed]
  cases behind : (shape path).parts.reverse.dropWhile isVoid with
  | nil =>
    simp only [behind] at outer
    split at outer
    · rename_i here
      cases outer
      rw [here]
      rfl
    · cases outer
  | cons last others =>
    simp only [behind, Option.some.injEq] at outer
    rw [behind] at kept solid
    obtain ⟨c, component⟩ := exists_component?_of_not_isVoid (by simpa using solid)
    rw [List.reverse_cons] at kept ⊢
    have inner : trimEnd others.reverse <+: (shape path).parts :=
      (prefix_trimEnd _).trans ((List.prefix_append _ _).trans kept)
    have parts := components_text inner
    rw [filterMap_trimEnd, trimEnd, List.reverse_reverse] at parts
    rw [← outer, parts, List.filterMap_append, List.filterMap_cons_some component,
      List.filterMap_nil, ← List.append_assoc, List.dropLast_concat]

theorem components_of_mem_go {path outer : String} {n : Nat}
    (member : outer ∈ ancestors.go path n) : components outer <+: components path := by
  induction n generalizing path with
  | zero => simp [ancestors.go] at member
  | succ n ih =>
    rw [ancestors.go] at member
    rcases List.mem_cons.1 member with rfl | member
    · exact List.prefix_refl _
    · cases up : parent? path with
      | none => simp [up] at member
      | some parent =>
        simp only [up, Option.map_some, Option.getD_some] at member
        exact (components_of_parent? up ▸ ih member).trans (List.dropLast_prefix _)

theorem components_of_mem_ancestors {path outer : String} (member : outer ∈ ancestors path) :
    components outer <+: components path :=
  components_of_mem_go member

/-- A name that a file can have: neither empty, a dot or two dots, nor parted by a slash. -/
def IsOrdinary (name : String) : Prop := name ∉ ["", ".", ".."] ∧ '/' ∉ name.toList

instance (name : String) : Decidable (IsOrdinary name) := inferInstanceAs (Decidable (_ ∧ _))

def ofNames (names : List String) : String := "/".intercalate names

theorem ofNames_toList (names : List String) :
    (ofNames names).toList = joinSlash (names.map String.toList) := by
  rw [ofNames, String.toList_intercalate]
  rfl

theorem IsOrdinary.component? {name : String} (ordinary : IsOrdinary name) :
    component? name.toList = some (.name name) := by
  obtain ⟨special, -⟩ := ordinary
  simp only [List.mem_cons, List.not_mem_nil, or_false, not_or] at special
  obtain ⟨not_empty, not_dot, not_dots⟩ := special
  have empty : name.toList ≠ [] := by simpa using not_empty
  have dot : name.toList ≠ ['.'] := fun same => not_dot (String.toList_inj.1 same)
  have dots : name.toList ≠ ['.', '.'] := fun same => not_dots (String.toList_inj.1 same)
  simp [Path.component?, isVoid, empty, dot, dots]

theorem isOrdinary_of_component? {part : List Char} {name : String} (free : '/' ∉ part)
    (named : component? part = some (.name name)) : IsOrdinary name := by
  rw [component?] at named
  by_cases void : isVoid part
  · simp [void] at named
  · by_cases up : part = ['.', '.']
    · simp [up] at named
    · simp only [void, up, if_false, Bool.false_eq_true, Option.some.injEq, Component.name.injEq]
        at named
      subst named
      simp only [isVoid, Bool.or_eq_true, List.isEmpty_iff, decide_eq_true_eq, not_or] at void
      refine ⟨?_, by simpa using free⟩
      simp only [List.mem_cons, List.not_mem_nil, or_false, not_or, ← String.toList_inj,
        String.toList_ofList]
      exact ⟨void.1, void.2, up⟩

theorem not_name_of_mem_start {parts : List (List Char)} {name : String} :
    .name name ∉ (start parts).toList := by
  cases parts with
  | nil => simp [start]
  | cons first others =>
    rw [start]
    split
    · simp
    · split <;> simp

theorem isOrdinary_of_mem_components {path name : String} (member : .name name ∈ components path) :
    IsOrdinary name := by
  rw [components_eq, List.mem_append, List.mem_filterMap] at member
  rcases member with first | ⟨part, listed, named⟩
  · exact absurd first not_name_of_mem_start
  · exact isOrdinary_of_component? (pieces_free path part listed) named

theorem pieces_ofNames {names : List String} (ordinary : ∀ name ∈ names, IsOrdinary name)
    (some_name : names ≠ []) : pieces (ofNames names) = names.map String.toList := by
  have free : ∀ part ∈ names.map String.toList, '/' ∉ part := by
    intro part member
    obtain ⟨name, listed, rfl⟩ := List.mem_map.1 member
    exact (ordinary name listed).2
  rw [pieces, ofNames_toList, splitSlash_joinSlash free (by simpa using some_name)]

theorem filterMap_ofNames {names : List String} (ordinary : ∀ name ∈ names, IsOrdinary name) :
    (names.map String.toList).filterMap component? = names.map .name := by
  induction names with
  | nil => rfl
  | cons name names ih =>
    obtain ⟨first, others⟩ := List.forall_mem_cons.1 ordinary
    rw [List.map_cons, List.filterMap_cons_some first.component?, ih others, List.map_cons]

theorem isAbsolute_ofNames {names : List String} (ordinary : ∀ name ∈ names, IsOrdinary name) :
    isAbsolute (ofNames names) = false := by
  rw [← Bool.not_eq_true, isAbsolute_iff]
  rintro ⟨part, parts, split⟩
  cases names with
  | nil => cases split
  | cons name names =>
    rw [pieces_ofNames ordinary (by simp), List.map_cons] at split
    have empty : name = "" := by simpa using (List.cons.inj split).1
    exact (ordinary name List.mem_cons_self).1 (by simp [empty])

theorem start_append {parts others : List (List Char)} (some_part : parts ≠ [])
    (solid : parts ≠ [[]]) : start (parts ++ others) = start parts := by
  obtain ⟨first, parts, rfl⟩ := List.exists_cons_of_ne_nil some_part
  rw [List.cons_append, start, start]
  by_cases alone : parts = []
  · subst alone
    have full : first ≠ [] := fun empty => solid (by rw [empty])
    simp [full]
  · simp [alone]

theorem start_names {names : List String} (ordinary : ∀ name ∈ names, IsOrdinary name) :
    start (names.map String.toList) = none := by
  cases names with
  | nil => rfl
  | cons name names =>
    have solid := (List.forall_mem_cons.1 ordinary).1.component?
    rw [List.map_cons, start, if_neg, if_neg]
    · rintro ⟨empty, -⟩
      simp [empty, component?, isVoid] at solid
    · intro dot
      simp [dot, component?, isVoid] at solid

theorem components_join (directory : String) {names : List String}
    (ordinary : ∀ name ∈ names, IsOrdinary name) (some_name : names ≠ []) :
    components (join directory (ofNames names)) = components directory ++ names.map .name := by
  have below := filterMap_ofNames ordinary
  have behind := pieces_ofNames ordinary some_name
  have some_piece : names.map String.toList ≠ [] := by simpa using some_name
  rw [join, isAbsolute_ofNames ordinary, if_neg (by simp)]
  -- Behind a slash at its end a directory has an empty piece, and the names come in its place.
  by_cases ends : directory.toList.getLast? = some '/'
  · obtain ⟨outer, whole⟩ := List.getLast?_eq_some_iff.1 ends
    have joined : pieces (directory ++ ofNames names) =
        splitSlash outer ++ names.map String.toList := by
      rw [← behind, pieces, pieces, String.toList_append, whole, List.append_assoc,
        List.singleton_append, splitSlash_append_slash]
    have alone : pieces directory = splitSlash outer ++ [[]] := by
      rw [pieces, whole, splitSlash_append_slash]
      rfl
    have same : start (splitSlash outer ++ names.map String.toList) =
        start (splitSlash outer ++ [[]]) := by
      by_cases root : splitSlash outer = [[]]
      · simp [root, start, some_name]
      · rw [start_append (splitSlash_ne_nil outer) root,
          start_append (splitSlash_ne_nil outer) root]
    rw [if_pos (by simp [ends]), components_eq, components_eq, joined, alone, same,
      List.filterMap_append, List.filterMap_append, below]
    simp [component?, isVoid]
  · by_cases empty : directory = ""
    · subst empty
      rw [if_pos (by simp), String.empty_append, components_eq, behind, start_names ordinary, below]
      rfl
    · have joined : pieces (directory ++ "/" ++ ofNames names) =
          pieces directory ++ names.map String.toList := by
        rw [← behind, pieces, pieces, pieces, String.toList_append, String.toList_append,
          List.append_assoc, ← splitSlash_append_slash]
        rfl
      have anchored : pieces directory ≠ [[]] := by
        intro void
        have back := joinSlash_splitSlash directory.toList
        rw [← pieces, void] at back
        exact empty (String.toList_inj.1 back.symm)
      rw [if_neg (by simp [empty, ends]), components_eq, components_eq, joined,
        start_append (pieces_ne_nil _) anchored, List.filterMap_append, below,
        List.append_assoc]

/-! ### Below a directory -/

def IsPlain (path : String) : Prop :=
  ∃ names, names ≠ [] ∧ (∀ name ∈ names, IsOrdinary name) ∧ path = ofNames names

/-- A path of a directory with one ordinary name or more behind it. -/
def Below (directory path : String) : Prop :=
  ∃ relative, IsPlain relative ∧ path = join directory relative

/-- A directory, one that it lies in, or one that lies below it by ordinary names. -/
def Around (directory path : String) : Prop :=
  components path <+: components directory ∨
    ∃ names : List String, (∀ name ∈ names, IsOrdinary name) ∧
      components path = components directory ++ names.map .name

theorem Below.around {directory path outer : String} (below : Below directory path)
    (above : components outer <+: components path) : Around directory outer := by
  obtain ⟨relative, ⟨names, some_name, ordinary, rfl⟩, rfl⟩ := below
  rw [components_join directory ordinary some_name] at above
  rcases List.prefix_or_prefix_of_prefix above (List.prefix_append _ _) with short | long
  · exact .inl short
  · obtain ⟨behind, whole⟩ := long
    rw [← whole, List.prefix_append_right_inj, List.prefix_map_iff] at above
    obtain ⟨kept, cut, rfl⟩ := above
    exact .inr ⟨kept, fun name member => ordinary name (cut.subset member), whole.symm⟩

theorem joinSlash_concat_append (parts : List (List Char)) (last more : List Char) :
    joinSlash (parts ++ [last ++ more]) = joinSlash (parts ++ [last]) ++ more := by
  induction parts with
  | nil => simp [joinSlash]
  | cons part parts ih =>
    cases parts with
    | nil => simp [joinSlash]
    | cons next parts =>
      simp only [List.cons_append, joinSlash_cons] at ih ⊢
      rw [ih, List.append_assoc, List.cons_append]

theorem ofNames_concat_append (names : List String) (last more : String) :
    ofNames (names ++ [last ++ more]) = ofNames (names ++ [last]) ++ more := by
  rw [← String.toList_inj, String.toList_append, ofNames_toList, ofNames_toList, List.map_append,
    List.map_append]
  simp only [List.map_cons, List.map_nil, String.toList_append, joinSlash_concat_append]

theorem IsOrdinary.append_map {name : String} (ordinary : IsOrdinary name) :
    IsOrdinary (name ++ ".map") := by
  obtain ⟨-, free⟩ := ordinary
  refine ⟨?_, ?_⟩
  · intro special
    have short : (name ++ ".map").toList.length ≤ 2 := by
      simp only [List.mem_cons, List.not_mem_nil, or_false] at special
      rcases special with same | same | same <;> rw [same] <;> decide
    have long : (".map").toList.length = 4 := by decide
    rw [String.toList_append, List.length_append] at short
    omega
  · rw [String.toList_append, List.mem_append]
    rintro (slash | slash)
    · exact free slash
    · exact absurd slash (by decide)

theorem IsPlain.append_map {path : String} (plain : IsPlain path) : IsPlain (path ++ ".map") := by
  obtain ⟨names, some_name, ordinary, rfl⟩ := plain
  obtain ⟨others, last, rfl⟩ := List.eq_nil_or_concat' names |>.resolve_left some_name
  obtain ⟨outer, inner⟩ := List.forall_mem_append.1 ordinary
  have mapped : ∀ name ∈ others ++ [last ++ ".map"], IsOrdinary name :=
    List.forall_mem_append.2 ⟨outer, by simpa using (inner last (by simp)).append_map⟩
  exact ⟨_, by simp, mapped, (ofNames_concat_append others last ".map").symm⟩

theorem IsPlain.isAbsolute {path : String} (plain : IsPlain path) : isAbsolute path = false := by
  obtain ⟨names, -, ordinary, rfl⟩ := plain
  exact isAbsolute_ofNames ordinary

theorem Below.append_map {directory path : String} (below : Below directory path) :
    Below directory (path ++ ".map") := by
  obtain ⟨relative, plain, rfl⟩ := below
  refine ⟨relative ++ ".map", plain.append_map, ?_⟩
  rw [join, join, plain.isAbsolute, plain.append_map.isAbsolute]
  simp only [Bool.false_eq_true, if_false]
  split
  · rw [String.append_assoc]
  · rw [String.append_assoc]

/-! ### What is left of a path -/

theorem dropComponents_suffix (n : Nat) (parts : List (List Char)) :
    dropComponents n parts <:+ parts := by
  induction parts generalizing n with
  | nil =>
    unfold dropComponents
    exact List.suffix_refl _
  | cons part parts ih =>
    unfold dropComponents
    split
    · exact (ih n).trans (List.suffix_cons part parts)
    · split
      · exact List.suffix_refl _
      · exact (ih _).trans (List.suffix_cons part parts)

theorem filterMap_dropComponents (n : Nat) (parts : List (List Char)) :
    (dropComponents n parts).filterMap component? = (parts.filterMap component?).drop n := by
  induction parts generalizing n with
  | nil => simp [dropComponents]
  | cons part parts ih =>
    unfold dropComponents
    by_cases void : isVoid part = true
    · rw [if_pos void, ih, List.filterMap_cons_none (component?_of_isVoid void)]
    · obtain ⟨c, component⟩ := exists_component?_of_not_isVoid (Bool.eq_false_iff.2 void)
      rw [if_neg void, List.filterMap_cons_some component]
      cases n with
      | zero => exact List.filterMap_cons_some component
      | succ n => exact ih n

theorem isVoid_of_dropComponents {n : Nat} {parts others : List (List Char)} {first : List Char}
    (left : dropComponents n parts = first :: others) : isVoid first = false := by
  induction parts generalizing n with
  | nil => simp [dropComponents] at left
  | cons part parts ih =>
    unfold dropComponents at left
    by_cases void : isVoid part = true
    · rw [if_pos void] at left
      exact ih left
    · rw [if_neg void] at left
      cases n with
      | zero =>
        rw [← (List.cons.inj left).1]
        exact Bool.eq_false_iff.2 void
      | succ n => exact ih left

theorem start_dropComponents {n : Nat} {parts kept : List (List Char)}
    (cut : kept <+: dropComponents n parts) : start kept = none := by
  cases kept with
  | nil => rfl
  | cons first kept =>
    obtain ⟨others, left⟩ := cut
    have solid := isVoid_of_dropComponents left.symm
    rw [start, if_neg, if_neg]
    · rintro ⟨rfl, -⟩
      cases solid
    · rintro rfl
      cases solid

theorem components_ofTrimmed (n : Nat) (path : String) :
    components (String.ofList (joinSlash (trimEnd (dropComponents n (shape path).parts)))) =
      (dropComponents n (shape path).parts).filterMap component? := by
  have free : ∀ part ∈ trimEnd (dropComponents n (shape path).parts), '/' ∉ part :=
    fun part member => shape_parts_free path part
      ((dropComponents_suffix n _).subset ((prefix_trimEnd _).subset member))
  rw [← filterMap_trimEnd]
  by_cases nothing : trimEnd (dropComponents n (shape path).parts) = []
  · rw [nothing]
    rfl
  · rw [components_ofList free nothing, start_dropComponents (prefix_trimEnd _)]
    rfl

/-- The path that is left has the components that come behind those of the other one. -/
theorem components_of_relativeTo? {base path rest : String}
    (below : relativeTo? base path = some rest) :
    components path = components base ++ components rest := by
  simp only [relativeTo?] at below
  split at below
  · rename_i starts
    obtain ⟨others, split⟩ := List.isPrefixOf_iff_prefix.1 starts
    by_cases nothing : components base = []
    · rw [if_pos (by simp [nothing])] at below
      cases below
      rw [nothing, List.nil_append]
      exact ((components_text (prefix_trimEnd _)).trans (by rw [filterMap_trimEnd]; rfl)).symm
    · rw [if_neg (by simp [nothing])] at below
      have few : (shape path).head.toList.length ≤ (components base).length := by
        have := List.length_pos_iff.2 nothing
        cases (shape path).head with
        | none => exact Nat.zero_le _
        | some c => exact this
      have dropped := congrArg (List.drop (components base).length) split
      rw [List.drop_left, components_eq_shape path, List.drop_append, List.drop_eq_nil_of_le few,
        List.nil_append, ← filterMap_dropComponents] at dropped
      rw [← split, ← Option.some.inj below, components_ofTrimmed _ path, dropped]
  · cases below

theorem fileName?_eq_some_iff {path name : String} :
    fileName? path = some name ↔ (components path).getLast? = some (.name name) := by
  rw [fileName?]
  split
  · rename_i text last
    rw [last, Option.some.injEq, Option.some.injEq, Component.name.injEq]
  · rename_i other
    constructor
    · intro none_some
      cases none_some
    · intro last
      exact absurd last (other name)

theorem fileName?_of_relativeTo? {base path rest : String}
    (below : relativeTo? base path = some rest) (apart : components path ≠ components base) :
    fileName? rest = fileName? path := by
  have split := components_of_relativeTo? below
  have some_component : components rest ≠ [] := fun nothing =>
    apart (by rw [split, nothing, List.append_nil])
  rw [fileName?, fileName?, split, List.getLast?_append_of_ne_nil _ some_component]

end KeySubst.Path

import KeySubst.Proofs.Filter.Spelling

/-!
# Faults of patterns

Patterns are read as globs after the dots in front of them are left out. Those that include come
before those that exclude.
-/

namespace KeySubst

open KeySubst.Path (dotted)

def Strips (pattern glob : String) : Prop :=
  ∃ n, pattern = dotted n glob ∧ ¬ ['.', '/'] <+: glob.toList

theorem dropDotSlash_of_not_prefix {cs : List Char} (bare : ¬ ['.', '/'] <+: cs) :
    dropDotSlash cs = cs := by
  unfold dropDotSlash
  split
  · rename_i rest
    exact absurd (List.prefix_append ['.', '/'] rest) bare
  · rfl

theorem dropDotSlash_not_prefix (cs : List Char) : ¬ ['.', '/'] <+: dropDotSlash cs := by
  fun_induction dropDotSlash cs with
  | case1 rest ih => exact ih
  | case2 cs other =>
    rintro ⟨rest, rfl⟩
    exact other rest rfl

theorem Strips.dropDotSlash {pattern glob : String} (strips : Strips pattern glob) :
    String.ofList (dropDotSlash pattern.toList) = glob := by
  obtain ⟨n, rfl, bare⟩ := strips
  induction n with
  | zero =>
    rw [dotted, dropDotSlash_of_not_prefix bare, String.ofList_toList]
  | succ n ih =>
    rw [Path.toList_dotted_succ, KeySubst.dropDotSlash]
    exact ih

theorem strips_dropDotSlash (pattern : String) :
    Strips pattern (String.ofList (dropDotSlash pattern.toList)) := by
  have counted : ∀ cs : List Char, ∃ n, String.ofList cs = dotted n (.ofList (dropDotSlash cs)) := by
    intro cs
    fun_induction dropDotSlash cs with
    | case1 rest ih =>
      obtain ⟨n, same⟩ := ih
      refine ⟨n + 1, ?_⟩
      rw [dotted, ← same, ← String.toList_inj]
      simp
    | case2 cs other => exact ⟨0, rfl⟩
  obtain ⟨n, same⟩ := counted pattern.toList
  rw [String.ofList_toList] at same
  refine ⟨n, same, ?_⟩
  rw [String.toList_ofList]
  exact dropDotSlash_not_prefix pattern.toList

theorem strips_iff {pattern glob : String} :
    Strips pattern glob ↔ String.ofList (dropDotSlash pattern.toList) = glob := by
  refine ⟨Strips.dropDotSlash, ?_⟩
  rintro rfl
  exact strips_dropDotSlash pattern

namespace Glob

def Reads (pattern : String) (globParts : List Part) : Prop :=
  ∃ glob, Strips pattern glob ∧ parts glob = .ok globParts

/-- A pattern stands for no glob, since what is left of it has a fault. -/
def Faulty (pattern glob : String) (fault : Fault) : Prop :=
  Strips pattern glob ∧ parts glob = .error fault

def IsFaulty (pattern : String) : Prop := ∃ glob fault, Faulty pattern glob fault

theorem parsePattern_eq_ok_iff {pattern : String} {globParts : List Part} :
    parsePattern pattern = .ok globParts ↔ Reads pattern globParts := by
  simp only [Reads, strips_iff, exists_eq_left', parsePattern]
  cases parts (String.ofList (dropDotSlash pattern.toList)) with
  | ok read => exact ⟨fun same => congrArg Except.ok (Except.ok.inj same),
      fun same => congrArg Except.ok (Except.ok.inj same)⟩
  | error fault => exact iff_of_false (by rintro ⟨⟩) (by rintro ⟨⟩)

theorem parsePattern_of_faulty {pattern glob : String} {fault : Fault}
    (faulty : Faulty pattern glob fault) :
    parsePattern pattern = .error (.invalidGlob pattern glob fault) := by
  obtain ⟨strips, failed⟩ := faulty
  rw [parsePattern, strips_iff.1 strips, failed]

theorem exists_reads {pattern : String} (good : ¬ IsFaulty pattern) :
    ∃ globParts, Reads pattern globParts := by
  have strips := strips_dropDotSlash pattern
  cases read : parts (String.ofList (dropDotSlash pattern.toList)) with
  | ok globParts => exact ⟨globParts, _, strips, read⟩
  | error fault => exact absurd ⟨_, fault, strips, read⟩ good

/-- If patterns are all globs, none of these nests too deep. -/
def WithinLimits (patterns : List String) : Prop :=
  ∀ globs, List.Forall₂ Reads patterns globs → excess? globs = none

theorem parsePatterns_of_faulty {before after : List String} {pattern glob : String} {fault : Fault}
    (earlier : ∀ other ∈ before, ¬ IsFaulty other) (faulty : Faulty pattern glob fault) :
    parsePatterns (before ++ pattern :: after) = .error (.invalidGlob pattern glob fault) := by
  have failed : (before ++ pattern :: after).mapM parsePattern =
      .error (.invalidGlob pattern glob fault) := by
    induction before with
    | nil =>
      rw [List.nil_append, List.mapM_cons, parsePattern_of_faulty faulty]
      rfl
    | cons first before ih =>
      obtain ⟨good, others⟩ := List.forall_mem_cons.1 earlier
      obtain ⟨globParts, reads⟩ := exists_reads good
      rw [List.cons_append, List.mapM_cons, parsePattern_eq_ok_iff.2 reads, ih others]
      rfl
  rw [parsePatterns, failed]
  rfl

theorem exists_parsePatterns {patterns : List String}
    (good : ∀ pattern ∈ patterns, ¬ IsFaulty pattern) (within : WithinLimits patterns) :
    ∃ globs, parsePatterns patterns = .ok globs := by
  obtain ⟨globs, read, each⟩ : ∃ globs, patterns.mapM parsePattern = .ok globs ∧
      List.Forall₂ Reads patterns globs := by
    clear within
    induction patterns with
    | nil => exact ⟨[], rfl, .nil⟩
    | cons first patterns ih =>
      obtain ⟨good, others⟩ := List.forall_mem_cons.1 good
      obtain ⟨globParts, reads⟩ := exists_reads good
      obtain ⟨globs, read, each⟩ := ih others
      refine ⟨globParts :: globs, ?_, .cons reads each⟩
      rw [List.mapM_cons, parsePattern_eq_ok_iff.2 reads, read]
      rfl
  refine ⟨globs, ?_⟩
  rw [parsePatterns, read]
  simp only [bind, Except.bind, within globs each]
  rfl

end Glob

namespace Filter

open Glob (IsFaulty WithinLimits)

variable {included excluded : List String}

theorem ofPatterns_of_faulty {before after : List String} {pattern glob : String}
    {fault : Glob.Fault} (split : included ++ excluded = before ++ pattern :: after)
    (earlier : ∀ other ∈ before, ¬ IsFaulty other) (faulty : Glob.Faulty pattern glob fault)
    (within : WithinLimits included) (base : Option String) :
    ofPatterns included excluded base = .error (.invalidGlob pattern glob fault) := by
  have place : (∃ more, before = included ++ more ∧ excluded = more ++ pattern :: after) ∨
      ∃ more, included = before ++ pattern :: more := by
    rcases List.append_eq_append_iff.1 split with excludes | ⟨more, includes, rest⟩
    · exact .inl excludes
    · cases more with
      | nil => exact .inl ⟨[], by simp [includes], rest.symm⟩
      | cons first more =>
        obtain ⟨rfl, -⟩ := List.cons.inj rest
        exact .inr ⟨more, includes⟩
  rcases place with ⟨more, rfl, excludes⟩ | ⟨more, includes⟩
  · obtain ⟨first, others⟩ := List.forall_mem_append.1 earlier
    obtain ⟨globs, read⟩ := Glob.exists_parsePatterns first within
    rw [ofPatterns, read, excludes, Glob.parsePatterns_of_faulty others faulty]
    rfl
  · rw [ofPatterns, includes, Glob.parsePatterns_of_faulty earlier faulty]
    rfl

theorem exists_ofPatterns (good : ∀ pattern ∈ included ++ excluded, ¬ IsFaulty pattern)
    (within : WithinLimits included) (within' : WithinLimits excluded) (base : Option String) :
    ∃ f, ofPatterns included excluded base = .ok f := by
  obtain ⟨good, good'⟩ := List.forall_mem_append.1 good
  obtain ⟨globs, read⟩ := Glob.exists_parsePatterns good within
  obtain ⟨globs', read'⟩ := Glob.exists_parsePatterns good' within'
  rw [ofPatterns, read, read']
  exact ⟨_, rfl⟩

end Filter

end KeySubst

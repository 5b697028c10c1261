import KeySubst.Error
import KeySubst.Files.Path
import KeySubst.Glob.Match

/-!
# Filters

Names are brought to one spelling before globs are matched, relative to the directory that the globs
are meant for.
-/

namespace KeySubst

def dropDotSlash : List Char → List Char
  | '.' :: '/' :: rest => dropDotSlash rest
  | cs => cs

namespace Glob

def parsePattern (pattern : String) : Except Error (List Part) :=
  let glob := String.ofList (dropDotSlash pattern.toList)
  match parts glob with
  | .ok parts => .ok parts
  | .error fault => .error (.invalidGlob pattern glob fault)

/-- Of several faulty globs the first is reported; none may nest too deep. -/
def parsePatterns (patterns : List String) : Except Error (List (List Part)) := do
  let globs ← patterns.mapM parsePattern
  match excess? globs with
  | some excess => throw (.nestedGlobs patterns excess)
  | none => return globs

end Glob

structure Filter where
  included : Option (List (List Glob.Part))
  excluded : List (List Glob.Part)
  baseDirectory : Option String

namespace Filter

def ofPatterns (included excluded : List String) (baseDirectory : Option String) :
    Except Error Filter := do
  let included ← Glob.parsePatterns included
  let excluded ← Glob.parsePatterns excluded
  return ⟨if included.isEmpty then none else some included, excluded, baseDirectory⟩

def normalize (f : Filter) (name : String) : String :=
  let relative :=
    match f.baseDirectory with
    | some base => if Path.isAbsolute name then (Path.relativeTo? base name).getD name else name
    | none => name
  String.ofList (dropDotSlash (relative.toList.map fun c => if c = '\\' then '/' else c))

/-- A name with a NUL character is never in scope. -/
def admits (f : Filter) (name : String) : Bool :=
  if name.toList.contains '\x00' then false
  else
    let path := f.normalize name
    if f.excluded.any (Glob.isMatch · path) then false
    else f.included.all fun globs => globs.any (Glob.isMatch · path)

end Filter

end KeySubst

/-!
# Paths

Empty pieces and single dots are no components of a path, except for a dot that comes first.
Operations on paths work on the text and ask no file system.
-/

namespace KeySubst

inductive Component where
  | root
  | here
  | up
  | name (text : String)
  deriving DecidableEq, Repr

namespace Path

def splitSlash : List Char → List (List Char)
  | [] => [[]]
  | c :: rest =>
    match splitSlash rest with
    | [] => [[c]]
    | part :: parts => if c = '/' then [] :: part :: parts else (c :: part) :: parts

def joinSlash (parts : List (List Char)) : List Char := ['/'].intercalate parts

structure Shape where
  head : Option Component
  parts : List (List Char)
  deriving DecidableEq, Repr

def shape (path : String) : Shape :=
  match path.toList with
  | '/' :: rest => ⟨some .root, splitSlash rest⟩
  | ['.'] => ⟨some .here, []⟩
  | '.' :: '/' :: rest => ⟨some .here, splitSlash ('/' :: rest)⟩
  | cs => ⟨none, splitSlash cs⟩

def Shape.text (s : Shape) : String :=
  let body := String.ofList (joinSlash s.parts)
  match s.head with
  | some .root => "/" ++ body
  | some .here => "." ++ body
  | _ => body

def isVoid (part : List Char) : Bool := part.isEmpty || part = ['.']

def component? (part : List Char) : Option Component :=
  if isVoid part then none
  else if part = ['.', '.'] then some .up
  else some (.name (String.ofList part))

def components (path : String) : List Component :=
  let s := shape path
  s.head.toList ++ s.parts.filterMap component?

def isAbsolute (path : String) : Bool := path.toList.head? = some '/'

def trimEnd (parts : List (List Char)) : List (List Char) :=
  (parts.reverse.dropWhile isVoid).reverse

def join (directory path : String) : String :=
  if isAbsolute path then path
  else if directory.isEmpty || directory.toList.getLast? = some '/' then directory ++ path
  else directory ++ "/" ++ path

def parent? (path : String) : Option String :=
  let s := shape path
  match s.parts.reverse.dropWhile isVoid with
  | [] => if s.head = some .here then some "" else none
  | _ :: others => some { s with parts := (others.dropWhile isVoid).reverse }.text

def fileName? (path : String) : Option String :=
  match (components path).getLast? with
  | some (.name text) => some text
  | _ => none

/-- Leaves out `n` components, and what is no component before the next one. -/
def dropComponents : (n : Nat) → List (List Char) → List (List Char)
  | _, [] => []
  | n, part :: parts =>
    if isVoid part then dropComponents n parts
    else
      match n with
      | 0 => part :: parts
      | n + 1 => dropComponents n parts

/-- What is left of a path after the components of another one, if it starts with these. -/
def relativeTo? (base path : String) : Option String :=
  let first := components base
  if first.isPrefixOf (components path) then
    let s := shape path
    if first.isEmpty then some { s with parts := trimEnd s.parts }.text
    else
      let n := first.length - s.head.toList.length
      some (String.ofList (joinSlash (trimEnd (dropComponents n s.parts))))
  else none

def namesOnly (path : String) : String :=
  let names := (components path).filterMap fun
    | .name text => some text
    | _ => none
  "/".intercalate names

def ancestors (path : String) : List String := go path (path.length + 1)
where
  go (path : String) : Nat → List String
    | 0 => []
    | n + 1 => path :: ((parent? path).map (go · n)).getD []

end Path

end KeySubst

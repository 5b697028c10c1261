import KeySubst.Files.Path
import KeySubst.Files.SystemError

/-!
# File trees

Trees are without links, and every step of a path asks for a directory to stand in.
-/

namespace KeySubst

inductive Node where
  | file (content : ByteArray)
  | directory

instance : DecidableEq Node
  | .file a, .file b => decidable_of_iff (a.data = b.data)
      ⟨fun same => congrArg Node.file (ByteArray.ext same), fun same => by cases same; rfl⟩
  | .directory, .directory => .isTrue rfl
  | .file _, .directory => .isFalse nofun
  | .directory, .file _ => .isFalse nofun

abbrev Place := List String

/-- Files and directories by place. The root is a directory and is not listed. -/
structure FileTree where
  nodes : List (Place × Node)

inductive Step where
  | stay
  | up
  | down (name : String)
  deriving DecidableEq, Repr

def Path.steps (path : String) : Bool × List Step :=
  let step := fun part : List Char =>
    if Path.isVoid part then .stay
    else if part = ['.', '.'] then .up
    else .down (String.ofList part)
  match path.toList with
  | '/' :: rest => (true, (splitSlash rest).map step)
  | cs => (false, (splitSlash cs).map step)

namespace FileTree

def node? (t : FileTree) (place : Place) : Option Node :=
  if place.isEmpty then some .directory else t.nodes.lookup place

def put (t : FileTree) (place : Place) (n : Node) : FileTree :=
  ⟨(place, n) :: t.nodes.filter (·.1 ≠ place)⟩

def maxNameSize : Nat := 255

def maxPathSize : Nat := 4095

/-- Walks from a place on. The last step may lead to nothing. -/
def walk (t : FileTree) (place : Place) : List Step → Except SystemError Place
  | [] => .ok place
  | s :: steps =>
    match t.node? place with
    | none => .error .notFound
    | some (.file _) => .error .notDirectory
    | some .directory =>
      match s with
      | .stay => walk t place steps
      | .up => walk t place.dropLast steps
      | .down name =>
        if maxNameSize < name.utf8ByteSize then .error .nameTooLong
        else walk t (place ++ [name]) steps

def locate (t : FileTree) (directory : Place) (path : String) : Except SystemError Place :=
  if path.isEmpty then .error .notFound
  else if maxPathSize < path.utf8ByteSize then .error .nameTooLong
  else
    let (absolute, steps) := Path.steps path
    t.walk (if absolute then [] else directory) steps

def find? (t : FileTree) (directory : Place) (path : String) : Option Node :=
  match t.locate directory path with
  | .ok place => t.node? place
  | .error _ => none

def read (t : FileTree) (directory : Place) (path : String) : Except SystemError String := do
  match t.node? (← t.locate directory path) with
  | none => throw .notFound
  | some .directory => throw .isDirectory
  | some (.file content) =>
    match String.fromUTF8? content with
    | some text => return text
    | none => throw .notUtf8

def write (t : FileTree) (directory : Place) (path text : String) :
    Except SystemError FileTree := do
  let place ← t.locate directory path
  match t.node? place with
  | some .directory => throw .isDirectory
  | _ => return t.put place (.file text.toUTF8)

def makeDirectory (t : FileTree) (directory : Place) (path : String) :
    Except SystemError FileTree := do
  let place ← t.locate directory path
  match t.node? place with
  | some _ => throw .alreadyExists
  | none => return t.put place .directory

end FileTree

end KeySubst

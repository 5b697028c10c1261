import KeySubst.Files.Tree

/-!
# Access to files

What the program asks of a file system, so that it can be run on a tree in memory as well as on the
files of a machine.
-/

namespace KeySubst

class FileSystem (m : Type → Type) where
  isFile : String → m Bool
  isDirectory : String → m Bool
  read : String → m (Except SystemError String)
  write : (path text : String) → m (Except SystemError Unit)
  makeDirectory : String → m (Except SystemError Unit)

namespace FileSystem

variable {m : Type → Type} [Monad m] [FileSystem m]

def isPresent (path : String) : m Bool := do
  return (← isFile path) || (← isDirectory path)

def ensureDirectory (path : String) : m (Except SystemError Unit) := do
  match ← makeDirectory path with
  | .ok () => return .ok ()
  | .error failure => return if ← isDirectory path then .ok () else .error failure

def ensureDirectories : List String → m (Except SystemError Unit)
  | [] => return .ok ()
  | path :: paths => do
    match ← ensureDirectory path with
    | .ok () => ensureDirectories paths
    | .error failure => return .error failure

/-- The paths that have to be made, outermost first: those before the first that is there or can be
made. -/
def missingDirectories (missing : List String) : List String → m (Except SystemError (List String))
  | [] => return .ok missing
  | path :: paths =>
    if path.isEmpty then return .ok missing
    else do
      match ← makeDirectory path with
      | .ok () => return .ok missing
      | .error .notFound => missingDirectories (path :: missing) paths
      | .error failure =>
        return if ← isDirectory path then .ok missing else .error failure

def makeDirectories (path : String) : m (Except SystemError Unit) := do
  match ← missingDirectories [] (Path.ancestors path) with
  | .error failure => return .error failure
  | .ok missing => ensureDirectories missing

end FileSystem

structure Workspace where
  tree : FileTree
  directory : Place

namespace Workspace

def change (f : FileTree → Place → Except SystemError FileTree) :
    StateM Workspace (Except SystemError Unit) := fun w =>
  match f w.tree w.directory with
  | .ok tree => (.ok (), { w with tree })
  | .error failure => (.error failure, w)

instance : FileSystem (StateM Workspace) where
  isFile path := return (← get).tree.find? (← get).directory path matches some (.file _)
  isDirectory path := return (← get).tree.find? (← get).directory path matches some .directory
  read path := return (← get).tree.read (← get).directory path
  write path text := change fun tree directory => tree.write directory path text
  makeDirectory path := change fun tree directory => tree.makeDirectory directory path

end Workspace

end KeySubst

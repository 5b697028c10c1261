import KeySubst.Files.FileSystem
import KeySubst.Options.Flags
import KeySubst.Toml.Document

/-!
# Finding a configuration

The file of a fixed name in a directory, or in the nearest one that it lies in, comes before the one
in the home directory. If it is faulty no other takes its place.
-/

namespace KeySubst

def configName : String := ".envreplace.toml"

def configIn (directory : String) : String := Path.join directory configName

structure LoadedOptions (σ : Type) where
  options : Options σ
  path : Option String

namespace Options

variable {σ : Type} {m : Type → Type} [Monad m] [FileSystem m]

def firstFile? : List String → m (Option String)
  | [] => return none
  | path :: paths => do
    if ← FileSystem.isFile path then return some path else firstFile? paths

def candidates (start : String) (home : Option String) : List String :=
  (Path.ancestors start ++ home.toList).map configIn

def discover? (start : String) (home : Option String) : m (Option String) :=
  firstFile? (candidates start home)

def readFile (path : String) : m (Except Error (Options σ)) := do
  match ← FileSystem.read path with
  | .error failure => return .error (.configUnreadable path failure)
  | .ok text =>
    match Toml.parse? text with
    | none => return .error (.configMalformed path)
    | some entries => return ofToml entries path

def load (start : String) (home : Option String) : m (Except Error (LoadedOptions σ)) := do
  match ← discover? start home with
  | none => return .ok ⟨{ baseDirectory := some start }, none⟩
  | some path =>
    return (← readFile path).map fun options =>
      ⟨{ options with baseDirectory := some start }, some path⟩

def loadFile (path base : String) : m (Except Error (LoadedOptions σ)) := do
  if ← FileSystem.isFile path then
    return (← readFile path).map fun options =>
      ⟨{ options with baseDirectory := some base }, some path⟩
  else return .error (.configNotFound path)

end Options

end KeySubst

import KeySubst.CommandLine.Setup
import KeySubst.SourceMap.Document

/-!
# Transforming files

Files are transformed one after the other. The first failure ends the run; what was printed and
written before it stays.
-/

namespace KeySubst.CommandLine

structure Job where
  replacer : Replacer Unit
  directory : String
  outDir : Option String
  changedOnly : Bool

def outputPath (directory file : String) : String :=
  let relative := (Path.relativeTo? directory file).getD file
  if Path.isAbsolute relative then (Path.fileName? relative).getD relative
  else Path.namesOnly relative

def evaluate {α : Type} (effect : Effect Unit α) : Except Error α := (effect.run ()).1

variable {m : Type → Type} [Monad m] [FileSystem m]

def writeBelow (path text : String) : m (Except Failure Unit) := do
  let parent := Path.parent? path
  match ← FileSystem.makeDirectories (parent.getD "") with
  | .error failure => return .error (.ofSystem ("Failed to create " ++ parent.getD "") failure)
  | .ok () =>
    return (← FileSystem.write path text).mapError (.ofSystem ("Failed to write " ++ path))

def writeOutcome (target file text : String) (outcome : Substitution) :
    m (Except Failure Unit) := do
  match ← writeBelow target outcome.code with
  | .error failure => return .error failure
  | .ok () =>
    match outcome.map.bind fun map => SourceMap.ofPositionMap? map file text outcome.code with
    | none => return .ok ()
    | some document =>
      let document := document.withFile ((Path.fileName? target).getD "")
      writeBelow (target ++ ".map") document.toJson

def transformFile (job : Job) (file : String) : m (Except Failure String) := do
  match ← FileSystem.read file with
  | .error failure => return .error (.ofSystem ("Failed to read " ++ file) failure)
  | .ok text =>
    match evaluate (job.replacer.transform text file) with
    | .error failure => return .error (.ofError ("Failed to transform " ++ file) failure)
    | .ok outcome =>
      match job.outDir, outcome with
      | none, some outcome => return .ok outcome.code
      | none, none => return .ok (if job.changedOnly then "" else text)
      | some outDir, some outcome =>
        let target := Path.join outDir (outputPath job.directory file)
        return (← writeOutcome target file text outcome).map fun _ => ""
      | some outDir, none =>
        if job.changedOnly then return .ok ""
        else
          let target := Path.join outDir (outputPath job.directory file)
          return (← writeBelow target text).map fun _ => ""

/-- All that is printed, and the failure that ended the run if there was one. -/
def transformAll (job : Job) (printed : String) : List String → m (String × Option Failure)
  | [] => return (printed, none)
  | file :: files => do
    match ← transformFile job file with
    | .error failure => return (printed, some failure)
    | .ok text => transformAll job (printed ++ text) files

end KeySubst.CommandLine

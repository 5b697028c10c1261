import KeySubst.CommandLine.Arguments
import KeySubst.Options.Discovery
import KeySubst.Replacer

/-!
# What a run starts from

The options of a run are those of the configuration, changed by what the arguments say.
-/

namespace KeySubst.CommandLine

structure Failure where
  context : String
  causes : List String
  deriving DecidableEq, Repr

namespace Failure

def plain (context : String) : Failure := ⟨context, []⟩

def ofError (context : String) (e : Error) : Failure := ⟨context, e.message :: e.reason?.toList⟩

def ofSystem (context : String) (e : SystemError) : Failure := ⟨context, [e.message]⟩

def chain (f : Failure) : String := ": ".intercalate (f.context :: f.causes)

end Failure

structure Surroundings where
  directory : String
  environment : List (String × String)
  accountHome : Option String := none

namespace Surroundings

def home? (s : Surroundings) : Option String :=
  ((s.environment.lookup "HOME").filter fun home => !home.isEmpty).or s.accountHome

end Surroundings

def override (options : Options Unit) (a : Arguments) : Options Unit :=
  { options with
    values := options.values.insertAll ((a.given.set.getD []).map fun (key, value) =>
      (key, .ofString value))
    included := a.given.included.getD options.included
    excluded := a.given.excluded.getD options.excluded
    delimiters :=
      match a.given.delimiters with
      | some [opening, closing] => some (opening, closing)
      | _ => options.delimiters
    preventAssignment := options.preventAssignment && !a.has .allowAssignment
    sourceMaps := options.sourceMaps && !a.has .noSourceMap }

variable {m : Type → Type} [Monad m] [FileSystem m]

def resolve (s : Surroundings) (a : Arguments) : m (Except Failure (LoadedOptions Unit)) := do
  let loaded ← match a.given.config with
    | some path =>
      pure ((← Options.loadFile path s.directory).mapError (.ofError ("Failed to load " ++ path)))
    | none =>
      pure ((← Options.load s.directory s.home?).mapError (.ofError "Failed to load configuration"))
  return loaded.map fun l => { l with options := override l.options a }

def prepare (s : Surroundings) (a : Arguments) :
    m (Except Failure (LoadedOptions Unit × Replacer Unit)) := do
  match ← resolve s a with
  | .error failure => return .error failure
  | .ok loaded =>
    return ((Replacer.make loaded.options s.environment).mapError
      (.ofError "Failed to build replacer")).map (loaded, ·)

end KeySubst.CommandLine

import KeySubst.Files.SystemError
import KeySubst.Glob.Expression
import KeySubst.Toml.Value

/-!
# Errors

That the engine for regular expressions refuses the pattern of some keys, as for its size, is left
out: it is assumed to take every pattern.
-/

namespace KeySubst

inductive Error where
  | configNotFound (path : String)
  | configUnreadable (path : String) (failure : SystemError)
  | configMalformed (path : String)
  | unsupportedValue (key : String) (kind : Toml.Kind)
  | emptyKey
  | delimiterCount (found : Nat)
  /-- A glob as configured, what is left of it to be read, and its fault. -/
  | invalidGlob (pattern : String) (glob : String) (fault : Glob.Fault)
  | nestedGlobs (patterns : List String) (excess : Glob.Excess)
  | producerFailed (key : String) (name : String) (reason : String)
  /-- An edit that does not lie between characters of the text, or overlaps the one before it. -/
  | misplacedEdit
  deriving DecidableEq, Repr

namespace Error

def message : Error → String
  | configNotFound path => "Config file not found: " ++ path
  | configUnreadable path _ => "Failed to read config file: " ++ path
  | configMalformed path => "Failed to parse config file: " ++ path
  | unsupportedValue key kind =>
    "Unsupported value for replacement key " ++ key ++
      ": expected string, number or boolean, found " ++ kind.name
  | emptyKey => "Replacement keys must not be empty"
  | delimiterCount found => "Invalid delimiters: expected 2 strings, found " ++ toString found
  | invalidGlob pattern _ _ => "Invalid glob pattern: " ++ pattern
  | nestedGlobs patterns _ => "Invalid glob pattern: " ++ ", ".intercalate patterns
  | producerFailed key name _ => "Value for " ++ key ++ " failed while processing " ++ name
  | misplacedEdit => "Edits must not overlap or divide a character"

def reason? : Error → Option String
  | configUnreadable _ failure => some failure.message
  | invalidGlob _ glob fault => some ("error parsing glob '" ++ glob ++ "': " ++ fault.message)
  | nestedGlobs _ excess => some excess.message
  | producerFailed _ _ reason => some reason
  | _ => none

theorem exists_of_bind_ok {α β : Type} {x : Except Error α} {f : α → Except Error β} {b : β}
    (ok : x >>= f = .ok b) : ∃ a, x = .ok a ∧ f a = .ok b := by
  cases x with
  | error e => cases ok
  | ok a => exact ⟨a, rfl, ok⟩

end Error

end KeySubst

import KeySubst.Filter
import KeySubst.Options.Basic
import KeySubst.Substitution.Basic
import KeySubst.Table.Environment

namespace KeySubst

structure Replacer (σ : Type) where
  matcher : Matcher σ
  filter : Filter
  sourceMaps : Bool

namespace Replacer

variable {σ : Type}

/-- Of several faults that of the table comes first, then that of the globs. -/
def make (options : Options σ) (environment : List (String × String)) :
    Except Error (Replacer σ) := do
  let table ← options.values.withEnvironment environment
  let filter ← Filter.ofPatterns options.included options.excluded options.baseDirectory
  let matcher ← Matcher.compile table options.matching
  return ⟨matcher, filter, options.sourceMaps⟩

def keys (r : Replacer σ) : List String := r.matcher.keys

def includes (r : Replacer σ) (name : String) : Bool := r.filter.admits name

/-- There is no outcome without keys, for a name out of scope, and where no key is found. -/
def transform (r : Replacer σ) (text name : String) : Effect σ (Option Substitution) :=
  if r.matcher.isEmpty || !r.includes name then return none
  else r.matcher.substitute text name r.sourceMaps

end Replacer

end KeySubst

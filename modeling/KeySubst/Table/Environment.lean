import KeySubst.Error
import KeySubst.Table.Basic

/-!
# Accessors of the environment

There is an accessor for each configured key, one for each variable whose name has the right start,
and the bare accessor, which stands for an empty object unless it is configured.
-/

namespace KeySubst

def accessor : String := "process.env"

def variableStart : String := "NUXT_ENV"

def accessorOf (name : String) : String := accessor ++ "." ++ name

def isExposed (name : String) : Bool := variableStart.toList.isPrefixOf name.toList

namespace Table

variable {σ : Type}

def accessors (t : Table σ) : List (String × Replacement σ) :=
  t.toList.map fun e => (accessorOf e.key, e.value.quoted)

def variableAccessors (environment : List (String × String)) : List (String × Replacement σ) :=
  (environment.filter fun (name, _) => isExposed name).map fun (name, value) =>
    (accessorOf name, .ofString (Json.quote value))

def withEnvironment (t : Table σ) (environment : List (String × String)) :
    Except Error (Table σ) :=
  if t.keys.any String.isEmpty then .error .emptyKey
  else
    let complete := (t.insertAll t.accessors).insertAll (variableAccessors environment)
    .ok <|
      if complete.contains accessor then complete
      else complete.insert accessor (.ofString "\x7b\x7d")

end Table

end KeySubst

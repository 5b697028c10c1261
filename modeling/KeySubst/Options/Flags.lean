import KeySubst.Options.Basic

/-!
# Reading options

Of several faults that of a flag's type is reported first, then the number of delimiters, then the
first bad value.
-/

namespace KeySubst

def reservedKeys : List String :=
  ["include", "exclude", "delimiters", "preventAssignment", "prevent-assignment",
    "prevent_assignment", "sourcemap", "sourceMap", "values"]

def isReserved (key : String) : Bool := reservedKeys.contains key

def assignmentSpellings : List String :=
  ["preventAssignment", "prevent-assignment", "prevent_assignment"]

structure Flags where
  included : Option (List String)
  excluded : Option (List String)
  delimiters : Option (List String)
  preventAssignment : Option Bool
  sourceMaps : Option Bool
  sourceMapsToo : Option Bool
  values : Option Toml.Table

namespace Flags

def globs? (v : Toml.Value) : Option (List String) := (v.asText?.map ([·])).or v.asTexts?

def flag? {α : Type} (read? : Toml.Value → Option α) (entries : Toml.Table) (name : String) :
    Option (Option α) :=
  match entries.lookup name with
  | none => some none
  | some v => (read? v).map some

/-- Reads the flag that is given under one of several names, but not under two. -/
def flagOfSpellings? {α : Type} (read? : Toml.Value → Option α) (entries : Toml.Table)
    (names : List String) : Option (Option α) :=
  match entries.filter fun (key, _) => names.contains key with
  | [] => some none
  | [(_, v)] => (read? v).map some
  | _ => none

def read? (entries : Toml.Table) : Option Flags := do
  return {
    included := ← flag? globs? entries "include"
    excluded := ← flag? globs? entries "exclude"
    delimiters := ← flag? Toml.Value.asTexts? entries "delimiters"
    preventAssignment := ← flagOfSpellings? Toml.Value.asBoolean? entries assignmentSpellings
    sourceMaps := ← flag? Toml.Value.asBoolean? entries "sourcemap"
    sourceMapsToo := ← flag? Toml.Value.asBoolean? entries "sourceMap"
    values := ← flag? Toml.Value.asTable? entries "values" }

def delimiterPair (f : Flags) : Except Error (Option (String × String)) :=
  match f.delimiters with
  | none => .ok none
  | some [opening, closing] => .ok (some (opening, closing))
  | some others => .error (.delimiterCount others.length)

def makesSourceMaps (f : Flags) : Bool :=
  f.sourceMaps != some false && f.sourceMapsToo != some false

end Flags

def Literal.ofToml? : Toml.Value → Option Literal
  | .string s => some (.string s)
  | .integer i => some (.integer i)
  | .float x => some (.float x)
  | .boolean b => some (.boolean b)
  | _ => none

def readEntry (entry : String × Toml.Value) : Except Error (String × Literal) :=
  if entry.1.isEmpty then .error .emptyKey
  else
    match Literal.ofToml? entry.2 with
    | some l => .ok (entry.1, l)
    | none => .error (.unsupportedValue entry.1 entry.2.kind)

def readEntries (entries : Toml.Table) : Except Error (List (String × Literal)) :=
  entries.mapM readEntry

/-- A datetime counts as a string there. Nested tables stay as they are, also one with the key that
the reader keeps for datetimes, which no document gives. -/
def withinValues : Toml.Value → Toml.Value
  | .datetime d => .string d.text
  | v => v

namespace Options

variable {σ : Type}

def valueEntries (flags : Flags) (others : Toml.Table) : Toml.Table :=
  match flags.values with
  | some values => values.map fun (key, v) => (key, withinValues v)
  | none => others

def ofToml (entries : Toml.Table) (path : String) : Except Error (Options σ) := do
  let (reserved, others) := entries.partition fun (key, _) => isReserved key
  match Flags.read? reserved with
  | none => throw (.configMalformed path)
  | some flags =>
    let delimiters ← flags.delimiterPair
    let literals ← readEntries (valueEntries flags others)
    return {
      included := flags.included.getD [defaultIncluded]
      excluded := flags.excluded.getD []
      delimiters := delimiters
      preventAssignment := flags.preventAssignment.getD true
      sourceMaps := flags.makesSourceMaps
      values := .ofList (literals.map fun (key, l) => (key, .literal l)) }

end Options

end KeySubst

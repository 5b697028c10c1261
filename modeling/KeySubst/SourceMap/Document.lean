import KeySubst.Json.Value
import KeySubst.SourceMap.Layout

/-!
# Source maps

Fields are written in a fixed order and without blanks. Reading takes them in any order, skips
unknown ones and refuses repeated ones.
-/

namespace KeySubst

structure SourceMap where
  version : UInt8
  file : Option String
  sources : List String
  sourcesContent : List (Option String)
  names : List String
  mappings : String
  deriving DecidableEq, Repr

namespace SourceMap

def withFile (m : SourceMap) (file : String) : SourceMap := { m with file := some file }

def ofPositionMap? (map : PositionMap) (sourceName input output : String) : Option SourceMap :=
  (map.mappings? input output).map fun mappings =>
    { version := 3
      file := none
      sources := [sourceName]
      sourcesContent := [some input]
      names := []
      mappings := mappings.encode }

def jsonArray (items : List String) : String := "[" ++ ",".intercalate items ++ "]"

def jsonOptional : Option String → String
  | some s => Json.quote s
  | none => "null"

def jsonFields (m : SourceMap) : List (String × String) :=
  [("version", toString m.version.toNat)] ++
    (m.file.map fun file => ("file", Json.quote file)).toList ++
    [("sources", jsonArray (m.sources.map Json.quote)),
      ("sourcesContent", jsonArray (m.sourcesContent.map jsonOptional)),
      ("names", jsonArray (m.names.map Json.quote)),
      ("mappings", Json.quote m.mappings)]

def toJson (m : SourceMap) : String :=
  let fields := m.jsonFields.map fun (name, value) => Json.quote name ++ ":" ++ value
  "\x7b" ++ ",".intercalate fields ++ "\x7d"

def field? (members : List (String × Json.Value)) (name : String) : Option (Option Json.Value) :=
  match members.filter (·.1 = name) with
  | [] => some none
  | [(_, value)] => some (some value)
  | _ => none

def required? {α : Type} (read? : Json.Value → Option α) (field : Option Json.Value) : Option α :=
  field.bind read?

def optional? {α : Type} (read? : Json.Value → Option α) (default : α) :
    Option Json.Value → Option α
  | none => some default
  | some value => read? value

def readVersion? (value : Json.Value) : Option UInt8 :=
  (value.asNat?.filter (· < 256)).map UInt8.ofNat

def ofFields? (version file sources sourcesContent names mappings : Option Json.Value) :
    Option SourceMap := do
  return {
    version := ← required? readVersion? version
    file := ← optional? (Json.Value.asOptional? Json.Value.asString?) none file
    sources := ← required? (Json.Value.asList? Json.Value.asString?) sources
    sourcesContent := ← optional?
      (Json.Value.asList? (Json.Value.asOptional? Json.Value.asString?)) [] sourcesContent
    names := ← optional? (Json.Value.asList? Json.Value.asString?) [] names
    mappings := ← required? Json.Value.asString? mappings }

/-- Reads a document. An array of the fields' values in order counts as one too. -/
def ofJson? (text : String) : Option SourceMap :=
  match Json.parse? text with
  | some (.object members) => do
    let members ← members.mapM fun (name, value) =>
      (Json.decode? name).map fun name => (String.ofList name, value)
    ofFields? (← field? members "version") (← field? members "file") (← field? members "sources")
      (← field? members "sourcesContent") (← field? members "names") (← field? members "mappings")
  | some (.array items) =>
    if 6 < items.length then none
    else ofFields? items[0]? items[1]? items[2]? items[3]? items[4]? items[5]?
  | _ => none

end SourceMap

end KeySubst

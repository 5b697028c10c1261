import KeySubst.CommandLine.Transform

namespace KeySubst.CommandLine

inductive Printed where
  | help
  | text (s : String)
  deriving DecidableEq, Repr

inductive Complaint where
  | arguments (message : Option String)
  | failed (line : String) (causes : List String)
  deriving DecidableEq, Repr

structure Outcome where
  exit : Nat
  printed : Printed
  complaint : Option Complaint
  deriving DecidableEq, Repr

namespace Outcome

def success (text : String) : Outcome := ⟨0, .text text, none⟩

def failure (text : String) (f : Failure) : Outcome :=
  ⟨1, .text text, some (.failed ("error: " ++ f.context) f.causes)⟩

def ofEarlyExit : EarlyExit → Outcome
  | .help => ⟨0, .help, none⟩
  | .version => success "envreplace 0.1.0\n"
  | .invalid message => ⟨2, .text "", some (.arguments message)⟩

end Outcome

def lines (texts : List String) : String := String.join (texts.map (· ++ "\n"))

def template : String :=
  lines
    ["# envreplace configuration",
      "",
      "# Files to transform, relative to the working directory.",
      "include = [\"./src/**/*\"]",
      "# exclude = [\"./src/vendor/**\"]",
      "",
      "# Only replace keys written as <@KEY@>.",
      "# delimiters = [\"<@\", \"@>\"]",
      "",
      "# Leave \x60KEY = value\x60 assignments untouched.",
      "preventAssignment = true",
      "",
      "sourcemap = true",
      "",
      "[values]",
      "__VERSION__ = \"0.1.0\"",
      "# API_URL = \"https://example.com\""]

def summary (s : Surroundings) (loaded : LoadedOptions Unit) (replacer : Replacer Unit) : String :=
  let options := loaded.options
  let table := replacer.matcher.table
  lines <|
    ["# Source: " ++ loaded.path.getD "(defaults)",
      "# include: " ++ Text.inspectList options.included,
      "# exclude: " ++ Text.inspectList options.excluded] ++
    (options.delimiters.map fun (opening, closing) =>
      "# delimiters: " ++ Text.inspect opening ++ " " ++ Text.inspect closing).toList ++
    ["# prevent-assignment: " ++ Literal.booleanText options.preventAssignment,
      "# sourcemap: " ++ Literal.booleanText options.sourceMaps,
      "# keys: " ++ toString replacer.keys.length,
      ""] ++
    (replacer.keys.filterMap fun key =>
      (table.get? key).map fun value => "  " ++ key ++ " = " ++ value.text) ++
    (match loaded.path, s.home? with
      | none, some home => ["", "User config path: " ++ configIn home]
      | _, _ => [])

variable {m : Type → Type} [Monad m] [FileSystem m]

def initialise (force : Bool) : m Outcome := do
  if (← FileSystem.isPresent configName) && !force then
    return .failure "" (.plain (configName ++ " already exists. Use --force to overwrite."))
  else
    match ← FileSystem.write configName template with
    | .error failure => return .failure "" (.ofSystem ("Failed to write " ++ configName) failure)
    | .ok () => return .success ("Created " ++ configName ++ "\n")

def displayConfig (s : Surroundings) (a : Arguments) : m Outcome := do
  match ← prepare s a with
  | .error failure => return .failure "" failure
  | .ok (loaded, replacer) => return .success (summary s loaded replacer)

def validateConfig (s : Surroundings) (a : Arguments) : m Outcome := do
  match ← prepare s a with
  | .error failure =>
    return ⟨1, .text "", some (.failed ("Configuration error: " ++ failure.chain) [])⟩
  | .ok (loaded, replacer) =>
    let keys := toString replacer.keys.length
    return .success <|
      match loaded.path with
      | some path => "Configuration is valid: " ++ path ++ " (" ++ keys ++ " keys)\n"
      | none => "No configuration file found, defaults are valid (" ++ keys ++ " keys)\n"

def transformFiles (s : Surroundings) (a : Arguments) : m Outcome := do
  match ← prepare s a with
  | .error failure => return .failure "" failure
  | .ok (_, replacer) =>
    let job := ⟨replacer, s.directory, a.given.outDir, a.has .changedOnly⟩
    match ← transformAll job "" a.given.files with
    | (printed, some failure) => return .failure printed failure
    | (printed, none) => return .success printed

def perform (s : Surroundings) (a : Arguments) : m Outcome :=
  if a.has .init then initialise (a.has .force)
  else
    match a.action with
    | some .display => displayConfig s a
    | some .validate => validateConfig s a
    | none =>
      if a.given.files.isEmpty then return .failure "" (.plain "No input files given")
      else transformFiles s a

def run (s : Surroundings) (args : List String) : m Outcome :=
  match Arguments.read args with
  | .error early => return .ofEarlyExit early
  | .ok a => perform s a

end KeySubst.CommandLine

/-!
# Arguments of the command line

Arguments are read from left to right on up to three levels: the program, its `config` command, and
an action of that. Values are looked at when the next option, file or command is met, so that the
first fault in that order is reported.
-/

namespace KeySubst.CommandLine

inductive Setting where
  | config
  | set
  | delimiters
  | include
  | exclude
  | outDir
  deriving DecidableEq, Repr

inductive Switch where
  | allowAssignment
  | noSourceMap
  | changedOnly
  | init
  | force
  | verbose
  | help
  | version
  deriving DecidableEq, Repr

inductive Opt where
  | setting (s : Setting)
  | switch (s : Switch)
  deriving DecidableEq, Repr

inductive Action where
  | display
  | validate
  deriving DecidableEq, Repr

inductive Level where
  | program
  | config
  | action
  deriving DecidableEq, Repr

inductive EarlyExit where
  | help
  | version
  | invalid (message : Option String)
  deriving DecidableEq, Repr

def commonOptions : List (String × Opt) :=
  [("config", .setting .config), ("set", .setting .set), ("delimiters", .setting .delimiters),
    ("allow-assignment", .switch .allowAssignment), ("no-sourcemap", .switch .noSourceMap),
    ("include", .setting .include), ("exclude", .setting .exclude), ("verbose", .switch .verbose),
    ("help", .switch .help)]

def programOptions : List (String × Opt) :=
  [("out-dir", .setting .outDir), ("changed-only", .switch .changedOnly), ("init", .switch .init),
    ("force", .switch .force), ("version", .switch .version)]

def Level.option? (level : Level) (name : String) : Option Opt :=
  match level with
  | .program => (commonOptions ++ programOptions).lookup name
  | _ => commonOptions.lookup name

def Level.switch? (level : Level) (letter : Char) : Option Switch :=
  match letter with
  | 'v' => some .verbose
  | 'h' => some .help
  | 'V' => if level = .program then some .version else none
  | _ => none

def Level.commands : Level → List String
  | .program => ["config", "help"]
  | .config => ["show", "validate", "help"]
  | .action => []

structure Given where
  config : Option String := none
  set : Option (List (String × String)) := none
  delimiters : Option (List String) := none
  included : Option (List String) := none
  excluded : Option (List String) := none
  outDir : Option String := none
  switches : List Switch := []
  files : List String := []
  deriving DecidableEq, Repr

namespace Given

def isEmpty (g : Given) : Bool := g = {}

/-- The options of a level together with those of the level inside of it. -/
def within (outer inner : Given) : Given :=
  { outer with
    config := inner.config.or outer.config
    set := inner.set.or outer.set
    delimiters := inner.delimiters.or outer.delimiters
    included := inner.included.or outer.included
    excluded := inner.excluded.or outer.excluded
    switches := outer.switches ++ inner.switches }

end Given

def readAssignment (text : String) : Except EarlyExit (String × String) :=
  let cs := text.toList
  let key := cs.takeWhile (· ≠ '=')
  match cs.dropWhile (· ≠ '=') with
  | [] => .error (.invalid (some ("expected KEY=VALUE, got \x60" ++ text ++ "\x60")))
  | _ :: value =>
    if key.isEmpty then .error (.invalid (some ("empty key in \x60" ++ text ++ "\x60")))
    else .ok (String.ofList key, String.ofList value)

inductive Slot where
  | setting (s : Setting)
  | files
  deriving DecidableEq, Repr

def Setting.arity : Setting → Nat
  | .delimiters => 2
  | _ => 1

def Given.add (g : Given) (slot : Slot) (values : List String) : Except EarlyExit Given :=
  let invalid := Except.error (.invalid none)
  match slot with
  | .files =>
    if values.any String.isEmpty then invalid else .ok { g with files := g.files ++ values }
  | .setting s =>
    if values.length ≠ s.arity then invalid
    else
      match s, values with
      | .config, [path] =>
        if g.config.isSome || path.isEmpty then invalid else .ok { g with config := some path }
      | .outDir, [path] =>
        if g.outDir.isSome || path.isEmpty then invalid else .ok { g with outDir := some path }
      | .set, [text] =>
        (readAssignment text).map fun pair => { g with set := some (g.set.getD [] ++ [pair]) }
      | .include, globs => .ok { g with included := some (g.included.getD [] ++ globs) }
      | .exclude, globs => .ok { g with excluded := some (g.excluded.getD [] ++ globs) }
      | .delimiters, texts => .ok { g with delimiters := some (g.delimiters.getD [] ++ texts) }
      | _, _ => invalid

/-- Only the switch for more output may come again. -/
def Given.addSwitch (g : Given) (s : Switch) : Except EarlyExit Given :=
  match s with
  | .help => .error .help
  | .version => .error .version
  | s =>
    if s ≠ .verbose ∧ g.switches.contains s then .error (.invalid none)
    else .ok { g with switches := g.switches ++ [s] }

/-! ### Reading one level -/

inductive Mode where
  | free
  | values
  | files
  deriving DecidableEq, Repr

/-- What has been read of a level. Values wait to be looked at until something else comes. -/
structure Progress where
  given : Given := {}
  waiting : Option (Slot × List String) := none
  mode : Mode := .free
  filesOnly : Bool := false

namespace Progress

def settle (p : Progress) : Except EarlyExit Progress :=
  match p.waiting with
  | none => .ok p
  | some (slot, values) =>
    (p.given.add slot values).map fun given => { p with given, waiting := none }

def takeSwitch (p : Progress) (s : Switch) : Except EarlyExit Progress := do
  let p ← p.settle
  return { p with given := ← p.given.addSwitch s, mode := .free }

def takeLetters (p : Progress) (level : Level) : List Char → Except EarlyExit Progress
  | [] => .ok p
  | letter :: letters =>
    match level.switch? letter with
    | none => .error (.invalid none)
    | some s => do takeLetters (← p.takeSwitch s) level letters

def takeLong (p : Progress) (level : Level) (text : List Char) : Except EarlyExit Progress :=
  let name := String.ofList (text.takeWhile (· ≠ '='))
  match level.option? name, text.dropWhile (· ≠ '=') with
  | none, _ => .error (.invalid none)
  | some (.switch s), [] => p.takeSwitch s
  | some (.switch _), _ => .error (.invalid none)
  | some (.setting s), [] => do
    let p ← p.settle
    return { p with waiting := some (.setting s, []), mode := .values }
  | some (.setting s), _ :: value => do
    let p ← p.settle
    return { p with given := ← p.given.add (.setting s) [String.ofList value], mode := .free }

def takeValue (p : Progress) (value : String) : Progress :=
  match p.waiting with
  | some (.setting s, values) =>
    let values := values ++ [value]
    { p with
      waiting := some (.setting s, values)
      mode := if values.length < s.arity then .values else .free }
  | _ => p

def takeFile (p : Progress) (level : Level) (file : String) : Except EarlyExit Progress :=
  if level ≠ .program then .error (.invalid none)
  else
    match p.waiting with
    | some (.files, files) =>
      .ok { p with waiting := some (.files, files ++ [file]), mode := .files }
    | _ => do
      let p ← p.settle
      return { p with waiting := some (.files, [file]), mode := .files }

def take (p : Progress) (level : Level) (arg : String) : Except EarlyExit Progress :=
  if p.filesOnly then p.takeFile level arg
  else
    match arg.toList with
    | ['-', '-'] => .ok { p with filesOnly := true }
    | '-' :: '-' :: text => p.takeLong level text
    | '-' :: c :: letters => p.takeLetters level (c :: letters)
    | _ => if p.mode = .values then .ok (p.takeValue arg) else p.takeFile level arg

def takeAll (p : Progress) (level : Level) :
    List String → Except EarlyExit (Progress × Option (String × List String))
  | [] => .ok (p, none)
  | arg :: args =>
    if !p.filesOnly && p.mode = .free && level.commands.contains arg then .ok (p, some (arg, args))
    else do takeAll (← p.take level arg) level args

end Progress

structure Arguments where
  given : Given
  action : Option Action
  deriving DecidableEq, Repr

namespace Arguments

def has (a : Arguments) (s : Switch) : Bool := a.given.switches.contains s

def subcommands : List String → List String
  | [] => Level.program.commands
  | ["config"] => Level.config.commands
  | _ => []

def helpOn (path : List String) : List String → EarlyExit
  | [] => .help
  | name :: names =>
    if (subcommands path).contains name then helpOn (path ++ [name]) names else .invalid none

def readAction (args : List String) : Except EarlyExit Given := do
  let (p, _) ← Progress.takeAll {} .action args
  return (← p.settle).given

def readConfig (args : List String) : Except EarlyExit (Given × Action) := do
  match ← Progress.takeAll {} .config args with
  | (_, some ("help", names)) => throw (helpOn ["config"] names)
  | (p, some (command, args)) =>
    let inner ← readAction args
    let given := (← p.settle).given.within inner
    return (given, if command = "show" then .display else .validate)
  | (p, none) =>
    let _ ← p.settle
    throw (.invalid none)

def read (args : List String) : Except EarlyExit Arguments := do
  match ← Progress.takeAll {} .program args with
  | (_, some ("help", names)) => throw (helpOn [] names)
  | (p, some (_, args)) =>
    let (inner, action) ← readConfig args
    let outer := (← p.settle).given
    if outer.switches.contains .force && !outer.switches.contains .init then throw (.invalid none)
    return ⟨outer.within inner, some action⟩
  | (p, none) =>
    let given := (← p.settle).given
    if given.isEmpty then throw (.invalid none)
    if given.switches.contains .force && !given.switches.contains .init then throw (.invalid none)
    return ⟨given, none⟩

end Arguments

end KeySubst.CommandLine

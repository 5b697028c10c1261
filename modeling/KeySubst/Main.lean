import KeySubst.CommandLine.Report

namespace KeySubst

def SystemError.ofIO (e : IO.Error) : SystemError :=
  match e with
  | .noFileOrDirectory .. => .notFound
  | .alreadyExists .. => .alreadyExists
  | .inappropriateType _ code _ => if code = 21 then .isDirectory else .notDirectory
  | .invalidArgument _ 36 _ => .nameTooLong
  | e => .other (toString e)

namespace Machine

def attempt {α : Type} (action : IO α) : IO (Except SystemError α) :=
  return (← action.toBaseIO).mapError SystemError.ofIO

def read (path : String) : IO (Except SystemError String) := do
  match ← attempt (IO.FS.readBinFile path) with
  | .error failure => return .error failure
  | .ok content =>
    match String.fromUTF8? content with
    | some text => return .ok text
    | none => return .error .notUtf8

def kind? (path : String) : IO (Option IO.FS.FileType) := do
  if path.isEmpty then return none
  let place := (← IO.currentDir) / path
  match ← place.metadata.toBaseIO with
  | .ok data => return some data.type
  | .error _ => return none

instance : FileSystem IO where
  isFile path := return (← kind? path) matches some .file
  isDirectory path := return (← kind? path) matches some .dir
  read := read
  write path text := attempt (IO.FS.writeFile path text)
  makeDirectory path := attempt (IO.FS.createDir path)

def environment : IO (List (String × String)) := do
  match ← read "/proc/self/environ" with
  | .error _ => return []
  | .ok text =>
    return (text.splitOn "\x00").filterMap fun item =>
      match item.splitOn "=" with
      | name :: value :: more => some (name, "=".intercalate (value :: more))
      | _ => none

def surroundings : IO CommandLine.Surroundings := do
  return { directory := (← IO.currentDir).toString, environment := ← environment }

end Machine

end KeySubst

def main (args : List String) : IO UInt32 := do
  let outcome ← KeySubst.CommandLine.run (← KeySubst.Machine.surroundings) args
  IO.print outcome.printed.shown
  if let some complaint := outcome.complaint then
    IO.eprint complaint.shown
  return outcome.exit.toUInt32

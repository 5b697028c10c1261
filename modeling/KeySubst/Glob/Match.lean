import KeySubst.Glob.Kind

/-!
# Matching globs

The places of a path are marked as far as the parts of a glob lead to them, all at once, so that
wildcards need no backtracking.
-/

namespace KeySubst.Glob

/-- The place before each byte in turn, then the one at the end. -/
abbrev Marks := List Bool

namespace Marks

def start (path : List UInt8) : Marks := true :: path.map fun _ => false

def either (a b : Marks) : Marks := List.zipWith (· || ·) a b

def overByte (accepted : UInt8 → Bool) (reached : Bool) : List UInt8 → Marks → Marks
  | b :: path, m :: marks => reached :: overByte accepted (m && accepted b) path marks
  | _, _ => [reached]

def overRun (accepted : UInt8 → Bool) (reached : Bool) : List UInt8 → Marks → Marks
  | b :: path, m :: marks =>
    (reached || m) :: overRun accepted ((reached || m) && accepted b) path marks
  | _, marks => [reached || marks.headD false]

def overChar (c : Char) (path : List UInt8) (marks : Marks) : Marks :=
  (String.utf8EncodeChar c).foldl (fun marks b => overByte (· = b) false path marks) marks

def overSeparator (path : List UInt8) (marks : Marks) : Marks :=
  overByte (· = separator) false path marks

def overAnything (path : List UInt8) (marks : Marks) : Marks :=
  overRun (fun _ => true) false path marks

def overDirectories (path : List UInt8) (marks : Marks) : Marks :=
  marks.either (overSeparator path (overAnything path marks))

def atEnd (marks : Marks) : Bool := marks.getLastD false

end Marks

mutual

def Part.isVoid : Part → Bool
  | .alternatives branches => allVoid branches
  | _ => false

def isVoid : List Part → Bool
  | [] => true
  | p :: ps => p.isVoid && isVoid ps

def allVoid : List (List Part) → Bool
  | [] => true
  | b :: bs => isVoid b && allVoid bs

end

mutual

/-- Branches that stand for nothing count only if all do. -/
def Part.advance (path : List UInt8) : Part → Marks → Marks
  | .char c, marks => marks.overChar c path
  | .anyByte, marks => marks.overByte (· ≠ separator) false path
  | .anyRun, marks => marks.overRun (· ≠ separator) false path
  | .leadingDirectories, marks => marks.overDirectories path
  | .innerDirectories, marks => (marks.overSeparator path).overDirectories path
  | .trailingDirectories, marks => (marks.overSeparator path).overAnything path
  | .oneOf negated ranges, marks => marks.overByte (inRanges ranges · != negated) false path
  | .alternatives branches, marks =>
    if allVoid branches then marks else advanceAny path branches marks

def advance (path : List UInt8) : List Part → Marks → Marks
  | [], marks => marks
  | p :: ps, marks => advance path ps (p.advance path marks)

def advanceAny (path : List UInt8) : List (List Part) → Marks → Marks
  | [], marks => marks.map fun _ => false
  | b :: bs, marks =>
    let others := advanceAny path bs marks
    if isVoid b then others else (advance path b marks).either others

end

def endsUpward (path : String) : Bool :=
  match path.toList.reverse with
  | '.' :: '.' :: rest => rest.head?.all (· = '/')
  | _ => false

/-- A glob of leading directories alone matches everything, and one for names with a final dot does
not match two dots. -/
def isMatch (glob : List Part) (path : String) : Bool :=
  match glob with
  | [.leadingDirectories] => true
  | glob =>
    let bytes := path.toUTF8.toList
    (advance bytes glob (Marks.start bytes)).atEnd && !(wantsFinalDot glob && endsUpward path)

end KeySubst.Glob

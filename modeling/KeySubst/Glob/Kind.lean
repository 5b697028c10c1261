import KeySubst.Glob.Basic

/-!
# Kinds of globs

What a glob looks at in a path: a text that is compared, the name at the end, an extension of that
name, or all of it.
-/

namespace KeySubst.Glob

def isText (parts : List Part) : Bool := !parts.isEmpty && parts.all (·.char?.isSome)

def Part.isAfterDot (p : Part) : Bool := p.char?.any fun c => c ≠ '.' && c ≠ '/'

def isComparison : List Part → Bool
  | .leadingDirectories :: .anyRun :: .char '.' :: parts => parts.all Part.isAfterDot
  | .leadingDirectories :: parts => isText parts
  | parts =>
    match parts.getLast? with
    | some .trailingDirectories => parts.dropLast.all (·.char?.isSome)
    | _ => isText parts

def asksForExtension (glob : List Part) : Bool :=
  (glob.reverse.dropWhile Part.isAfterDot).head?.bind Part.char? = some '.'

/-- A part that never takes a separator. Alternatives do not count, whatever their branches are. -/
def Part.staysInName : Part → Bool
  | .char c => c ≠ '/'
  | .anyByte => true
  | .anyRun => true
  | .oneOf negated ranges => inRanges ranges separator = negated
  | _ => false

def isAboutNames : List Part → Bool
  | .leadingDirectories :: parts => !parts.isEmpty && parts.all Part.staysInName
  | _ => false

def isSpelledOut : List Part → Bool
  | .leadingDirectories :: parts =>
    parts.all (·.char?.isSome) && parts.any (·.char? = some '/')
  | parts => parts.all (·.char?.isSome)

def wantsFinalDot (glob : List Part) : Bool :=
  glob.getLast?.bind Part.char? = some '.' && !isSpelledOut glob

end KeySubst.Glob

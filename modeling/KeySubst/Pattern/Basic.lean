/-!
# Patterns

Keys are listed with the preferred ones first, and the frame says what must surround them.
-/

namespace KeySubst

inductive Frame where
  | word
  | delimited (opening closing : String)
  deriving DecidableEq, Repr

abbrev Spelled := String × List Char

def spell (keys : List String) : List Spelled := keys.map fun key => (key, key.toList)

structure Pattern where
  keys : List String
  frame : Frame
  spelled : List Spelled := spell keys
  spelled_eq : spelled = spell keys := by rfl

namespace Pattern

def metaCharacters : List Char :=
  ['\\', '.', '+', '*', '?', '(', ')', '|', '[', ']', '\x7b', '\x7d', '^', '$', '-', '#', '&', '~']

def escape (s : String) : String :=
  String.ofList (s.toList.flatMap fun c => if metaCharacters.contains c then ['\\', c] else [c])

/-- Sizes are those in bytes; keys of one size keep their order. -/
def longestFirst (keys : List String) : List String :=
  keys.mergeSort fun a b => b.utf8ByteSize ≤ a.utf8ByteSize

def wordEdge : String := "(?-u:\\b)"

def surroundings : Frame → String × String
  | .word => (wordEdge, wordEdge)
  | .delimited opening closing => (escape opening, escape closing)

def source (p : Pattern) : String :=
  let (before, after) := surroundings p.frame
  before ++ "(" ++ "|".intercalate (p.keys.map escape) ++ ")" ++ after

end Pattern

end KeySubst

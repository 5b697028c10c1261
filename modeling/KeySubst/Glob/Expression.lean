import KeySubst.Expression
import KeySubst.Glob.Kind

/-!
# Globs as regular expressions

There is a limit on how deep the regular expression of a glob may nest, which concerns no glob that
is a plain comparison of texts or about names alone. Globs that ask for an extension are looked at
first, each alone; the rest share a set of expressions.
-/

namespace KeySubst.Glob

mutual

/-- Branches that stand for nothing are left out, and so are alternatives without any other branch.
-/
def Part.expression : Part → List Expression
  | .char c => (String.utf8EncodeChar c).map .byte
  | .anyByte => [.set true [(separator, separator)]]
  | .anyRun => [.repeated (.set true [(separator, separator)])]
  | .leadingDirectories =>
    [.group [[.optional (.byte separator)], [.repeated .anyByte, .byte separator]]]
  | .innerDirectories =>
    [.group [[.byte separator], [.byte separator, .repeated .anyByte, .byte separator]]]
  | .trailingDirectories => [.byte separator, .repeated .anyByte]
  | .oneOf negated ranges => [.set negated ranges]
  | .alternatives branches =>
    match branchExpressions branches with
    | [] => []
    | sequences => [.group sequences]

def expression : List Part → List Expression
  | [] => []
  | p :: ps => p.expression ++ expression ps

def branchExpressions : List (List Part) → List (List Expression)
  | [] => []
  | b :: bs =>
    match expression b with
    | [] => branchExpressions bs
    | sequence => sequence :: branchExpressions bs

end

def source (glob : List Part) : String :=
  let inner := match glob with
    | [.leadingDirectories] => [.repeated .anyByte]
    | glob => expression glob
  "(?-u)^" ++ Expression.sequenceSource inner ++ "$"

def maxNesting : Nat := 250

/-- The start and the end of an expression and what is between them make it a sequence. -/
def nestsTooDeep (glob : List Part) : Bool :=
  maxNesting < Expression.pieceNesting (expression glob) + 1

inductive Excess where
  | alone (source : String)
  | inSet (place : Nat)
  deriving DecidableEq, Repr

def Excess.message : Excess → String
  | alone source => "error parsing glob '" ++ source ++ "': error parsing pattern 0"
  | inSet place => "error parsing pattern " ++ toString place

def excess? (globs : List (List Part)) : Option Excess :=
  let expressed := globs.filter fun glob => !isComparison glob && !isAboutNames glob
  let (alone, set) := expressed.partition asksForExtension
  ((alone.find? nestsTooDeep).map (.alone <| source ·)).or <|
    (set.findIdx? nestsTooDeep).map .inSet

end KeySubst.Glob

import KeySubst.SourceMap.Vlq

/-!
# Mappings

In text mappings are differences: the column against the mapping before it on the same line, and all
else against the mapping before it at all. `encode` sets no bound on them; `write?` puts them into
words of 64 bits.
-/

namespace KeySubst

structure Mapping where
  column : Nat
  source : Nat
  sourceLine : Nat
  sourceColumn : Nat
  deriving DecidableEq, Repr

abbrev Mappings := List (List Mapping)

namespace Mapping

def origin : Mapping := ⟨0, 0, 0, 0⟩

def differences (before m : Mapping) : List Int :=
  [(m.column : Int) - before.column, (m.source : Int) - before.source,
    (m.sourceLine : Int) - before.sourceLine, (m.sourceColumn : Int) - before.sourceColumn]

def ofDifferences? (before : Mapping) : List Int → Option Mapping
  | [column, source, line, sourceColumn] =>
    let sums : List Int := [before.column + column, before.source + source,
      before.sourceLine + line, before.sourceColumn + sourceColumn]
    if sums.any (· < 0) then none
    else match sums.map Int.toNat with
      | [column, source, line, sourceColumn] => some ⟨column, source, line, sourceColumn⟩
      | _ => none
  | _ => none

def atLineStart (before : Mapping) : Mapping := { before with column := 0 }

end Mapping

namespace Mappings

def encodeLine (before : Mapping) (line : List Mapping) : List Char :=
  let segments := List.zipWith (fun before m => (Mapping.differences before m).flatMap Vlq.encode)
    (before.atLineStart :: line) line
  [','].intercalate segments

def encodeLines (before : Mapping) : Mappings → List Char
  | [] => []
  | [line] => encodeLine before line
  | line :: lines =>
    encodeLine before line ++ ';' :: encodeLines (line.getLast?.getD before) lines

def encode (m : Mappings) : String := String.ofList (encodeLines .origin m)

/-- A text that mappings are added to, and the mapping that the next one is told from. -/
structure Writer where
  out : String
  before : Mapping
  started : Bool

namespace Writer

def add (w : Writer) (m : Mapping) : Option Writer := do
  let out ← (w.before.differences m).foldlM (fun out v => Vlq.append (.ofInt v) out)
    (if w.started then w.out.push ',' else w.out)
  return ⟨out, m, true⟩

def endLine (w : Writer) : Writer := ⟨w.out.push ';', w.before.atLineStart, false⟩

def addLines (w : Writer) : Mappings → Option Writer
  | [] => some w
  | [line] => line.foldlM add w
  | line :: lines => do
    let w ← line.foldlM add w
    addLines w.endLine lines

end Writer

def write? (m : Mappings) : Option String :=
  (Writer.addLines ⟨"", .origin, false⟩ m).map Writer.out

def splitAt (mark : Char) : List Char → List (List Char)
  | [] => [[]]
  | c :: rest =>
    match splitAt mark rest with
    | [] => [[c]]
    | part :: parts => if c = mark then [] :: part :: parts else (c :: part) :: parts

def decodeSegments? (before : Mapping) : List (List Char) → Option (List Mapping)
  | [] => some []
  | segment :: segments => do
    let m ← Mapping.ofDifferences? before (← Vlq.decode? segment)
    return m :: (← decodeSegments? m segments)

def decodeLine? (before : Mapping) (line : List Char) : Option (List Mapping) :=
  if line.isEmpty then some [] else decodeSegments? before.atLineStart (splitAt ',' line)

def decodeLines? (before : Mapping) : List (List Char) → Option Mappings
  | [] => some []
  | line :: lines => do
    let ms ← decodeLine? before line
    return ms :: (← decodeLines? (ms.getLast?.getD before) lines)

def decode? (text : String) : Option Mappings := decodeLines? .origin (splitAt ';' text.toList)

end Mappings

end KeySubst

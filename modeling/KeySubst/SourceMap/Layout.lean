import KeySubst.SourceMap.Mappings
import KeySubst.SourceMap.PositionMap
import KeySubst.Text.Position

/-!
# Mappings of an output

Every character that was copied is mapped to its own position in the input, and the first one on
each line of text that was put in to the start of the span it stands for. Line ends are not mapped.
-/

namespace KeySubst

open Text (Position LineIndex)

abbrev Mark := Char × Option Position

namespace Mark

def copied (marks : List Mark) (p : Position) : List Char → List Mark
  | [] => marks
  | c :: rest => copied ((c, if c = '\n' then none else some p) :: marks) (p.advance c) rest

def inserted (marks : List Mark) (p : Position) (lineStart : Bool) : List Char → List Mark
  | [] => marks
  | c :: rest =>
    if c = '\n' then inserted ((c, none) :: marks) p true rest
    else inserted ((c, if lineStart then some p else none) :: marks) p false rest

end Mark

namespace PositionMap

/-- Marks in reverse. There are none if a segment does not fit the texts. -/
def marksFrom? (index : LineIndex) (marks : List Mark) (offset : Nat) (output : List Char) :
    List Segment → Option (List Mark)
  | [] => some marks
  | s :: segments =>
    if s.output.start < offset ∨ s.output.stop < s.output.start then none
    else do
      let rest ← Text.dropBytes? (s.output.start - offset) output
      let (text, rest) ← Text.splitBytes? (s.output.stop - s.output.start) rest
      let p ← index.locate? s.input.start
      let marks := match s.kind with
        | .unchanged => Mark.copied marks p text
        | .replaced => Mark.inserted marks p true text
      marksFrom? index marks s.output.stop rest segments

def marks? (map : PositionMap) (input output : String) : Option (List Mark) :=
  (marksFrom? (LineIndex.ofText input.toList) [] 0 output.toList map.segments).map List.reverse

end PositionMap

/-- The lines that are done and the line at hand are in reverse. -/
structure Layout where
  done : List (List Mapping)
  line : List Mapping
  column : Nat

namespace Layout

def add (l : Layout) (mark : Mark) : Layout :=
  if mark.1 = '\n' then ⟨l.line.reverse :: l.done, [], 0⟩
  else
    { l with
      line := match mark.2 with
        | some p => ⟨l.column, 0, p.line, p.column⟩ :: l.line
        | none => l.line
      column := l.column + Text.utf16Units mark.1 }

def mappings (l : Layout) : Mappings := (l.line.reverse :: l.done).reverse

end Layout

def Mappings.ofMarks (marks : List Mark) : Mappings := (marks.foldl Layout.add ⟨[], [], 0⟩).mappings

def PositionMap.mappings? (map : PositionMap) (input output : String) : Option Mappings :=
  (map.marks? input output).map Mappings.ofMarks

end KeySubst

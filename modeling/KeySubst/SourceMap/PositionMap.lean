/-!
# Position maps

A position map cuts an output into segments, each copied from the input or put in place of a span of
it.
-/

namespace KeySubst

structure Span where
  start : Nat
  stop : Nat
  deriving DecidableEq, Repr

inductive SegmentKind where
  | unchanged
  | replaced
  deriving DecidableEq, Repr

structure Segment where
  kind : SegmentKind
  output : Span
  input : Span
  deriving DecidableEq, Repr

structure PositionMap where
  segments : List Segment
  outputSize : Nat
  inputSize : Nat
  deriving DecidableEq, Repr

/-- A byte that was copied comes from the same byte, and text that was put in from the start of its
span. -/
def Segment.inputOffset (s : Segment) (offset : Nat) : Nat :=
  match s.kind with
  | .unchanged => s.input.start + (offset - s.output.start)
  | .replaced => s.input.start

/-- The end of the output comes from the end of the input, and an offset past it from nowhere. -/
def PositionMap.inputOffset? (map : PositionMap) (offset : Nat) : Option Nat :=
  if map.outputSize < offset then none
  else if offset = map.outputSize then some map.inputSize
  else (map.segments.find? (offset < ·.output.stop)).map (·.inputOffset offset)

end KeySubst

import KeySubst.SourceMap.PositionMap
import KeySubst.Text.Size

namespace KeySubst

structure Edit where
  start : Nat
  stop : Nat
  text : String
  deriving DecidableEq, Repr

/-- A part of the outcome and the span of the input that it stands for. -/
structure Piece where
  kind : SegmentKind
  text : List Char
  input : Span
  deriving DecidableEq, Repr

namespace Piece

def copied (start : Nat) (text : List Char) : List Piece :=
  if text.isEmpty then [] else [⟨.unchanged, text, ⟨start, start + Text.byteSize text⟩⟩]

/-- There are no pieces if an edit starts before the offset or ends before it starts, lies past the
end, or divides a character. -/
def ofEdits? (offset : Nat) (rest : List Char) : List Edit → Option (List Piece)
  | [] => some (copied offset rest)
  | e :: edits =>
    if e.start < offset ∨ e.stop < e.start then none
    else do
      let (kept, rest) ← Text.splitBytes? (e.start - offset) rest
      let rest ← Text.dropBytes? (e.stop - e.start) rest
      let pieces ← ofEdits? e.stop rest edits
      return copied offset kept ++ ⟨.replaced, e.text.toList, ⟨e.start, e.stop⟩⟩ :: pieces

def segments (offset : Nat) : List Piece → List Segment
  | [] => []
  | p :: pieces =>
    let stop := offset + Text.byteSize p.text
    ⟨p.kind, ⟨offset, stop⟩, p.input⟩ :: segments stop pieces

def join (pieces : List Piece) : String := String.ofList (pieces.flatMap Piece.text)

end Piece

end KeySubst

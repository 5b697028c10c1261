import KeySubst.Text.Size

/-!
# Lines and columns

A position counts the lines before a place and the UTF-16 units before it on its own line.
-/

namespace KeySubst.Text

structure Position where
  line : Nat
  column : Nat
  deriving DecidableEq, Repr

def Position.advance (p : Position) (c : Char) : Position :=
  if c = '\n' then ⟨p.line + 1, 0⟩ else ⟨p.line, p.column + utf16Units c⟩

structure Line where
  start : Nat
  text : List Char
  deriving DecidableEq, Repr

structure LineIndex where
  first : Line
  others : List Line
  deriving DecidableEq, Repr

namespace LineIndex

/-- The start, the size and the reversed characters of the line at hand are given as far as it goes.
-/
def linesFrom (start size : Nat) (line : List Char) : List Char → Line × List Line
  | [] => (⟨start, line.reverse⟩, [])
  | c :: rest =>
    if c = '\n' then
      let (next, others) := linesFrom (start + size + 1) 0 [] rest
      (⟨start, (c :: line).reverse⟩, next :: others)
    else linesFrom start (size + c.utf8Size) (c :: line) rest

def ofText (text : List Char) : LineIndex :=
  let (first, others) := linesFrom 0 0 [] text
  ⟨first, others⟩

def lineAt (offset number : Nat) (line : Line) : List Line → Nat × Line
  | [] => (number, line)
  | next :: others =>
    if next.start ≤ offset then lineAt offset (number + 1) next others else (number, line)

/-- There is none past the end of the text or inside a character. -/
def locate? (index : LineIndex) (offset : Nat) : Option Position :=
  let (number, line) := lineAt offset 0 index.first index.others
  (unitsBefore? (offset - line.start) line.text).map (⟨number, ·⟩)

end LineIndex

end KeySubst.Text

import KeySubst.Text.Visible

/-!
# Text shown between double quotes

Quotes, backslashes and the control characters with a name are escaped by a letter, and what cannot
be seen by its code point.
-/

namespace KeySubst.Text

def codePointEscape (c : Char) : List Char :=
  ['\\', 'u', '\x7b'] ++ Nat.toDigits 16 c.toNat ++ ['\x7d']

def inspectChar (c : Char) : List Char :=
  match c with
  | '\x00' => ['\\', '0']
  | '\t' => ['\\', 't']
  | '\n' => ['\\', 'n']
  | '\r' => ['\\', 'r']
  | '"' => ['\\', '"']
  | '\\' => ['\\', '\\']
  | c => if isVisible c then [c] else codePointEscape c

def inspect (s : String) : String := String.ofList ('"' :: s.toList.flatMap inspectChar ++ ['"'])

def inspectList (texts : List String) : String := "[" ++ ", ".intercalate (texts.map inspect) ++ "]"

end KeySubst.Text

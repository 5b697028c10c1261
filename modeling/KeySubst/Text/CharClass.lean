namespace KeySubst.Text

def isWordChar (c : Char) : Bool := c.isAlphanum || c = '_'

def isWordEdge (before after : Option Char) : Bool := before.any isWordChar != after.any isWordChar

/-- White space and line terminators of ECMAScript: the Unicode property `White_Space` without
U+0085, and U+FEFF. -/
def isBlank (c : Char) : Bool :=
  let n := c.toNat
  (0x09 ≤ n && n ≤ 0x0D) || n = 0x20 || n = 0xA0 || n = 0x1680 || (0x2000 ≤ n && n ≤ 0x200A) ||
    n = 0x2028 || n = 0x2029 || n = 0x202F || n = 0x205F || n = 0x3000 || n = 0xFEFF

end KeySubst.Text

import KeySubst.Text.Hex
import KeySubst.Toml.Reader

namespace KeySubst.Toml

def isBlank (c : Char) : Bool := c = ' ' || c = '\t'

def isPlain (c : Char) : Bool := c = '\t' || (0x20 ≤ c.toNat && c.toNat ≠ 0x7F)

def isBareKeyChar (c : Char) : Bool := c.isAlphanum || c = '_' || c = '-'

namespace Reader

def skipBlanks : Reader Unit := do let _ ← takeWhile isBlank

def takeNewline? : Reader Bool := do
  if ← take? "\n" then return true else take? "\r\n"

def skipComment : Reader Unit := do
  if ← take? "#" then
    let _ ← takeWhile isPlain

def skipLines : Reader Unit :=
  repeatUntil (fun _ => do
    skipBlanks
    skipComment
    return if ← takeNewline? then .inl () else .inr ()) ()

def endLine : Reader Unit := do
  skipBlanks
  skipComment
  unless ← takeNewline? do
    if (← peek?).isSome then failure

def codePoint (n : Nat) : Reader Char := do
  let rest ← get
  let digits := rest.take n
  if digits.length < n then failure
  set (rest.drop n)
  let code ← Text.hexNumber? digits
  if code < 0xD800 ∨ (0xDFFF < code ∧ code < 0x110000) then return Char.ofNat code else failure

def escape : Reader Char := do
  match ← next with
  | 'b' => return '\x08'
  | 't' => return '\t'
  | 'n' => return '\n'
  | 'f' => return '\x0c'
  | 'r' => return '\r'
  | 'e' => return '\x1b'
  | '"' => return '"'
  | '\\' => return '\\'
  | 'x' => codePoint 2
  | 'u' => codePoint 4
  | 'U' => codePoint 8
  | _ => failure

def shortString (mark : Char) (escapes : Bool) : Reader String :=
  repeatUntil (fun (taken : List Char) => do
    let c ← next
    if c = mark then return .inr (String.ofList taken.reverse)
    else if escapes ∧ c = '\\' then return .inl ((← escape) :: taken)
    else if isPlain c then return .inl (c :: taken)
    else failure) []

/-- All blanks and line ends up to the next other character. Tells whether the backslash did end a
line. -/
def lineContinuation? : Reader Bool := do
  let rest ← get
  skipBlanks
  if ← takeNewline? then
    repeatUntil (fun _ => do
      skipBlanks
      return if ← takeNewline? then .inl () else .inr ()) ()
    return true
  else
    set rest
    return false

/-- Up to two marks may stand before the three that close the string. -/
def longString (mark : Char) (escapes : Bool) : Reader String := do
  let _ ← takeNewline?
  let close := String.ofList [mark, mark, mark]
  repeatUntil (fun (taken : List Char) => do
    if ← take? close then
      let extra := (← get).takeWhile (· = mark) |>.take 2
      set ((← get).drop extra.length)
      return .inr (String.ofList (extra ++ taken).reverse)
    else if ← take? "\r\n" then return .inl ('\n' :: '\r' :: taken)
    else
      let c ← next
      if escapes ∧ c = '\\' then
        if ← lineContinuation? then return .inl taken else return .inl ((← escape) :: taken)
      else if isPlain c ∨ c = '\n' then return .inl (c :: taken)
      else failure) []

def anyString : Reader String := do
  if ← take? "\"\"\"" then longString '"' true
  else if ← take? "\"" then shortString '"' true
  else if ← take? "'''" then longString '\'' false
  else
    take "'"
    shortString '\'' false

def maxNames : Nat := 80

def simpleKey : Reader String := do
  if ← take? "\"" then shortString '"' true
  else if ← take? "'" then shortString '\'' false
  else
    let name ← takeWhile isBareKeyChar
    if name.isEmpty then failure
    return String.ofList name

def key : Reader (List String × String) := do
  skipBlanks
  let first ← simpleKey
  skipBlanks
  repeatUntil (fun ((path, last) : List String × String) => do
    if ← take? "." then
      if path.length + 1 = maxNames then failure
      skipBlanks
      let name ← simpleKey
      skipBlanks
      return .inl (path ++ [last], name)
    else return .inr (path, last)) ([], first)

end Reader

end KeySubst.Toml

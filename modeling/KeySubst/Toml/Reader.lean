/-!
# Reading characters

A loop makes no more rounds than the whole text has characters, and one more, which is enough since
every round but the last takes a character.
-/

namespace KeySubst.Toml

/-- The number is the limit on the rounds of a loop. -/
abbrev Reader (α : Type) := ReaderT Nat (StateT (List Char) Option) α

namespace Reader

variable {α σ : Type}

def peek? : Reader (Option Char) := return (← get).head?

def next : Reader Char := do
  match ← get with
  | [] => failure
  | c :: rest => set rest; return c

def take? (text : String) : Reader Bool := do
  let rest ← get
  let wanted := text.toList
  if wanted.isPrefixOf rest then
    set (rest.drop wanted.length)
    return true
  else return false

def take (text : String) : Reader Unit := do
  unless ← take? text do failure

def takeWhile (accepted : Char → Bool) : Reader (List Char) := do
  let rest ← get
  set (rest.dropWhile accepted)
  return rest.takeWhile accepted

def loop (round : σ → Reader (σ ⊕ α)) : (fuel : Nat) → σ → Reader α
  | 0, _ => failure
  | fuel + 1, s => do
    match ← round s with
    | .inl s => loop round fuel s
    | .inr a => return a

def repeatUntil (round : σ → Reader (σ ⊕ α)) (s : σ) : Reader α := do
  loop round (← read) s

def readAll? (r : Reader α) (text : String) : Option α :=
  match (r.run (text.length + 1)).run text.toList with
  | some (a, []) => some a
  | _ => none

end Reader

end KeySubst.Toml

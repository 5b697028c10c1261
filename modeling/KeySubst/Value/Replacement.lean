import KeySubst.Value.Literal
import KeySubst.Value.Producer

namespace KeySubst

inductive Replacement (σ : Type) where
  | literal (value : Literal)
  | function (producer : Producer σ)

namespace Replacement

variable {σ : Type}

def produce (r : Replacement σ) (name : String) : StateM σ (Except String String) :=
  match r with
  | literal l => pure (.ok l.text)
  | function p => p name

/-- A literal is quoted once, and what a producer gives at each call. -/
def quoted : Replacement σ → Replacement σ
  | literal l => literal l.quoted
  | function p => function p.quoted

def text : Replacement σ → String
  | literal l => l.text
  | function _ => "<function>"

def inspect : Replacement σ → String
  | literal l => "Literal(" ++ l.inspect ++ ")"
  | function _ => "Function(<function>)"

def ofString (s : String) : Replacement σ := literal (.string s)

end Replacement

end KeySubst

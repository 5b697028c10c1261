import KeySubst.Json.Quoted
import KeySubst.Number.Binary64
import KeySubst.Text.Inspect

namespace KeySubst

inductive Literal where
  | string (text : String)
  | integer (value : Int)
  | float (value : Binary64)
  | boolean (value : Bool)
  deriving DecidableEq, Repr

namespace Literal

def booleanText (b : Bool) : String := if b then "true" else "false"

def text : Literal → String
  | string s => s
  | integer i => toString i
  | float x => x.text
  | boolean b => booleanText b

/-- The value as JSON; a number that JSON cannot write is `null`. -/
def json : Literal → String
  | string s => Json.quote s
  | integer i => toString i
  | float x => if x.isFinite then x.text else "null"
  | boolean b => booleanText b

def inspect : Literal → String
  | string s => "String(" ++ Text.inspect s ++ ")"
  | integer i => "Integer(" ++ toString i ++ ")"
  | float x => "Float(" ++ x.inspect ++ ")"
  | boolean b => "Boolean(" ++ booleanText b ++ ")"

def quoted (l : Literal) : Literal := .string l.json

def kind : Literal → String
  | string _ => "string"
  | integer _ => "integer"
  | float _ => "float"
  | boolean _ => "boolean"

end Literal

end KeySubst

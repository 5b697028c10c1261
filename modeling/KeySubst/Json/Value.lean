import KeySubst.Json.Token

/-!
# JSON values

A machine with a stack of the arrays and objects that are open reads the tokens. Repeated names of
members are kept.
-/

namespace KeySubst.Json

inductive Value where
  | null
  | boolean (value : Bool)
  | number (text : List Char)
  | string (raw : List Char)
  | array (items : List Value)
  | object (members : List (List Char × Value))

/-- What an open array or object holds is in reverse; the name of the member at hand comes first. -/
inductive Open where
  | array (items : List Value)
  | object (name : List Char) (members : List (List Char × Value))

inductive Expected where
  | value (orEnd : Bool)
  | name (members : List (List Char × Value)) (orEnd : Bool)
  | colon (name : List Char) (members : List (List Char × Value))
  | next (done : Value)

def run (stack : List Open) : Expected → List Token → Option Value
  | .next done, [] => if stack.isEmpty then some done else none
  | _, [] => none
  | .value orEnd, t :: ts =>
    match t with
    | .null => run stack (.next .null) ts
    | .boolean b => run stack (.next (.boolean b)) ts
    | .number text => run stack (.next (.number text)) ts
    | .string raw => run stack (.next (.string raw)) ts
    | .openArray => run (.array [] :: stack) (.value true) ts
    | .openObject => run stack (.name [] true) ts
    | .closeArray =>
      match orEnd, stack with
      | true, .array items :: stack => run stack (.next (.array items.reverse)) ts
      | _, _ => none
    | _ => none
  | .name members orEnd, t :: ts =>
    match t with
    | .string raw => run stack (.colon raw members) ts
    | .closeObject => if orEnd then run stack (.next (.object members.reverse)) ts else none
    | _ => none
  | .colon name members, t :: ts =>
    match t with
    | .colon => run (.object name members :: stack) (.value false) ts
    | _ => none
  | .next done, t :: ts =>
    match t, stack with
    | .comma, .array items :: stack => run (.array (done :: items) :: stack) (.value false) ts
    | .closeArray, .array items :: stack =>
      run stack (.next (.array (done :: items).reverse)) ts
    | .comma, .object name members :: stack => run stack (.name ((name, done) :: members) false) ts
    | .closeObject, .object name members :: stack =>
      run stack (.next (.object ((name, done) :: members).reverse)) ts
    | _, _ => none

def parse? (text : String) : Option Value := (tokens? text.toList).bind (run [] (.value false))

namespace Value

def asString? : Value → Option String
  | string raw => (decode? raw).map String.ofList
  | _ => none

def asNat? : Value → Option Nat
  | number text => if text.all Char.isDigit then some (Nat.ofDigitChars 10 text 0) else none
  | _ => none

def asList? {α : Type} (item? : Value → Option α) : Value → Option (List α)
  | array items => items.mapM item?
  | _ => none

def asOptional? {α : Type} (item? : Value → Option α) : Value → Option (Option α)
  | null => some none
  | v => (item? v).map some

end Value

end KeySubst.Json

import KeySubst.Toml.Scalar

/-!
# Documents

How a table came to be decides what may still be added to it: one made by a header or in braces is
complete, one that is only passed through by a header can still get its own, and one made by a key
with points can be extended by such keys only.
-/

namespace KeySubst.Toml

inductive Node where
  | scalar (v : Option Value)
  | array (items : List Node)
  | braced (members : List (String × Node))
  /-- Whether no header has named the table, and whether keys with points made it. -/
  | table (implicit dotted : Bool) (members : List (String × Node))
  | tables (done : List (List (String × Node))) (last : List (String × Node))

abbrev Members := List (String × Node)

def datetimeMark : String := "$__toml_private_datetime"

def Node.datetime? : Node → Option Datetime
  | .scalar (some (.string text)) => Datetime.read? text.toList
  | _ => none

mutual

def Node.toValue? : Node → Option Value
  | .scalar v => v
  | .array items => (toItems? items).map .array
  | .braced members => membersValue? members
  | .table _ _ members => membersValue? members
  | .tables done last => do some (.array ((← toTables? done) ++ [← membersValue? last]))

/-- Members of which the first is marked as a datetime stand for the one that it spells, and the
others do not count. -/
def membersValue? : Members → Option Value
  | [] => some (.table [])
  | (key, node) :: members =>
    if key = datetimeMark then node.datetime?.map .datetime
    else do some (.table ((key, ← node.toValue?) :: (← toTable? members)))

def toTable? : Members → Option Table
  | [] => some []
  | (key, node) :: members => do some ((key, ← node.toValue?) :: (← toTable? members))

def toItems? : List Node → Option (List Value)
  | [] => some []
  | node :: nodes => do some ((← node.toValue?) :: (← toItems? nodes))

def toTables? : List Members → Option (List Value)
  | [] => some []
  | members :: others => do some ((← membersValue? members) :: (← toTables? others))

end

/-! ### What may be added -/

namespace Members

def replace (members : Members) (key : String) (node : Node) : Members :=
  members.map fun (k, old) => if k = key then (k, node) else (k, old)

/-- Tables on the way that are missing are made. With `byKey` the path is part of a key with points,
and no table that has a header may lie on the way. -/
def update (byKey : Bool) (change : (dotted : Bool) → Members → Option Members) :
    (path : List String) → (dotted : Bool) → Members → Option Members
  | [], dotted, members => change dotted members
  | key :: path, _, members =>
    match members.lookup key with
    | none => do
      let made ← update byKey change path byKey []
      some (members ++ [(key, .table true byKey made)])
    | some (.table implicit dotted inner) =>
      if byKey ∧ !implicit then none
      else (update byKey change path dotted inner).map fun inner =>
        members.replace key (.table implicit dotted inner)
    | some (.tables done last) =>
      (update byKey change path false last).map fun last => members.replace key (.tables done last)
    | some _ => none

/-- A table made by keys with points takes only such keys, and any other table only keys without. -/
def addValue (members : Members) (path : List String) (key : String) (v : Node) : Option Members :=
  update true (fun dotted members =>
    if dotted = path.isEmpty ∨ (members.lookup key).isSome then none
    else some (members ++ [(key, v)])) path false members

/-- A table that headers have only passed through moves to the end. -/
def addTable (members : Members) (path : List String) (key : String) : Option Members :=
  update false (fun _ members =>
    match members.lookup key with
    | none => some (members ++ [(key, .table false false [])])
    | some (.table true false inner) =>
      some (members.filter (·.1 ≠ key) ++ [(key, .table false false inner)])
    | some _ => none) path false members

def addItem (members : Members) (path : List String) (key : String) : Option Members :=
  update false (fun _ members =>
    match members.lookup key with
    | none => some (members ++ [(key, .tables [] [])])
    | some (.tables done last) => some (members.replace key (.tables (done ++ [last]) []))
    | some _ => none) path false members

end Members

namespace Reader

def arrayItems (item : Reader Node) : Reader Node :=
  repeatUntil (fun (items : List Node) => do
    skipLines
    if ← take? "]" then return .inr (.array items.reverse)
    let v ← item
    skipLines
    if ← take? "," then return .inl (v :: items)
    take "]"
    return .inr (.array (v :: items).reverse)) []

def keyValue (gap : Reader Unit) (item : Reader Node) : Reader (List String × String × Node) := do
  let (path, last) ← key
  gap
  take "="
  gap
  return (path, last, ← item)

/-- A member may be spread over lines, but not its key. -/
def inlineTable (item : Reader Node) : Reader Node :=
  let close := "\x7d"
  repeatUntil (fun (members : Members) => do
    skipLines
    if ← take? close then return .inr (.braced members)
    let (path, last, v) ← keyValue skipLines item
    let members ← members.addValue path last v
    skipLines
    if ← take? "," then return .inl members
    take close
    return .inr (.braced members)) []

def valueOf (item? : Option (Reader Node)) : Reader Node := do
  match ← peek? with
  | none => failure
  | some c =>
    if c = '[' then
      let item ← item?
      let _ ← next
      arrayItems item
    else if c = '\x7b' then
      let item ← item?
      let _ ← next
      inlineTable item
    else if c = '"' ∨ c = '\'' then return .scalar (some (.string (← anyString)))
    else return .scalar (← scalar)

def value : (depth : Nat) → Reader Node
  | 0 => valueOf none
  | depth + 1 => valueOf (some (value depth))

end Reader

structure Draft where
  root : Members
  header : List String

def Draft.addValue (d : Draft) (path : List String) (key : String) (v : Node) : Option Draft :=
  (Members.update false (fun _ members => members.addValue path key v) d.header false d.root).map
    fun root => { d with root }

def maxDepth : Nat := 80

namespace Reader

def line (d : Draft) : Reader Draft := do
  if ← take? "[[" then
    let (path, last) ← key
    take "]]"
    let root ← d.root.addItem path last
    return ⟨root, path ++ [last]⟩
  else if ← take? "[" then
    let (path, last) ← key
    take "]"
    let root ← d.root.addTable path last
    return ⟨root, path ++ [last]⟩
  else
    let (path, last, v) ← keyValue skipBlanks (value maxDepth)
    d.addValue path last v

/-- A byte order mark in front of a document is skipped. -/
def document : Reader Members := do
  let _ ← take? "\uFEFF"
  repeatUntil (fun (d : Draft) => do
    skipLines
    if (← peek?).isNone then return .inr d.root
    let d ← line d
    endLine
    return .inl d) ⟨[], []⟩

end Reader

/-- The document itself is a table, whatever the name of its first member. -/
def parse? (text : String) : Option Table := (Reader.document.readAll? text).bind toTable?

end KeySubst.Toml

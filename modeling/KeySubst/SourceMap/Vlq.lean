/-!
# Numbers of variable length in base 64

An integer is written as digits of base 32, the least significant first, with its sign in the lowest
bit. The upper half of the alphabet says that more digits follow.
-/

namespace KeySubst.Vlq

def alphabet : List Char :=
  "ABCDEFGHIJKLMNOPQRSTUVWXYZabcdefghijklmnopqrstuvwxyz0123456789+/".toList

def digitChar (n : Nat) : Char := alphabet[n]?.getD 'A'

def digitValue? (c : Char) : Option Nat := alphabet.findIdx? (· = c)

def digits (n : Nat) : List Nat := if n < 32 then [n] else (n % 32 + 32) :: digits (n / 32)
termination_by n
decreasing_by omega

def zigzag (v : Int) : Nat := if v < 0 then 2 * v.natAbs + 1 else 2 * v.natAbs

def unzigzag (n : Nat) : Int := if n % 2 = 1 then -(n / 2 : Nat) else (n / 2 : Nat)

def encode (v : Int) : List Char := (digits (zigzag v)).map digitChar

/-! ### In words of 64 bits -/

def zigzagWord (v : Int64) : Int64 := if v < 0 then ((-v) <<< 1) ||| 1 else v <<< 1

def lowDigit (word : Int64) : Int64 :=
  if word >>> 5 > 0 then (word &&& 31) ||| 32 else word &&& 31

structure Pass where
  word : Int64
  out : String

/-- A word below zero keeps its sign while it is shifted, so that it has no last digit and there is
no outcome. -/
def Pass.run (pass : Pass) : Option String :=
  match alphabet[(lowDigit pass.word).toUInt64.toNat]? with
  | none => none
  | some c =>
    if pass.word >>> 5 = 0 then some (pass.out.push c)
    else { word := pass.word >>> 5, out := pass.out.push c : Pass } |>.run
partial_fixpoint

def append (v : Int64) (out : String) : Option String := Pass.run ⟨zigzagWord v, out⟩

def takeNat? : List Char → Option (Nat × List Char)
  | [] => none
  | c :: rest =>
    match digitValue? c with
    | none => none
    | some d =>
      if d < 32 then some (d, rest)
      else (takeNat? rest).map fun (n, rest) => (d - 32 + 32 * n, rest)

def take? (cs : List Char) : Option (Int × List Char) :=
  (takeNat? cs).map fun (n, rest) => (unzigzag n, rest)

theorem takeNat?_shorter {cs rest : List Char} {n : Nat} (taken : takeNat? cs = some (n, rest)) :
    rest.length < cs.length := by
  induction cs generalizing n with
  | nil => simp [takeNat?] at taken
  | cons c cs ih =>
    rw [takeNat?] at taken
    split at taken
    · simp at taken
    · split at taken
      · simp only [Option.some.injEq, Prod.mk.injEq] at taken
        simp [taken.2]
      · obtain ⟨⟨m, r⟩, h, eq⟩ := Option.map_eq_some_iff.1 taken
        simp only [Prod.mk.injEq] at eq
        obtain ⟨-, rfl⟩ := eq
        exact Nat.lt_succ_of_lt (ih h)

theorem take?_shorter {cs rest : List Char} {v : Int} (taken : take? cs = some (v, rest)) :
    rest.length < cs.length := by
  obtain ⟨⟨n, r⟩, h, eq⟩ := Option.map_eq_some_iff.1 taken
  simp only [Prod.mk.injEq] at eq
  obtain ⟨-, rfl⟩ := eq
  exact takeNat?_shorter h

def decode? (cs : List Char) : Option (List Int) :=
  match cs with
  | [] => some []
  | c :: rest =>
    match _taken : take? (c :: rest) with
    | none => none
    | some (v, rest') => (decode? rest').map (v :: ·)
termination_by cs.length
decreasing_by exact take?_shorter _taken

end KeySubst.Vlq

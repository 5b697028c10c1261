namespace KeySubst.Text

def hexValue? (c : Char) : Option Nat :=
  if c.isDigit then some (c.toNat - '0'.toNat)
  else if 'a' ≤ c ∧ c ≤ 'f' then some (c.toNat - 'a'.toNat + 10)
  else if 'A' ≤ c ∧ c ≤ 'F' then some (c.toNat - 'A'.toNat + 10)
  else none

def hexNumber? (cs : List Char) : Option Nat :=
  cs.foldlM (fun n c => (hexValue? c).map (16 * n + ·)) 0

end KeySubst.Text

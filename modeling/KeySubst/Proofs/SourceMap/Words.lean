import KeySubst.Proofs.SourceMap.Reading
import Mathlib.Algebra.Group.Int.Defs
import Mathlib.Algebra.Group.Nat.Defs

/-!
# Numbers in machine words

The passes over a word come to an end if and only if it is not below zero, and have then written the
digits of its number.
-/

namespace KeySubst.Vlq

theorem toInt_shiftRight (word : Int64) : (word >>> 5).toInt = word.toInt / 32 := by
  have shifted : (word >>> 5).toBitVec = word.toBitVec.sshiftRight 5 := rfl
  rw [← Int64.toInt_toBitVec, shifted, BitVec.toInt_sshiftRight, Int.shiftRight_eq_div_pow]
  rfl

theorem shiftRight_eq_zero_iff {word : Int64} {n : Nat} (value : word.toInt = n) :
    word >>> 5 = 0 ↔ n < 32 := by
  rw [← Int64.toInt_inj, toInt_shiftRight, value, Int64.toInt_zero]
  omega

theorem toNat_toBitVec {word : Int64} {n : Nat} (value : word.toInt = n) :
    word.toBitVec.toNat = n := by
  rw [← Int64.toInt_toBitVec, BitVec.toInt_eq_toNat_cond] at value
  split at value
  all_goals omega

theorem toNat_and (word : Int64) : (word &&& 31).toBitVec.toNat = word.toBitVec.toNat % 32 := by
  rw [Int64.toBitVec_and, BitVec.toNat_and]
  exact Nat.and_two_pow_sub_one_eq_mod _ 5

theorem toNat_or {digit : Int64} (small : digit.toBitVec.toNat < 32) :
    (digit ||| 32).toBitVec.toNat = digit.toBitVec.toNat + 32 := by
  have sum := Nat.two_pow_add_eq_or_of_lt (show _ < 2 ^ 5 from small) 1
  rw [Int64.toBitVec_or, BitVec.toNat_or, Nat.or_comm, Nat.add_comm]
  exact sum.symm

theorem toNat_lowDigit_lt (word : Int64) : (lowDigit word).toUInt64.toNat < 64 := by
  have low : (word &&& 31).toBitVec.toNat < 32 := by
    rw [toNat_and]
    omega
  change (lowDigit word).toBitVec.toNat < 64
  unfold lowDigit
  split
  · rw [toNat_or low]
    omega
  · omega

theorem toNat_lowDigit {word : Int64} {n : Nat} (value : word.toInt = n) :
    (lowDigit word).toUInt64.toNat = if n < 32 then n else n % 32 + 32 := by
  have low : (word &&& 31).toBitVec.toNat = n % 32 := by
    rw [toNat_and, toNat_toBitVec value]
  have more : word >>> 5 > 0 ↔ 32 ≤ n := by
    rw [gt_iff_lt, Int64.lt_iff_toInt_lt, toInt_shiftRight, value, Int64.toInt_zero]
    omega
  change (lowDigit word).toBitVec.toNat = _
  unfold lowDigit
  by_cases small : n < 32
  · have last : ¬word >>> 5 > 0 := fun rest => Nat.not_le.2 small (more.1 rest)
    rw [if_neg last, if_pos small, low, Nat.mod_eq_of_lt small]
  · have rest : word >>> 5 > 0 := more.2 (Nat.le_of_not_lt small)
    rw [if_pos rest, if_neg small, toNat_or (by omega), low]

theorem Pass.run_eq (word : Int64) (out : String) :
    run ⟨word, out⟩ =
      if word >>> 5 = 0 then some (out.push (digitChar (lowDigit word).toUInt64.toNat))
      else run ⟨word >>> 5, out.push (digitChar (lowDigit word).toUInt64.toNat)⟩ := by
  have pass := run.eq_def ⟨word, out⟩
  rw [getElem?_digitChar (toNat_lowDigit_lt word)] at pass
  exact pass

theorem push_append_ofList (out : String) (c : Char) (cs : List Char) :
    out.push c ++ String.ofList cs = out ++ String.ofList (c :: cs) := by
  rw [← String.toList_inj]
  simp

theorem Pass.run_eq_some {word : Int64} {n : Nat} (value : word.toInt = n) (out : String) :
    run ⟨word, out⟩ = some (out ++ String.ofList ((digits n).map digitChar)) := by
  -- Each pass leaves a smaller number in the word.
  induction n using digits.induct generalizing word out with
  | case1 n small =>
    rw [run_eq, if_pos ((shiftRight_eq_zero_iff value).2 small), toNat_lowDigit value, digits,
      if_pos small, if_pos small, List.map_singleton, ← push_append_ofList]
    simp
  | case2 n big ih =>
    have more : ¬word >>> 5 = 0 := fun zero => big ((shiftRight_eq_zero_iff value).1 zero)
    have rest : (word >>> 5).toInt = (n / 32 : Nat) := by
      rw [toInt_shiftRight, value]
      rfl
    rw [run_eq, if_neg more, toNat_lowDigit value, digits, if_neg big, if_neg big,
      ih rest, push_append_ofList]
    rfl

theorem Pass.nonneg_of_run {pass : Pass} {text : String} (written : pass.run = some text) :
    0 ≤ pass.word.toInt := by
  apply run.partial_correctness (fun pass _ => 0 ≤ pass.word.toInt) ?_ pass text written
  intro run later pass text ends
  split at ends
  · cases ends
  · split at ends
    · rename_i zero
      have left := toInt_shiftRight pass.word
      rw [zero, Int64.toInt_zero] at left
      omega
    · have left := later _ _ ends
      rw [toInt_shiftRight] at left
      omega

theorem Pass.run_eq_none_iff {word : Int64} {out : String} :
    run ⟨word, out⟩ = none ↔ word.toInt < 0 := by
  constructor
  · intro endless
    apply Int.not_le.1
    intro nonneg
    obtain ⟨n, value⟩ := Int.eq_ofNat_of_zero_le nonneg
    rw [run_eq_some value] at endless
    cases endless
  · intro negative
    apply Option.eq_none_iff_forall_ne_some.2
    intro text written
    exact Int.not_le.2 negative (nonneg_of_run written)

theorem toInt_ofInt {v : Int} (small : v.natAbs < 2 ^ 63) : (Int64.ofInt v).toInt = v := by
  rw [Int64.toInt_ofInt]
  apply Int.bmod_eq_of_le
  all_goals
    rw [show Int64.size = 2 ^ 64 from rfl]
    omega

theorem toNat_shiftLeft {word : Int64} {n : Nat} (value : word.toInt = n) (small : n < 2 ^ 63) :
    (word <<< 1).toBitVec.toNat = 2 * n := by
  have shifted : (word <<< 1).toBitVec = word.toBitVec <<< 1 := rfl
  rw [shifted, BitVec.toNat_shiftLeft, toNat_toBitVec value, Nat.shiftLeft_eq]
  omega

theorem toNat_zigzagWord {v : Int} (small : v.natAbs < 2 ^ 63) :
    (zigzagWord (.ofInt v)).toBitVec.toNat = zigzag v := by
  have below : Int64.ofInt v < 0 ↔ v < 0 := by
    rw [Int64.lt_iff_toInt_lt, toInt_ofInt small, Int64.toInt_zero]
  unfold zigzagWord zigzag
  by_cases negative : v < 0
  · have size : (-Int64.ofInt v).toInt = v.natAbs := by
      rw [Int64.toInt_neg, toInt_ofInt small, Int.bmod_eq_of_le (by omega) (by omega)]
      omega
    have sum := Nat.two_pow_add_eq_or_of_lt (show 1 < 2 ^ 1 by decide) v.natAbs
    rw [if_pos (below.2 negative), if_pos negative, Int64.toBitVec_or, BitVec.toNat_or,
      toNat_shiftLeft size small]
    exact sum.symm
  · have size : (Int64.ofInt v).toInt = v.natAbs := by
      rw [toInt_ofInt small]
      omega
    rw [if_neg (mt below.1 negative), if_neg negative, toNat_shiftLeft size small]

theorem toInt_zigzagWord {v : Int} (small : v.natAbs < 2 ^ 62) :
    (zigzagWord (.ofInt v)).toInt = zigzag v := by
  have bits := toNat_zigzagWord (v := v) (by omega)
  have room : zigzag v < 2 ^ 63 := by
    unfold zigzag
    split
    all_goals omega
  rw [← Int64.toInt_toBitVec, BitVec.toInt_eq_toNat_of_lt (by omega), bits]

theorem toInt_zigzagWord_neg {v : Int} (small : v.natAbs < 2 ^ 63) (large : 2 ^ 62 ≤ v.natAbs) :
    (zigzagWord (.ofInt v)).toInt < 0 := by
  have bits := toNat_zigzagWord small
  have full : 2 ^ 63 ≤ zigzag v := by
    unfold zigzag
    split
    all_goals omega
  rw [← Int64.toInt_toBitVec, BitVec.toInt_eq_toNat_cond, if_neg (by omega)]
  omega

theorem append_eq_some {v : Int} (small : v.natAbs < 2 ^ 62) (out : String) :
    append (.ofInt v) out = some (out ++ String.ofList (encode v)) :=
  Pass.run_eq_some (toInt_zigzagWord small) out

theorem append_eq_none_iff {v : Int} (small : v.natAbs < 2 ^ 63) {out : String} :
    append (.ofInt v) out = none ↔ 2 ^ 62 ≤ v.natAbs := by
  rw [append, Pass.run_eq_none_iff]
  constructor
  · intro negative
    apply Nat.le_of_not_lt
    intro room
    rw [toInt_zigzagWord room] at negative
    omega
  · exact toInt_zigzagWord_neg small

theorem appendAll_eq_some {vs : List Int} (small : ∀ v ∈ vs, v.natAbs < 2 ^ 62) (out : String) :
    vs.foldlM (fun out v => append (.ofInt v) out) out =
      some (out ++ String.ofList (vs.flatMap encode)) := by
  induction vs generalizing out with
  | nil => simp
  | cons v vs ih =>
    have later := ih (fun w member => small w (.tail _ member)) (out ++ String.ofList (encode v))
    rw [List.foldlM_cons, append_eq_some (small v List.mem_cons_self), List.flatMap_cons]
    refine later.trans (congrArg some ?_)
    rw [← String.toList_inj]
    simp

/-- A character of the alphabet in its upper half, which says that more digits follow. -/
def Continues (c : Char) : Prop := ∃ d, alphabet[d]? = some c ∧ 32 ≤ d

/-- In the lower half, where a number ends. -/
def Ends (c : Char) : Prop := ∃ d, alphabet[d]? = some c ∧ d < 32

theorem digits_split (n : Nat) :
    ∃ front last, (digits n).map digitChar = front ++ [last] ∧ (∀ c ∈ front, Continues c) ∧
      Ends last := by
  induction n using digits.induct with
  | case1 n small =>
    have ends : Ends (digitChar n) := ⟨n, getElem?_digitChar (by omega), small⟩
    rw [digits, if_pos small]
    exact ⟨[], digitChar n, rfl, by simp, ends⟩
  | case2 n big ih =>
    obtain ⟨front, last, same, continues, ends⟩ := ih
    have first : Continues (digitChar (n % 32 + 32)) :=
      ⟨_, getElem?_digitChar (by omega), Nat.le_add_left _ _⟩
    rw [digits, if_neg big, List.map_cons, same]
    exact ⟨_ :: front, last, rfl, List.forall_mem_cons.2 ⟨first, continues⟩, ends⟩

theorem encode_prefix {v w : Int} (starts : encode v <+: encode w) : v = w := by
  obtain ⟨rest, same⟩ := starts
  have left := take?_encode v rest
  have right := take?_encode w []
  rw [same] at left
  rw [List.append_nil, left] at right
  exact (Prod.mk.inj (Option.some.inj right)).1

/-- What appending an integer adds to a text: digits of which only the last says that no more follow,
and which are read as that integer. -/
structure Spells (digits : List Char) (v : Int) : Prop where
  appends : ∀ out, append (.ofInt v) out = some (out ++ String.ofList digits)
  marked : ∃ front last, digits = front ++ [last] ∧ (∀ c ∈ front, Continues c) ∧ Ends last
  read : decode? digits = some [v]

/-- Integers of less than 2 ^ 62 in size are appended to a text one after the other, each as digits
that spell it. The digits of all of them are read as the integers again, and those of one never
start those of another. -/
theorem append_spells (vs : List Int) (small : ∀ v ∈ vs, v.natAbs < 2 ^ 62) :
    (∀ v ∈ vs, Spells (encode v) v) ∧
      (∀ out, vs.foldlM (fun out v => append (.ofInt v) out) out =
        some (out ++ String.ofList (vs.flatMap encode))) ∧
      decode? (vs.flatMap encode) = some vs ∧
      ∀ v ∈ vs, ∀ w ∈ vs, encode v <+: encode w → v = w := by
  refine ⟨fun v member => ?_, appendAll_eq_some small, decode?_flatMap_encode vs, ?_⟩
  · have alone := decode?_flatMap_encode [v]
    rw [List.flatMap_singleton] at alone
    exact ⟨append_eq_some (small v member), digits_split (zigzag v), alone⟩
  · intro v _ w _ starts
    exact encode_prefix starts

theorem append_spells_largest :
    (∀ v ∈ [(-123 : Int), 2 ^ 62 - 1], v.natAbs < 2 ^ 62) ∧ append (-123) "A" = some "A3H" ∧
      decode? (encode (-123) ++ encode (2 ^ 62 - 1)) = some [-123, 2 ^ 62 - 1] ∧
      append (.ofInt (2 ^ 62)) "A" = none := by
  have small : ∀ v ∈ [(-123 : Int), 2 ^ 62 - 1], v.natAbs < 2 ^ 62 := by decide
  have digits : encode (-123) = ['3', 'H'] := by
    rw [encode, show zigzag (-123) = 247 from rfl, digits, digits]
    decide
  obtain ⟨spelled, -, read, -⟩ := append_spells [-123, 2 ^ 62 - 1] small
  have appended := (spelled (-123) List.mem_cons_self).appends "A"
  rw [digits] at appended
  have room : (2 ^ 62 : Int).natAbs < 2 ^ 63 := by decide
  have large : 2 ^ 62 ≤ (2 ^ 62 : Int).natAbs := by decide
  rw [List.flatMap_cons, List.flatMap_singleton] at read
  exact ⟨small, appended, read, (append_eq_none_iff room).2 large⟩

end KeySubst.Vlq

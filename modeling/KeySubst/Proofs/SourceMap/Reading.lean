import KeySubst.SourceMap.Mappings

/-!
# Reading what was written

Each layer is read back as it was written. `decode?_encode` asks for one line at least, since no
text at all still counts as one.
-/

namespace KeySubst

namespace Vlq

theorem length_alphabet : alphabet.length = 64 := by decide

theorem getElem?_digitChar {d : Nat} (small : d < 64) : alphabet[d]? = some (digitChar d) := by
  have stored := List.getElem?_eq_getElem (show d < alphabet.length by rwa [length_alphabet])
  rw [digitChar, stored, Option.getD_some]

theorem digitValue?_digitChar {n : Nat} (small : n < 64) : digitValue? (digitChar n) = some n := by
  revert n
  decide +kernel

theorem digits_lt (n : Nat) : ∀ d ∈ digits n, d < 64 := by
  induction n using digits.induct with
  | case1 n small =>
    rw [digits, if_pos small]
    simp
    omega
  | case2 n big ih =>
    rw [digits, if_neg big]
    simp only [List.mem_cons, forall_eq_or_imp]
    exact ⟨by omega, ih⟩

theorem digits_ne_nil (n : Nat) : digits n ≠ [] := by
  rw [digits]
  split <;> simp

theorem takeNat?_digits (n : Nat) (rest : List Char) :
    takeNat? ((digits n).map digitChar ++ rest) = some (n, rest) := by
  induction n using digits.induct with
  | case1 n small =>
    rw [digits, if_pos small]
    simp only [List.map_cons, List.map_nil, List.cons_append, List.nil_append, takeNat?,
      digitValue?_digitChar (show n < 64 by omega), if_pos small]
  | case2 n big ih =>
    have value := digitValue?_digitChar (show n % 32 + 32 < 64 by omega)
    rw [digits, if_neg big]
    simp only [List.map_cons, List.cons_append, takeNat?, value, ih, Option.map_some,
      if_neg (show ¬n % 32 + 32 < 32 by omega), Option.some.injEq, Prod.mk.injEq, and_true]
    omega

theorem unzigzag_zigzag (v : Int) : unzigzag (zigzag v) = v := by
  unfold unzigzag zigzag
  repeat' split
  all_goals omega

theorem take?_encode (v : Int) (rest : List Char) : take? (encode v ++ rest) = some (v, rest) := by
  simp only [take?, encode, takeNat?_digits, Option.map_some, unzigzag_zigzag]

theorem encode_ne_nil (v : Int) : encode v ≠ [] := by
  simp [encode, digits_ne_nil]

theorem mem_alphabet_of_mem_encode {v : Int} {c : Char} (member : c ∈ encode v) : c ∈ alphabet := by
  obtain ⟨d, isDigit, rfl⟩ := List.mem_map.1 member
  exact List.mem_of_getElem? (getElem?_digitChar (digits_lt _ d isDigit))

theorem decode?_of_take? {cs rest : List Char} {v : Int} (taken : take? cs = some (v, rest)) :
    decode? cs = (decode? rest).map (v :: ·) := by
  cases cs with
  | nil => cases taken
  | cons c cs =>
    rw [decode?]
    split
    · rename_i failed
      rw [taken] at failed
      cases failed
    · rename_i same
      rw [taken] at same
      obtain ⟨rfl, rfl⟩ := Prod.mk.inj (Option.some.inj same)
      rfl

theorem decode?_flatMap_encode (vs : List Int) : decode? (vs.flatMap encode) = some vs := by
  induction vs with
  | nil => rw [List.flatMap_nil, decode?]
  | cons v vs ih => rw [List.flatMap_cons, decode?_of_take? (take?_encode v _), ih, Option.map_some]

end Vlq

namespace Mapping

theorem ofDifferences?_differences (before m : Mapping) :
    ofDifferences? before (differences before m) = some m := by
  have sum : ∀ a b : Nat, (a : Int) + (b - a) = b := by omega
  simp only [ofDifferences?, differences, sum]
  simp

def written (before m : Mapping) : List Char := (differences before m).flatMap Vlq.encode

theorem written_ne_nil (before m : Mapping) : written before m ≠ [] := by
  simp [written, differences, Vlq.encode_ne_nil]

theorem mem_alphabet_of_mem_written {before m : Mapping} {c : Char}
    (member : c ∈ written before m) : c ∈ Vlq.alphabet := by
  obtain ⟨v, -, member⟩ := List.mem_flatMap.1 member
  exact Vlq.mem_alphabet_of_mem_encode member

end Mapping

namespace Mappings

theorem splitAt_eq_splitOn (mark : Char) (cs : List Char) : splitAt mark cs = cs.splitOn mark := by
  induction cs with
  | nil => rfl
  | cons c cs ih =>
    rw [splitAt, ih, List.splitOn_cons_eq_if_modifyHead]
    cases parts : cs.splitOn mark with
    | nil => exact absurd parts (List.splitOn_ne_nil mark cs)
    | cons part parts => simp

theorem decodeSegments?_written (before : Mapping) (line : List Mapping) :
    decodeSegments? before (List.zipWith Mapping.written (before :: line) line) = some line := by
  induction line generalizing before with
  | nil => rfl
  | cons m line ih =>
    rw [List.zipWith_cons_cons, decodeSegments?, Mapping.written, Vlq.decode?_flatMap_encode]
    simp [Mapping.ofDifferences?_differences, ih]

theorem mem_alphabet_of_mem_line {before : Mapping} {line : List Mapping} {c : Char}
    (member : c ∈ [','].intercalate (List.zipWith Mapping.written (before :: line) line)) :
    c = ',' ∨ c ∈ Vlq.alphabet := by
  induction line generalizing before with
  | nil => cases member
  | cons m line ih =>
    rw [List.zipWith_cons_cons] at member
    cases line with
    | nil =>
      rw [List.zipWith_nil_right, List.intercalate_singleton] at member
      exact .inr (Mapping.mem_alphabet_of_mem_written member)
    | cons next line =>
      rw [List.intercalate_cons_of_ne_nil (by simp), List.mem_append, List.mem_append,
        List.mem_singleton] at member
      rcases member with (member | comma) | member
      · exact .inr (Mapping.mem_alphabet_of_mem_written member)
      · exact .inl comma
      · exact ih member

theorem comma_not_mem_written {before : Mapping} {line : List Mapping} :
    ∀ segment ∈ List.zipWith Mapping.written (before :: line) line, ',' ∉ segment := by
  intro segment member comma
  rw [← List.map_uncurry_zip_eq_zipWith] at member
  obtain ⟨pair, -, rfl⟩ := List.mem_map.1 member
  exact absurd (Mapping.mem_alphabet_of_mem_written comma) (by decide)

theorem encodeLine_ne_nil (before m : Mapping) (line : List Mapping) :
    encodeLine before (m :: line) ≠ [] := by
  intro empty
  rw [encodeLine, List.zipWith_cons_cons] at empty
  cases line with
  | nil =>
    rw [List.zipWith_nil_right, List.intercalate_singleton] at empty
    exact Mapping.written_ne_nil before.atLineStart m empty
  | cons next line =>
    rw [List.intercalate_cons_of_ne_nil (by simp)] at empty
    simp at empty

theorem decodeLine?_encodeLine (before : Mapping) (line : List Mapping) :
    decodeLine? before (encodeLine before line) = some line := by
  cases line with
  | nil => rfl
  | cons m line =>
    have parts : splitAt ',' (encodeLine before (m :: line)) =
        List.zipWith Mapping.written (before.atLineStart :: m :: line) (m :: line) := by
      rw [splitAt_eq_splitOn]
      exact List.splitOn_intercalate ',' comma_not_mem_written (by simp)
    rw [decodeLine?, if_neg (by simp [encodeLine_ne_nil]), parts, decodeSegments?_written]

theorem semicolon_not_mem_encodeLine (before : Mapping) (line : List Mapping) :
    ';' ∉ encodeLine before line := by
  intro member
  rcases mem_alphabet_of_mem_line member with comma | member
  · exact absurd comma (by decide)
  · exact absurd member (by decide)

theorem decodeLines?_encodeLines (before : Mapping) {m : Mappings} (nonempty : m ≠ []) :
    decodeLines? before (splitAt ';' (encodeLines before m)) = some m := by
  induction m generalizing before with
  | nil => exact absurd rfl nonempty
  | cons line lines ih =>
    have free := semicolon_not_mem_encodeLine before line
    rw [splitAt_eq_splitOn]
    cases lines with
    | nil =>
      rw [encodeLines, List.splitOn_eq_singleton free]
      simp [decodeLines?, decodeLine?_encodeLine]
    | cons next lines =>
      rw [encodeLines, List.splitOn_append_cons_self_of_not_mem free, ← splitAt_eq_splitOn]
      · simp [decodeLines?, decodeLine?_encodeLine, ih]
      · simp

theorem decode?_encode {m : Mappings} (nonempty : m ≠ []) : decode? m.encode = some m := by
  rw [decode?, encode, String.toList_ofList, decodeLines?_encodeLines _ nonempty]

end Mappings

end KeySubst

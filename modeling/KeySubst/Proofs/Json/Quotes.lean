import KeySubst.Proofs.Json.Written
import Mathlib.Data.List.DropRight

/-!
# JSON strings that cannot be left

`Quotes` is what whoever puts a text between quotes wants of it.
-/

namespace KeySubst.Json

def backslashes (cs : List Char) : Nat := (cs.rtakeWhile (· = '\\')).length

structure Quotes (text string : String) : Prop where
  read : (parse? text).bind Value.asString? = some string
  visible : ∀ c ∈ text.toList, 0x20 ≤ c.toNat
  /-- The first and the last character are quotes. One between them comes behind an odd number of
  backslashes, so that it is escaped. -/
  closed : ∃ body, text.toList = '"' :: body ++ ['"'] ∧
    ∀ front back, body = front ++ '"' :: back → backslashes front % 2 = 1

theorem backslashes_concat (cs : List Char) : backslashes (cs ++ ['\\']) = backslashes cs + 1 := by
  rw [backslashes, List.rtakeWhile_concat_pos _ _ _ (by decide), List.length_append]
  rfl

theorem backslashes_concat_of_ne (cs : List Char) {c : Char} (other : c ≠ '\\') :
    backslashes (cs ++ [c]) = 0 := by
  rw [backslashes, List.rtakeWhile_concat_neg _ _ _ (by simpa using other)]
  rfl

theorem hexDigit_visible (n : Nat) :
    0x20 ≤ (hexDigit n).toNat ∧ hexDigit n ≠ '"' ∧ hexDigit n ≠ '\\' := by
  have all : ∀ m : Fin 16, 0x20 ≤ (Nat.digitChar m).toNat ∧ Nat.digitChar m ≠ '"' ∧
      Nat.digitChar m ≠ '\\' := by decide
  exact all ⟨n % 16, Nat.mod_lt _ (by decide)⟩

theorem encodeChar_visible (c : Char) : ∀ d ∈ encodeChar c, 0x20 ≤ d.toNat := by
  obtain ⟨first, -⟩ := hexDigit_visible (c.toNat / 16)
  obtain ⟨second, -⟩ := hexDigit_visible c.toNat
  rcases encodeChar_eq c with ⟨-, form⟩ | ⟨-, form⟩ | ⟨d, named, form⟩ | form |
    ⟨visible, -, -, form⟩
  all_goals
    rw [form]
    simp only [List.forall_mem_cons]
  · exact ⟨by decide, by decide, nofun⟩
  · exact ⟨by decide, by decide, nofun⟩
  · rcases named with rfl | rfl | rfl | rfl | rfl
    all_goals exact ⟨by decide, by decide, nofun⟩
  · exact ⟨by decide, by decide, by decide, by decide, first, second, nofun⟩
  · exact ⟨visible, nofun⟩

theorem encodeChar_cases (c : Char) :
    (c = '"' ∧ encodeChar c = ['\\', '"']) ∨ (c = '\\' ∧ encodeChar c = ['\\', '\\']) ∨
      ((∀ d ∈ encodeChar c, d ≠ '"') ∧ ∃ front last, encodeChar c = front ++ [last] ∧
        last ≠ '\\') := by
  refine (encodeChar_eq c).imp_right (Or.imp_right ?_)
  intro forms
  obtain ⟨-, first, -⟩ := hexDigit_visible (c.toNat / 16)
  obtain ⟨-, second, noBackslash⟩ := hexDigit_visible c.toNat
  rcases forms with ⟨d, named, form⟩ | form | ⟨-, noQuote, noBackslash, form⟩
  all_goals
    rw [form]
    simp only [List.forall_mem_cons]
  · rcases named with rfl | rfl | rfl | rfl | rfl
    all_goals exact ⟨⟨by decide, by decide, nofun⟩, ['\\'], _, rfl, by decide⟩
  · exact ⟨⟨by decide, by decide, by decide, by decide, first, second, nofun⟩,
      ['\\', 'u', '0', '0', hexDigit (c.toNat / 16)], _, rfl, noBackslash⟩
  · exact ⟨⟨noQuote, nofun⟩, [], c, rfl, noBackslash⟩

theorem encode_concat (s : List Char) (c : Char) : encode (s ++ [c]) = encode s ++ encodeChar c := by
  rw [encode, encode, List.flatMap_append, List.flatMap_singleton]

theorem backslashes_encode (s : List Char) : backslashes (encode s) % 2 = 0 := by
  induction s using List.reverseRecOn with
  | nil => rfl
  | append_singleton s c ih =>
    rw [encode_concat]
    rcases encodeChar_cases c with ⟨-, escape⟩ | ⟨-, escape⟩ | ⟨-, front, last, escape, other⟩
    · have split : encode s ++ ['\\', '"'] = encode s ++ ['\\'] ++ ['"'] :=
        List.append_cons (encode s) '\\' ['"']
      rw [escape, split, backslashes_concat_of_ne _ (by decide)]
    · have split : encode s ++ ['\\', '\\'] = encode s ++ ['\\'] ++ ['\\'] :=
        List.append_cons (encode s) '\\' ['\\']
      rw [escape, split, backslashes_concat, backslashes_concat]
      omega
    · rw [escape, ← List.append_assoc, backslashes_concat_of_ne _ other]

theorem exists_of_encode_eq {s front back : List Char} (split : encode s = front ++ '"' :: back) :
    ∃ before, front = encode before ++ ['\\'] := by
  induction s generalizing front with
  | nil => simp [encode] at split
  | cons c s ih =>
    rw [encode, List.flatMap_cons, ← encode] at split
    -- The quote stands behind the form of the first character or in it.
    rcases List.append_eq_append_iff.1 split with ⟨more, rfl, rest⟩ | ⟨more, escape, rest⟩
    · obtain ⟨before, rfl⟩ := ih rest
      refine ⟨c :: before, ?_⟩
      rw [encode, encode, List.flatMap_cons, List.append_assoc]
    · cases more with
      | nil =>
        obtain ⟨before, last⟩ := ih (show encode s = [] ++ '"' :: back from rest.symm)
        simp at last
      | cons d more =>
        obtain ⟨rfl, -⟩ := List.cons.inj rest
        have holds : '"' ∈ encodeChar c := by
          rw [escape]
          simp
        rcases encodeChar_cases c with ⟨-, same⟩ | ⟨-, same⟩ | ⟨absent, -⟩
        · rw [same] at escape
          cases front with
          | nil => cases escape
          | cons e front =>
            obtain ⟨rfl, escape⟩ := List.cons.inj escape
            cases front with
            | nil => exact ⟨[], rfl⟩
            | cons e front => simp at escape
        · rw [same] at holds
          simp at holds
        · exact absurd rfl (absent _ holds)

theorem parse?_quote (s : String) : parse? (quote s) = some (.string (encode s.toList)) := by
  have legible : Legible [.string (encode s.toList)] := .plain (.string s.toList) .nil
  have written := parse?_written legible (Writes.string (encode s.toList))
  rwa [List.flatMap_singleton] at written

theorem quotes_quote (s : String) : Quotes (quote s) s where
  read := by
    rw [parse?_quote, Option.bind_some, Value.asString?, decode?_encode, Option.map_some,
      String.ofList_toList]
  visible := by
    intro c member
    rw [quote, String.toList_ofList, List.mem_append, List.mem_cons, List.mem_singleton] at member
    rcases member with (rfl | inner) | rfl
    · decide
    · obtain ⟨d, -, escape⟩ := List.mem_flatMap.1 inner
      exact encodeChar_visible d c escape
    · decide
  closed := by
    refine ⟨encode s.toList, by rw [quote, String.toList_ofList], fun front back split => ?_⟩
    obtain ⟨before, rfl⟩ := exists_of_encode_eq split
    have even := backslashes_encode before
    rw [backslashes_concat]
    omega

theorem Quotes.string_eq {text s t : String} (left : Quotes text s) (right : Quotes text t) :
    s = t :=
  Option.some.inj (left.read.symm.trans right.read)

theorem quote_injective : Function.Injective quote := by
  intro s t same
  have left := quotes_quote s
  rw [same] at left
  exact left.string_eq (quotes_quote t)

end KeySubst.Json

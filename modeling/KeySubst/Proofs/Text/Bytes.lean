import KeySubst.Text.CharClass
import KeySubst.Text.Size

/-!
# Bytes of a text

Texts are walked by characters and measured in bytes.
-/

namespace KeySubst.Text

def bytes (s : String) : List UInt8 := s.toUTF8.data.toList

theorem bytes_eq_flatMap (s : String) : bytes s = s.toList.flatMap String.utf8EncodeChar := by
  rw [bytes, String.toUTF8_eq_toByteArray, ← String.utf8Encode_toList, List.utf8Encode,
    List.toList_data_toByteArray]

@[simp] theorem length_bytes (s : String) : (bytes s).length = s.utf8ByteSize := rfl

@[simp] theorem bytes_append (s t : String) : bytes (s ++ t) = bytes s ++ bytes t := by
  rw [bytes_eq_flatMap, String.toList_append, List.flatMap_append, ← bytes_eq_flatMap,
    ← bytes_eq_flatMap]

theorem bytes_injective {s t : String} (same : bytes s = bytes t) : s = t :=
  String.toByteArray_inj.1 (ByteArray.ext (Array.toList_inj.1 same))

theorem byteSize_eq_length (cs : List Char) :
    byteSize cs = (cs.flatMap String.utf8EncodeChar).length := by
  induction cs with
  | nil => rfl
  | cons c cs ih =>
    rw [byteSize_cons, ih, List.flatMap_cons, List.length_append, String.length_utf8EncodeChar]

@[simp] theorem byteSize_toList (s : String) : byteSize s.toList = s.utf8ByteSize := by
  rw [byteSize_eq_length, ← bytes_eq_flatMap, length_bytes]

@[simp] theorem utf8ByteSize_ofList (cs : List Char) :
    (String.ofList cs).utf8ByteSize = byteSize cs := by
  rw [← byteSize_toList, String.toList_ofList]

theorem byteSize_eq_zero_iff {cs : List Char} : byteSize cs = 0 ↔ cs = [] := by
  cases cs with
  | nil => simp
  | cons c cs =>
    have := byteSize_pos (List.cons_ne_nil c cs)
    simp only [reduceCtorEq, iff_false]
    omega

theorem eq_of_append_eq_append {a b c d : List Char} (same : a ++ b = c ++ d)
    (size : byteSize a = byteSize c) : a = c ∧ b = d := by
  have left := splitBytes?_append a b
  rw [same, size, splitBytes?_append] at left
  simp only [Option.some.injEq, Prod.mk.injEq] at left
  exact ⟨left.1.symm, left.2.symm⟩

theorem prefix_of_append_eq_append {a b c d : List Char} (same : a ++ b = c ++ d)
    (size : byteSize a ≤ byteSize c) : ∃ e, c = a ++ e ∧ b = e ++ d := by
  rcases List.append_eq_append_iff.1 same with ⟨e, rfl, rfl⟩ | ⟨e, rfl, rfl⟩
  · exact ⟨e, rfl, rfl⟩
  · rw [byteSize_append] at size
    obtain rfl := byteSize_eq_zero_iff.1 (show byteSize e = 0 by omega)
    exact ⟨[], by simp⟩

def isWordByte (b : UInt8) : Bool :=
  (0x30 ≤ b && b ≤ 0x39) || (0x41 ≤ b && b ≤ 0x5A) || b = 0x5F || (0x61 ≤ b && b ≤ 0x7A)

/-- Whether exactly one of the two bytes next to an offset is a word byte. -/
def isByteEdge (s : String) (offset : Nat) : Bool :=
  (0 < offset && (bytes s)[offset - 1]?.any isWordByte) != (bytes s)[offset]?.any isWordByte

theorem isWordByte_ofNat {n : Nat} (small : n < 256) : isWordByte (UInt8.ofNat n) =
    ((0x30 ≤ n && n ≤ 0x39) || (0x41 ≤ n && n ≤ 0x5A) || n = 0x5F || (0x61 ≤ n && n ≤ 0x7A)) := by
  simp only [isWordByte, UInt8.le_iff_toNat_le, ← UInt8.toNat_inj, UInt8.toNat_ofNat_of_lt' small]
  rfl

theorem isWordChar_eq (c : Char) : isWordChar c =
    ((0x30 ≤ c.toNat && c.toNat ≤ 0x39) || (0x41 ≤ c.toNat && c.toNat ≤ 0x5A) || c.toNat = 0x5F ||
      (0x61 ≤ c.toNat && c.toNat ≤ 0x7A)) := by
  have underscore : c = '_' ↔ c.toNat = 0x5F := by
    rw [← Char.toNat_inj]; rfl
  have upper : c.isUpper = decide (0x41 ≤ c.val ∧ c.val ≤ 0x5A) := rfl
  have lower : c.isLower = (decide (0x61 ≤ c.val) && decide (c.val ≤ 0x7A)) := rfl
  have digit : c.isDigit = (decide (0x30 ≤ c.val) && decide (c.val ≤ 0x39)) := rfl
  have word : isWordChar c = (c.isUpper || c.isLower || c.isDigit || decide (c = '_')) := rfl
  rw [Bool.eq_iff_iff, word, upper, lower, digit]
  simp only [UInt32.le_iff_toNat_le, underscore, Bool.or_eq_true, Bool.and_eq_true,
    decide_eq_true_eq, Char.toNat]
  simp
  omega

theorem encodeChar_word (c : Char) :
    (isWordChar c = true ∧ ∃ b, String.utf8EncodeChar c = [b] ∧ isWordByte b = true) ∨
      (isWordChar c = false ∧ ∀ b ∈ String.utf8EncodeChar c, isWordByte b = false) := by
  have ascii := isWordChar_eq c
  rw [Char.toNat] at ascii
  rw [String.utf8EncodeChar]
  generalize c.val.toNat = n at ascii
  by_cases small : n ≤ 0x7f
  · rw [← isWordByte_ofNat (by omega)] at ascii
    rw [if_pos small]
    cases word : isWordByte (UInt8.ofNat n) with
    | true => exact .inl ⟨ascii.trans word, _, rfl, word⟩
    | false => exact .inr ⟨ascii.trans word, by simpa using word⟩
  · have above : ∀ m, 128 ≤ m → m < 256 → isWordByte (UInt8.ofNat m) = false := by
      intro m low high
      rw [isWordByte_ofNat high]
      simp
      omega
    refine .inr ⟨by rw [ascii]; simp; omega, ?_⟩
    rw [if_neg small]
    repeat' split
    all_goals
      simp only [List.mem_cons, List.not_mem_nil, or_false, forall_eq_or_imp, forall_eq]
      and_intros <;> exact above _ (by omega) (by omega)

theorem head_word (cs : List Char) :
    (cs.flatMap String.utf8EncodeChar).head?.any isWordByte = cs.head?.any isWordChar := by
  cases cs with
  | nil => rfl
  | cons c cs =>
    rw [List.flatMap_cons, List.head?_cons, Option.any_some]
    rcases encodeChar_word c with ⟨word, b, one, isWord⟩ | ⟨word, others⟩
    · rw [one, word, List.singleton_append, List.head?_cons, Option.any_some, isWord]
    · obtain ⟨b, bs, bytes⟩ := List.exists_cons_of_ne_nil (String.utf8EncodeChar_ne_nil (c := c))
      rw [bytes, List.cons_append, List.head?_cons, Option.any_some, word]
      exact others b (by simp [bytes])

theorem getLast_word (cs : List Char) :
    (cs.flatMap String.utf8EncodeChar).getLast?.any isWordByte = cs.getLast?.any isWordChar := by
  rcases List.eq_nil_or_concat cs with rfl | ⟨cs, c, rfl⟩
  · rfl
  · rw [List.concat_eq_append, List.flatMap_append, List.flatMap_singleton, List.getLast?_concat,
      Option.any_some, List.getLast?_append]
    rcases encodeChar_word c with ⟨word, b, one, isWord⟩ | ⟨word, others⟩
    · rw [one, word, List.getLast?_singleton, Option.some_or, Option.any_some, isWord]
    · obtain ⟨b, last⟩ := Option.isSome_iff_exists.1
        (List.getLast?_isSome.2 (String.utf8EncodeChar_ne_nil (c := c)))
      rw [last, word, Option.some_or, Option.any_some]
      exact others b (List.mem_of_getLast? last)

theorem isByteEdge_ofList (before after : List Char) :
    isByteEdge (String.ofList (before ++ after)) (byteSize before) =
      isWordEdge before.getLast? after.head? := by
  rw [isByteEdge, isWordEdge, bytes_eq_flatMap, String.toList_ofList, List.flatMap_append,
    byteSize_eq_length, ← getLast_word, ← head_word]
  generalize before.flatMap String.utf8EncodeChar = a
  generalize after.flatMap String.utf8EncodeChar = b
  congr 1
  · cases a with
    | nil => rfl
    | cons x a =>
      rw [List.getElem?_append_left (by simp), List.getLast?_eq_getElem?]
      simp
  · rw [List.getElem?_append_right (Nat.le_refl _), Nat.sub_self, List.head?_eq_getElem?]

end KeySubst.Text

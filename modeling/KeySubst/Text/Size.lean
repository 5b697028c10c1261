/-!
# Sizes of text

Offsets into a text count the bytes of its UTF-8 form and columns count UTF-16 units.
-/

namespace KeySubst.Text

def byteSize (cs : List Char) : Nat := cs.foldl (fun n c => n + c.utf8Size) 0

def utf16Units (c : Char) : Nat := if c.toNat < 0x10000 then 1 else 2

def utf16Size (cs : List Char) : Nat := cs.foldl (fun n c => n + utf16Units c) 0

def splitBytes? (n : Nat) (cs : List Char) : Option (List Char × List Char) := go [] n cs
where
  go (taken : List Char) : Nat → List Char → Option (List Char × List Char)
    | 0, rest => some (taken.reverse, rest)
    | _ + 1, [] => none
    | n + 1, c :: rest =>
      if c.utf8Size ≤ n + 1 then go (c :: taken) (n + 1 - c.utf8Size) rest else none

def dropBytes? (n : Nat) (cs : List Char) : Option (List Char) := (splitBytes? n cs).map (·.2)

def unitsBefore? (n : Nat) (cs : List Char) : Option Nat := go 0 n cs
where
  go (units : Nat) : Nat → List Char → Option Nat
    | 0, _ => some units
    | _ + 1, [] => none
    | n + 1, c :: rest =>
      if c.utf8Size ≤ n + 1 then go (units + utf16Units c) (n + 1 - c.utf8Size) rest else none

private theorem foldl_add (f : Char → Nat) (cs : List Char) (n : Nat) :
    cs.foldl (fun n c => n + f c) n = n + cs.foldl (fun n c => n + f c) 0 := by
  induction cs generalizing n with
  | nil => rfl
  | cons c cs ih => rw [List.foldl_cons, List.foldl_cons, ih, ih (0 + f c)]; omega

@[simp] theorem byteSize_nil : byteSize [] = 0 := rfl

@[simp] theorem byteSize_cons (c : Char) (cs : List Char) :
    byteSize (c :: cs) = c.utf8Size + byteSize cs := by
  rw [byteSize, List.foldl_cons, foldl_add, Nat.zero_add]; rfl

@[simp] theorem byteSize_append (a b : List Char) :
    byteSize (a ++ b) = byteSize a + byteSize b := by
  induction a with
  | nil => simp
  | cons c a ih => simp [ih, Nat.add_assoc]

@[simp] theorem utf16Size_nil : utf16Size [] = 0 := rfl

@[simp] theorem utf16Size_cons (c : Char) (cs : List Char) :
    utf16Size (c :: cs) = utf16Units c + utf16Size cs := by
  rw [utf16Size, List.foldl_cons, foldl_add, Nat.zero_add]; rfl

@[simp] theorem utf16Size_append (a b : List Char) :
    utf16Size (a ++ b) = utf16Size a + utf16Size b := by
  induction a with
  | nil => simp
  | cons c a ih => simp [ih, Nat.add_assoc]

theorem byteSize_pos {cs : List Char} (nonempty : cs ≠ []) : 0 < byteSize cs := by
  cases cs with
  | nil => exact absurd rfl nonempty
  | cons c cs => rw [byteSize_cons]; have := c.utf8Size_pos; omega

private theorem splitBytes?_go (taken : List Char) (n : Nat) (cs : List Char)
    (pair : List Char × List Char) :
    splitBytes?.go taken n cs = some pair ↔
      ∃ a, pair.1 = taken.reverse ++ a ∧ cs = a ++ pair.2 ∧ byteSize a = n := by
  obtain ⟨x, y⟩ := pair
  induction cs generalizing taken n with
  | nil =>
    cases n with
    | zero =>
      simp only [splitBytes?.go, Option.some.injEq, Prod.mk.injEq]
      constructor
      · rintro ⟨rfl, rfl⟩; exact ⟨[], by simp⟩
      · rintro ⟨a, ha, hs, -⟩
        obtain ⟨rfl, rfl⟩ := List.append_eq_nil_iff.1 hs.symm
        simp [ha]
    | succ n =>
      simp only [splitBytes?.go, reduceCtorEq, false_iff]
      rintro ⟨a, -, hs, hn⟩
      obtain ⟨rfl, -⟩ := List.append_eq_nil_iff.1 hs.symm
      simp at hn
  | cons c cs ih =>
    cases n with
    | zero =>
      simp only [splitBytes?.go, Option.some.injEq, Prod.mk.injEq]
      constructor
      · rintro ⟨rfl, rfl⟩; exact ⟨[], by simp⟩
      · rintro ⟨a, ha, hs, hn⟩
        cases a with
        | nil => exact ⟨by simp [ha], by simpa using hs⟩
        | cons d a => have := d.utf8Size_pos; simp at hn; omega
    | succ n =>
      simp only [splitBytes?.go]
      split
      · rw [ih]
        constructor
        · rintro ⟨a, ha, hs, hn⟩
          exact ⟨c :: a, by simpa using ha, by simpa using hs, by simp; omega⟩
        · rintro ⟨a, ha, hs, hn⟩
          cases a with
          | nil => simp at hn
          | cons d a =>
            simp only [List.cons_append, List.cons.injEq] at hs
            obtain ⟨rfl, hs⟩ := hs
            exact ⟨a, by simpa using ha, hs, by simp at hn; omega⟩
      · simp only [reduceCtorEq, false_iff]
        rintro ⟨a, -, hs, hn⟩
        cases a with
        | nil => simp at hn
        | cons d a =>
          simp only [List.cons_append, List.cons.injEq] at hs
          obtain ⟨rfl, -⟩ := hs
          simp at hn; omega

theorem splitBytes?_eq_some_iff {n : Nat} {cs a b : List Char} :
    splitBytes? n cs = some (a, b) ↔ cs = a ++ b ∧ byteSize a = n := by
  simp only [splitBytes?, splitBytes?_go, List.reverse_nil, List.nil_append]
  constructor
  · rintro ⟨x, rfl, h⟩; exact h
  · rintro ⟨h, hn⟩; exact ⟨a, rfl, h, hn⟩

theorem splitBytes?_append (a b : List Char) : splitBytes? (byteSize a) (a ++ b) = some (a, b) :=
  splitBytes?_eq_some_iff.2 ⟨rfl, rfl⟩

private theorem unitsBefore?_go (taken : List Char) (n : Nat) (cs : List Char) :
    unitsBefore?.go (utf16Size taken.reverse) n cs =
      (splitBytes?.go taken n cs).map fun pair => utf16Size pair.1 := by
  induction cs generalizing taken n with
  | nil => cases n <;> rfl
  | cons c cs ih =>
    cases n with
    | zero => rfl
    | succ n =>
      simp only [unitsBefore?.go, splitBytes?.go]
      split
      · rw [← ih]; simp
      · rfl

theorem unitsBefore?_eq (n : Nat) (cs : List Char) :
    unitsBefore? n cs = (splitBytes? n cs).map fun pair => utf16Size pair.1 :=
  unitsBefore?_go [] n cs

theorem dropBytes?_append (a b : List Char) : dropBytes? (byteSize a) (a ++ b) = some b := by
  simp [dropBytes?, splitBytes?_append]

end KeySubst.Text

import KeySubst.Proofs.Files.Path

/-!
# Parents of parents

A parent has fewer components than its path, so the search for a configuration always comes to an
end.
-/

namespace KeySubst.Path

inductive Rises (path : String) : Nat → String → Prop
  | here : Rises path 0 path
  | up {n : Nat} {inner outer : String} (rises : Rises path n inner)
      (parent : parent? inner = some outer) : Rises path (n + 1) outer

theorem rises_zero_iff {path outer : String} : Rises path 0 outer ↔ outer = path := by
  constructor
  · rintro ⟨⟩
    rfl
  · rintro rfl
    exact .here

theorem rises_succ_iff {path outer : String} {n : Nat} :
    Rises path (n + 1) outer ↔ ∃ parent, parent? path = some parent ∧ Rises parent n outer := by
  constructor
  · intro rises
    generalize count : n + 1 = m at rises
    induction rises generalizing n with
    | here => cases count
    | @up m inner outer rises parent ih =>
      obtain rfl := Nat.succ.inj count
      cases n with
      | zero =>
        cases rises
        exact ⟨outer, parent, .here⟩
      | succ n =>
        obtain ⟨first, step, others⟩ := ih rfl
        exact ⟨first, step, others.up parent⟩
  · rintro ⟨first, step, rises⟩
    induction rises with
    | here => exact .up .here step
    | up _ parent ih => exact .up ih parent

theorem length_filterMap_component? (parts : List (List Char)) :
    (parts.filterMap component?).length ≤ (joinSlash parts).length := by
  have single : ∀ part : List Char, ([part].filterMap component?).length ≤ part.length := by
    intro part
    cases part with
    | nil => exact Nat.le_refl 0
    | cons c part => exact Nat.le_trans (List.length_filterMap_le _ _) (by simp)
  induction parts with
  | nil => exact Nat.le_refl 0
  | cons part parts ih =>
    have first := single part
    cases parts with
    | nil => simpa [joinSlash] using first
    | cons next parts =>
      rw [← List.singleton_append, List.filterMap_append, List.length_append,
        List.singleton_append, joinSlash_cons, List.length_append, List.length_cons]
      omega

theorem length_components_le (path : String) : (components path).length ≤ path.length := by
  have parts : ∀ cs, ((splitSlash cs).filterMap component?).length ≤ cs.length := by
    intro cs
    have bound := length_filterMap_component? (splitSlash cs)
    rwa [joinSlash_splitSlash] at bound
  rw [components_eq_shape, List.length_append, ← String.length_toList, shape]
  split
  · rename_i rest starts
    have := parts rest
    simp only [starts, Option.toList_some, List.length_cons, List.length_nil]
    omega
  · rename_i starts
    simp [starts]
  · rename_i rest starts
    have := parts ('/' :: rest)
    simp only [starts, Option.toList_some, List.length_cons, List.length_nil] at this ⊢
    omega
  · simpa using parts path.toList

theorem components_ne_nil_of_parent? {path parent : String} (outer : parent? path = some parent) :
    components path ≠ [] := by
  intro empty
  rw [components_eq_shape, List.append_eq_nil_iff, Option.toList_eq_nil_iff,
    List.filterMap_eq_nil_iff] at empty
  obtain ⟨nowhere, void⟩ := empty
  have solid := List.head?_dropWhile_not isVoid (shape path).parts.reverse
  rw [parent?] at outer
  cases behind : (shape path).parts.reverse.dropWhile isVoid with
  | nil => simp [behind, nowhere] at outer
  | cons last others =>
    rw [behind] at solid
    obtain ⟨c, component⟩ := exists_component?_of_not_isVoid (by simpa using solid)
    have member : last ∈ (shape path).parts :=
      List.mem_reverse.1 ((List.dropWhile_suffix isVoid).subset (behind ▸ List.mem_cons_self))
    rw [void last member] at component
    cases component

theorem length_components_of_parent? {path parent : String} (outer : parent? path = some parent) :
    (components parent).length < (components path).length := by
  have positive := List.length_pos_of_ne_nil (components_ne_nil_of_parent? outer)
  rw [components_of_parent? outer, List.length_dropLast]
  omega

theorem getElem?_go_iff {path outer : String} {n fuel : Nat}
    (enough : (components path).length < fuel) :
    (ancestors.go path fuel)[n]? = some outer ↔ Rises path n outer := by
  induction fuel generalizing path n with
  | zero => cases enough
  | succ fuel ih =>
    rw [ancestors.go]
    cases n with
    | zero => rw [List.getElem?_cons_zero, Option.some.injEq, rises_zero_iff, eq_comm]
    | succ n =>
      rw [List.getElem?_cons_succ, rises_succ_iff]
      cases up : parent? path with
      | none => simp
      | some parent =>
        have fewer := length_components_of_parent? up
        rw [Option.map_some, Option.getD_some, ih (by omega)]
        simp

theorem getElem?_ancestors_iff {path outer : String} {n : Nat} :
    (ancestors path)[n]? = some outer ↔ Rises path n outer :=
  getElem?_go_iff (Nat.lt_succ_of_le (length_components_le path))

theorem Rises.unique {path outer outer' : String} {n : Nat} (rises : Rises path n outer)
    (rises' : Rises path n outer') : outer = outer' := by
  rw [← getElem?_ancestors_iff] at rises rises'
  exact Option.some.inj (rises.symm.trans rises')

end KeySubst.Path

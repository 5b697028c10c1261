import KeySubst.Proofs.Matcher.Scan
import KeySubst.Proofs.Table.Completion

/-!
A completed table has no empty key and holds the bare accessor.
-/

namespace KeySubst

variable {σ : Type} {values table : Table σ} {environment : List (String × String)}

theorem not_exposes_nil (name value : String) : ¬Exposes [] name value := by
  rintro ⟨-, last⟩
  cases last

namespace Table

theorem nonempty_of_withEnvironment (completed : values.withEnvironment environment = .ok table) :
    ∀ key ∈ table.keys, key ≠ "" := by
  obtain ⟨nonempty, rfl⟩ := withEnvironment_eq_ok_iff.1 completed
  rintro key member rfl
  rw [keys_completed, List.mem_eraseDups] at member
  simp [nonempty] at member

theorem accessor_mem_of_withEnvironment
    (completed : values.withEnvironment environment = .ok table) : "process.env" ∈ table.keys := by
  rw [(completes_of_withEnvironment completed).keys_eq, List.mem_eraseDups]
  simp

theorem exists_withEnvironment (nonempty : "" ∉ values.keys)
    (environment : List (String × String)) :
    ∃ table, values.withEnvironment environment = .ok table :=
  ⟨_, withEnvironment_eq_ok_iff.2 ⟨nonempty, rfl⟩⟩

/-- A configured key that is too short to be an accessor keeps its own value. -/
theorem Completes.mem_of_short (completes : table.Completes values environment) {key : String}
    {value : Replacement σ} (configured : ⟨key, value⟩ ∈ values.toList)
    (short : key.utf8ByteSize < 12) : ⟨key, value⟩ ∈ table.toList := by
  rw [← get?_eq_some_iff, completes.get?_iff]
  exact .own configured (fun other _ => ne_accessorOf short other)
    fun name _ _ => ne_accessorOf short name

theorem Completes.accessorOf_mem (completes : table.Completes values environment) {key : String}
    (known : key ∈ values.keys) : "process.env." ++ key ∈ table.keys := by
  rw [completes.keys_eq, List.mem_eraseDups]
  simp [known]

end Table

namespace Matcher

variable {m : Matcher σ} {options : MatchOptions}

structure MadeWith (m : Matcher σ) (table values : Table σ) (environment : List (String × String))
    (options : MatchOptions) : Prop where
  completed : values.withEnvironment environment = .ok table
  compiled : compile table options = .ok m

theorem exists_madeWith (nonempty : "" ∉ values.keys) (environment : List (String × String))
    (options : MatchOptions) : ∃ table m, MadeWith m table values environment options := by
  obtain ⟨table, completed⟩ := Table.exists_withEnvironment nonempty environment
  obtain ⟨m, compiled⟩ := exists_compile (Table.nonempty_of_withEnvironment completed) options
  exact ⟨table, m, completed, compiled⟩

namespace MadeWith

theorem completes (made : m.MadeWith table values environment options) :
    table.Completes values environment :=
  Table.completes_of_withEnvironment made.completed

theorem madeFrom (made : m.MadeWith table values environment options) : m.MadeFrom table options :=
  madeFrom_of_compile made.compiled

theorem accessor_mem (made : m.MadeWith table values environment options) :
    "process.env" ∈ m.keys :=
  made.madeFrom.keys_perm.mem_iff.2 (Table.accessor_mem_of_withEnvironment made.completed)

theorem isEmpty_eq (made : m.MadeWith table values environment options) : m.isEmpty = false := by
  simpa [Matcher.isEmpty] using List.ne_nil_of_mem made.accessor_mem

theorem find_accessorOf (made : m.MadeWith table values environment options) (key : String)
    (known : key ∈ values.keys)
    (edges : options.delimiters = none →
      Text.isByteEdge (options.spelling ("process.env." ++ key)) 0 = true ∧
      Text.isByteEdge (options.spelling ("process.env." ++ key))
        (options.spelling ("process.env." ++ key)).utf8ByteSize = true) :
    m.find (options.spelling ("process.env." ++ key)) =
      [⟨0, (options.spelling ("process.env." ++ key)).utf8ByteSize, "process.env." ++ key⟩] :=
  find_spelling made.madeFrom (made.completes.accessorOf_mem known) (.of_spelling _ _ edges)

end MadeWith

end Matcher

end KeySubst

import KeySubst.Proofs.Options.Discovery
import KeySubst.Proofs.Options.Reading
import KeySubst.Proofs.Replacer.Making
import KeySubst.Proofs.Substitution.Locality

namespace KeySubst

variable {σ : Type}

namespace Table

def Literals (t : Table σ) : Prop := ∀ e ∈ t.toList, ∃ l, e.value = .literal l

theorem literals_empty : (∅ : Table σ).Literals := by
  rintro e ⟨⟩

theorem Literals.insertAll {t : Table σ} {pairs : List (String × Replacement σ)}
    (literals : t.Literals) (added : ∀ pair ∈ pairs, ∃ l, pair.2 = .literal l) :
    (t.insertAll pairs).Literals := by
  rintro ⟨key, value⟩ member
  rcases get?_insertAll_iff.1 (get?_eq_some_iff.2 member) with last | ⟨-, found⟩
  · exact added _ last.mem
  · exact literals _ (get?_eq_some_iff.1 found)

theorem Literals.withEnvironment {values table : Table σ} {environment : List (String × String)}
    (literals : values.Literals) (completed : values.withEnvironment environment = .ok table) :
    table.Literals := by
  rintro ⟨string, value⟩ member
  have resolves := ((completes_of_withEnvironment completed).get?_iff string value).1
    (get?_eq_some_iff.2 member)
  rcases resolves.serves with literal | ⟨key, configured, member, -, same⟩
  · exact literal
  · obtain ⟨l, rfl⟩ : ∃ l, configured = .literal l := literals _ member
    rcases same with rfl | rfl
    · exact ⟨l, rfl⟩
    · exact ⟨l.quoted, rfl⟩

end Table

namespace Options

theorem literals_of_ofToml {entries : Toml.Table} {path : String} {options : Options σ}
    (read : ofToml entries path = .ok options) : options.values.Literals := by
  rw [ofToml_eq] at read
  split at read
  · cases read
  · obtain ⟨_, -, read⟩ := Error.exists_of_bind_ok read
    obtain ⟨pairs, -, read⟩ := Error.exists_of_bind_ok read
    cases read
    refine Table.literals_empty.insertAll fun pair member => ?_
    obtain ⟨⟨_, l⟩, -, rfl⟩ := List.mem_map.1 member
    exact ⟨l, rfl⟩

theorem Loads.literals {w : Workspace} {start : String} {found : Option String}
    {loaded : LoadedOptions σ} (loads : Loads w start found (.ok loaded)) :
    loaded.options.values.Literals := by
  cases loads with
  | defaults => exact Table.literals_empty
  | taken read parsed accepts =>
    have literals := literals_of_ofToml accepts
    exact literals

end Options

namespace Replacer

variable {options : Options σ} {environment : List (String × String)} {r : Replacer σ}

theorem exists_outcome (made : make options environment = .ok r)
    (literals : options.values.Literals) (text name : String) (s : σ) :
    ∃ outcome, (r.transform text name).outcome s = (.ok outcome, s) := by
  obtain ⟨madeWith, -⟩ := parts_of_make made
  obtain ⟨texts, produced⟩ :=
    Matcher.exists_texts madeWith.madeFrom (literals.withEnvironment madeWith.completed)
  rw [transform]
  split
  · exact ⟨none, rfl⟩
  · obtain ⟨outcome, ran, -⟩ :=
      Matcher.exists_substitution madeWith.madeFrom (produced text name s) r.sourceMaps
    exact ⟨outcome, ran⟩

end Replacer

end KeySubst

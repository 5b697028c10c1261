import KeySubst.Proofs.Json.Quotes
import KeySubst.Proofs.Substitution.Sequence

namespace KeySubst

variable {σ : Type} {values table : Table σ} {environment : List (String × String)}

/-- The string behind the accessor of a name when it is called for in a state. It is the value of
the variable of that name, and only without such a variable the string that is configured or that
a configured function gives. -/
inductive Supplies (values : Table σ) (environment : List (String × String)) (context : String)
    (s : σ) (name : String) : String → Prop
  | literal {string : String} (configured : ⟨name, .literal (.string string)⟩ ∈ values.toList)
      (uncovered : ∀ v, ¬ Exposes environment name v) :
      Supplies values environment context s name string
  | function {producer : Producer σ} {string : String}
      (configured : ⟨name, .function producer⟩ ∈ values.toList)
      (uncovered : ∀ v, ¬ Exposes environment name v)
      (gives : ((producer context).run s).1 = .ok string) :
      Supplies values environment context s name string
  | exposed {value : String} (exposes : Exposes environment name value) :
      Supplies values environment context s name value

theorem Supplies.produce_eq (completes : table.Completes values environment)
    {context name string : String} {s : σ}
    (supplies : Supplies values environment context s name string) {r : Replacement σ}
    (known : table.get? ("process.env." ++ name) = some r) :
    ((r.produce context).run s).1 = .ok (Json.quote string) := by
  cases supplies with
  | literal configured uncovered =>
    have resolved := (completes.get?_iff _ _).2 (.derived configured uncovered)
    rw [known, Option.some.injEq] at resolved
    subst resolved
    rfl
  | function configured uncovered gives =>
    have resolved := (completes.get?_iff _ _).2 (.derived configured uncovered)
    rw [known, Option.some.injEq] at resolved
    subst resolved
    rw [Replacement.quoted, Replacement.produce, Producer.run_quoted, gives]
    rfl
  | exposed exposes =>
    have resolved := (completes.get?_iff _ _).2 (.exposed exposes)
    rw [known, Option.some.injEq] at resolved
    subst resolved
    rfl

namespace Matcher

variable {m : Matcher σ} {options : MatchOptions}

theorem Sequence.called {name : String} {s s' : σ} {calls : List (Call σ)}
    (made : m.Sequence name s calls s') : ∀ c ∈ calls, ∃ r,
      m.replacement? c.found.key = some r ∧ ((r.produce name).run c.before).1 = c.result := by
  induction made with
  | nil => simp
  | @cons c r calls s₁ s₂ known called _ ih =>
    intro other member
    rcases List.mem_cons.1 member with rfl | member
    · exact ⟨r, known, congrArg Prod.fst called⟩
    · exact ih other member

theorem Ends.records (made : m.MadeFrom table options) {text name : String} {s s' : σ}
    {calls : List (Call σ)} (sequence : m.Sequence name s calls s')
    (ended : m.Ends text name s calls s') {withMap : Bool} {out : Substitution}
    (ran : (m.substitute text name withMap).outcome s = (.ok (some out), s')) :
    ∃ (texts : List String) (map : PositionMap), calls.map Call.result = texts.map .ok ∧
      Records text ((m.find text).zip texts) out.code map := by
  cases ended with
  | succeeded all succeed =>
    obtain ⟨texts, results, produced⟩ := sequence.produced succeed
    rw [all] at produced
    obtain ⟨pieces, cut, outcome⟩ := substitute_of_produced made produced
    refine ⟨texts, .ofPieces pieces text.toList, results, ?_⟩
    rw [outcome] at ran
    split at ran
    · cases ran
    · cases ran
      exact records_of_cut cut fun pair member =>
        (find_placed made text).spans pair.1 (List.of_mem_zip member).1
  | failed _ _ _ _ outcome =>
    rw [outcome] at ran
    cases ran

/-- Wherever an accessor is replaced and a string stands behind it, the text that is put in is the
quoted form of the string. It is the same on every way, different for different strings, and read
as one string of JSON that cannot be left before its end. -/
theorem substitute_quotes (completed : values.withEnvironment environment = .ok table)
    (compiled : compile table options = .ok m) :
    (∀ string, Json.Quotes (Json.quote string) string) ∧ Function.Injective Json.quote ∧
      ∀ text context s, ∃ calls s', m.Sequence context s calls s' ∧
        m.Ends text context s calls s' ∧
        (∀ call ∈ calls, ∀ name string, call.found.key = "process.env." ++ name →
          Supplies values environment context call.before name string →
            call.result = .ok (Json.quote string)) ∧
        ∀ withMap out, (m.substitute text context withMap).outcome s = (.ok (some out), s') →
          ∃ (texts : List String) (map : PositionMap), calls.map Call.result = texts.map .ok ∧
            Records text ((m.find text).zip texts) out.code map := by
  have made := madeFrom_of_compile compiled
  have completes := Table.completes_of_withEnvironment completed
  refine ⟨Json.quotes_quote, Json.quote_injective, fun text context s => ?_⟩
  obtain ⟨calls, s', sequence, ended⟩ := exists_calls made text context s
  refine ⟨calls, s', sequence, ended, ?_, fun withMap out ran => ended.records made sequence ran⟩
  intro call member name string same supplies
  obtain ⟨r, known, called⟩ := sequence.called call member
  rw [replacement?, made.table_eq, same] at known
  rw [← called, supplies.produce_eq completes known]

theorem substitute_quotes_broken_line :
    ∃ (values table : Table Unit) (m : Matcher Unit) (c : Call Unit),
      values.toList = [⟨"KEY", .literal (.string "\"\n")⟩] ∧
      values.withEnvironment [] = .ok table ∧ compile table ⟨none, true⟩ = .ok m ∧
      m.find "process.env.KEY" = [c.found] ∧ c.result = .ok "\"\\\"\\n\"" ∧
      Json.Quotes "\"\\\"\\n\"" "\"\n" ∧ ∃ s', m.Sequence "a.js" () [c] s' := by
  let values : Table Unit := .ofList [("KEY", .literal (.string "\"\n"))]
  have entries : values.toList = [⟨"KEY", .literal (.string "\"\n")⟩] :=
    Table.toList_ofList_singleton _ _
  have keys : values.keys = ["KEY"] := Table.keys_ofList_singleton _ _
  have stored : ⟨"KEY", .literal (.string "\"\n")⟩ ∈ values.toList := by
    rw [entries]
    exact List.mem_singleton_self _
  have nonempty : "" ∉ values.keys := by
    rw [keys]
    decide
  obtain ⟨_, m, madeWith⟩ := exists_madeWith nonempty [] ⟨none, true⟩
  have all : m.find "process.env.KEY" = [⟨0, 15, "process.env.KEY"⟩] :=
    madeWith.find_accessorOf "KEY" (by rw [keys]; decide) fun _ => by decide +kernel
  obtain ⟨quotes, -, runs⟩ := substitute_quotes madeWith.completed madeWith.compiled
  obtain ⟨calls, s', sequence, ended, results, -⟩ := runs "process.env.KEY" "a.js" ()
  obtain ⟨c, rfl, same, -⟩ := ended.of_single all
  have result := results c (List.mem_singleton_self c) "KEY" "\"\n" (by rw [same]; decide)
    (.literal stored (not_exposes_nil "KEY"))
  have quoted : Json.quote "\"\n" = "\"\\\"\\n\"" := by decide
  rw [quoted] at result
  exact ⟨values, _, m, c, entries, madeWith.completed, madeWith.compiled, by rw [all, same],
    result, quoted ▸ quotes "\"\n", s', sequence⟩

end Matcher

end KeySubst

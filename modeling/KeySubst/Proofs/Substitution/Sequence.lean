import KeySubst.Proofs.Matcher.Completed
import KeySubst.Proofs.Substitution.Tiling

namespace KeySubst

variable {σ α : Type}

structure Call (σ : Type) where
  found : Match
  before : σ
  result : Except String String

def Call.Succeeds (c : Call σ) : Prop := ∃ text, c.result = .ok text

/-- Calls that were told their numbers by a count in the state. -/
def Numbered (count : σ → Nat) (s : σ) (calls : List (Call σ)) (s' : σ) : Prop :=
  calls.map (fun c => count c.before + 1) = List.range' (count s + 1) calls.length ∧
    count s' = count s + calls.length

namespace Matcher

variable {m : Matcher σ} {table : Table σ} {options : MatchOptions} {name : String}

inductive Sequence (m : Matcher σ) (name : String) : σ → List (Call σ) → σ → Prop
  | nil {s : σ} : Sequence m name s [] s
  | cons {c : Call σ} {r : Replacement σ} {calls : List (Call σ)} {s₁ s₂ : σ}
      (known : m.replacement? c.found.key = some r)
      (called : (r.produce name).run c.before = (c.result, s₁))
      (rest : Sequence m name s₁ calls s₂) : Sequence m name c.before (c :: calls) s₂

theorem produce_of_failed {found : Match} {r : Replacement σ} {reason : String} {s s' : σ}
    (known : m.replacement? found.key = some r)
    (failed : (r.produce name).run s = (.error reason, s')) :
    (m.produce name found).outcome s = (.error (.producerFailed found.key name reason), s') := by
  rw [produce, known]
  change Effect.outcome (liftM (r.produce name) >>= _) s = _
  rw [Effect.outcome_bind, Effect.outcome_lift, failed]
  rfl

theorem Sequence.produced {s s' : σ} {calls : List (Call σ)} (made : m.Sequence name s calls s')
    (succeed : ∀ c ∈ calls, c.Succeeds) :
    ∃ texts : List String, calls.map Call.result = texts.map .ok ∧
      Produced m name (calls.map Call.found) s texts s' := by
  induction made with
  | nil => exact ⟨[], rfl, .nil⟩
  | @cons c r calls s₁ s₂ known called _ ih =>
    obtain ⟨text, result⟩ := succeed c List.mem_cons_self
    obtain ⟨texts, results, rest⟩ :=
      ih fun other member => succeed other (List.mem_cons_of_mem _ member)
    rw [result] at called
    refine ⟨text :: texts, ?_, .cons known called rest⟩
    rw [List.map_cons, result, results, List.map_cons]

theorem exists_sequence (name : String) {all : List Match}
    (known : ∀ found ∈ all, ∃ r, m.replacement? found.key = some r) (s : σ) :
    ∃ calls s', m.Sequence name s calls s' ∧
      ((calls.map Call.found = all ∧ ∀ c ∈ calls, c.Succeeds) ∨
        ∃ earlier last later reason, calls = earlier ++ [last] ∧
          all = calls.map Call.found ++ later ∧ (∀ c ∈ earlier, c.Succeeds) ∧
          last.result = .error reason ∧
          (m.edits name all).outcome s =
            (.error (.producerFailed last.found.key name reason), s')) := by
  -- The matches that follow are met in the state that the first call leaves.
  induction all generalizing s with
  | nil => exact ⟨[], s, .nil, .inl ⟨rfl, by simp⟩⟩
  | cons found others ih =>
    obtain ⟨r, isKnown⟩ := known found List.mem_cons_self
    cases called : (r.produce name).run s with
    | mk result s₁ =>
      cases result with
      | error reason =>
        have made : m.Sequence name s [⟨found, s, .error reason⟩] s₁ :=
          .cons (c := ⟨found, s, .error reason⟩) isKnown called .nil
        refine ⟨_, s₁, made, .inr ⟨[], _, others, reason, rfl, rfl, by simp, rfl, ?_⟩⟩
        rw [edits, Effect.outcome_bind, produce_of_failed isKnown called]
      | ok text =>
        have first := produce_of_called isKnown called
        obtain ⟨calls, s₂, made, ended⟩ :=
          ih (fun other member => known other (List.mem_cons_of_mem _ member)) s₁
        have extended : m.Sequence name s (⟨found, s, .ok text⟩ :: calls) s₂ :=
          .cons (c := ⟨found, s, .ok text⟩) isKnown called made
        refine ⟨_, s₂, extended, ?_⟩
        have succeeds : Call.Succeeds ⟨found, s, .ok text⟩ := ⟨text, rfl⟩
        rcases ended with ⟨rfl, succeed⟩ | ⟨earlier, last, later, reason, rfl, rfl, succeed, fails,
          outcome⟩
        · exact .inl ⟨rfl, List.forall_mem_cons.2 ⟨succeeds, succeed⟩⟩
        · refine .inr ⟨⟨found, s, .ok text⟩ :: earlier, last, later, reason, rfl, rfl,
            List.forall_mem_cons.2 ⟨succeeds, succeed⟩, fails, ?_⟩
          rw [edits, Effect.outcome_bind_of_ok first, Effect.outcome_bind, outcome]

theorem Sequence.logged {s s' : σ} {calls : List (Call σ)} (made : m.Sequence name s calls s')
    {log : σ → List α} {marks : String → String → List α}
    (logs : ∀ key r, m.replacement? key = some r → ∀ s,
      log ((r.produce name).run s).2 = log s ++ marks key name) :
    log s' = log s ++ calls.flatMap fun c => marks c.found.key name := by
  induction made with
  | nil => simp
  | @cons c r calls s₁ s₂ known called _ ih =>
    have first := logs c.found.key r known c.before
    rw [called] at first
    rw [ih, first, List.flatMap_cons, List.append_assoc]

theorem Sequence.numbered {s s' : σ} {calls : List (Call σ)} (made : m.Sequence name s calls s')
    {count : σ → Nat} {served : String → Bool}
    (counts : ∀ key r, m.replacement? key = some r → ∀ s,
      count ((r.produce name).run s).2 = count s + if served key then 1 else 0) :
    Numbered count s (calls.filter fun c => served c.found.key) s' := by
  induction made with
  | nil => exact ⟨rfl, rfl⟩
  | @cons c r calls s₁ s₂ known called _ ih =>
    have first := counts c.found.key r known c.before
    obtain ⟨numbers, total⟩ := ih
    rw [called] at first
    rw [List.filter_cons]
    split at first
    · rename_i own
      rw [if_pos own]
      refine ⟨?_, ?_⟩
      · rw [List.map_cons, List.length_cons, List.range'_succ, numbers, first]
      · rw [total, first, List.length_cons]
        omega
    · rename_i other
      rw [Nat.add_zero] at first
      rw [first] at numbers total
      rw [if_neg other]
      exact ⟨numbers, total⟩

end Matcher

theorem Producer.run_numbering (slot : Nat) (before after : String) (failsAt : Option Nat)
    (reason name : String) (s : Calls) :
    (Producer.numbering slot before after failsAt reason name).run s =
      (if failsAt = some (s.getD slot 0 + 1) then .error reason
        else .ok (before ++ toString (s.getD slot 0 + 1) ++ after),
        s.insert slot (s.getD slot 0 + 1)) := by
  unfold Producer.numbering
  by_cases fails : failsAt = some (s.getD slot 0 + 1)
  · simp only [StateT.run_bind, StateT.run_get, StateT.run_modify, pure_bind, if_pos fails]
    rfl
  · simp only [StateT.run_bind, StateT.run_get, StateT.run_modify, pure_bind, if_neg fails]
    rfl

theorem Producer.getD_numbering (slot : Nat) (before after : String) (failsAt : Option Nat)
    (reason name : String) (s : Calls) :
    ((Producer.numbering slot before after failsAt reason name).run s).2.getD slot 0 =
      s.getD slot 0 + 1 := by
  rw [Producer.run_numbering]
  exact Std.HashMap.getD_insert_self

theorem Producer.run_quoted (p : Producer σ) (name : String) (s : σ) :
    (p.quoted name).run s = (((p name).run s).1.map Json.quote, ((p name).run s).2) := rfl

/-- A part of the state lists the calls of the replacements of a table, whatever they come to. -/
def Logs (log : σ → List α) (marks : String → String → List α) (table : Table σ) : Prop :=
  ∀ e ∈ table.toList, ∀ name s,
    log ((e.value.produce name).run s).2 = log s ++ marks e.key name

/-- A part of the state counts the calls of the value of one configured key, whatever they come to,
and no others. -/
structure Counts (count : σ → Nat) (values : Table σ) (key : String) : Prop where
  configured : key ∈ values.keys
  own : ∀ value, ⟨key, value⟩ ∈ values.toList → ∀ name s,
    count ((value.produce name).run s).2 = count s + 1
  others : ∀ e ∈ values.toList, e.key ≠ key → ∀ name s,
    count ((e.value.produce name).run s).2 = count s

theorem Counts.of_completes {count : σ → Nat} {table values : Table σ}
    {environment : List (String × String)} {key string : String} (counts : Counts count values key)
    (completes : table.Completes values environment) {r : Replacement σ}
    (known : table.get? string = some r) (name : String) (s : σ) :
    (Serves values environment key string →
      count ((r.produce name).run s).2 = count s + 1) ∧
    (¬ Serves values environment key string → count ((r.produce name).run s).2 = count s) := by
  constructor
  · intro serves
    obtain ⟨e, stored, rfl⟩ := List.mem_map.1 counts.configured
    rcases serves.resolves stored with resolves | resolves
    · rw [← completes.get?_iff, known, Option.some.injEq] at resolves
      rw [resolves, counts.own _ stored]
    · rw [← completes.get?_iff, known, Option.some.injEq] at resolves
      rw [resolves, Replacement.produce_quoted, counts.own _ stored]
  · intro unserved
    rcases ((completes.get?_iff _ _).1 known).serves with ⟨l, rfl⟩ | ⟨other, value, stored, serves,
      same⟩
    · rfl
    -- The value of another key counts nothing, as it is or as JSON.
    · have different : other ≠ key := fun same => unserved (same ▸ serves)
      have unchanged := counts.others _ stored different name s
      rcases same with rfl | rfl
      · exact unchanged
      · rw [Replacement.produce_quoted, unchanged]

namespace Matcher

variable {m : Matcher σ} {table : Table σ} {options : MatchOptions} {name : String}

/-- How a substitution ends: a replacement was called for every match and none failed, or the last
call failed, and with its reason the substitution. -/
inductive Ends (m : Matcher σ) (text name : String) (s : σ) (calls : List (Call σ)) (s' : σ) : Prop
  | succeeded (all : calls.map Call.found = m.find text) (succeed : ∀ c ∈ calls, c.Succeeds)
      (outcome : ∀ withMap, ∃ out, (m.substitute text name withMap).outcome s = (.ok out, s'))
  | failed {earlier : List (Call σ)} {last : Call σ} {later : List Match} {reason : String}
      (split : calls = earlier ++ [last]) (all : m.find text = calls.map Call.found ++ later)
      (succeed : ∀ c ∈ earlier, c.Succeeds) (fails : last.result = .error reason)
      (outcome : ∀ withMap, (m.substitute text name withMap).outcome s =
        (.error (.producerFailed last.found.key name reason), s'))

theorem Ends.of_single {text : String} {s s' : σ} {calls : List (Call σ)} {found : Match}
    (ended : m.Ends text name s calls s') (single : m.find text = [found]) :
    ∃ c, calls = [c] ∧ c.found = found ∧ ∀ reason, c.result = .error reason →
      ∀ withMap, (m.substitute text name withMap).outcome s =
        (.error (.producerFailed found.key name reason), s') := by
  cases ended with
  | succeeded all succeed =>
    rw [single] at all
    obtain ⟨c, rfl, same⟩ := List.map_eq_singleton_iff.1 all
    refine ⟨c, rfl, same, fun reason fails => ?_⟩
    obtain ⟨text, succeeds⟩ := succeed c (List.mem_singleton_self c)
    rw [fails] at succeeds
    cases succeeds
  | @failed earlier last later reason split all _ fails outcome =>
    rw [single, split] at all
    have size := congrArg List.length all
    simp only [List.length_append, List.length_map, List.length_cons, List.length_nil] at size
    obtain rfl := List.eq_nil_of_length_eq_zero (show earlier.length = 0 by omega)
    obtain rfl : found = last.found := (List.cons.inj all).1
    refine ⟨last, split, rfl, fun other fails' => ?_⟩
    rw [fails, Except.error.injEq] at fails'
    exact fails' ▸ outcome

theorem exists_calls (made : m.MadeFrom table options) (text name : String) (s : σ) :
    ∃ calls s', m.Sequence name s calls s' ∧ m.Ends text name s calls s' := by
  obtain ⟨calls, s', sequence, ended⟩ := exists_sequence name (known_of_find made text) s
  refine ⟨calls, s', sequence, ?_⟩
  rcases ended with ⟨all, succeed⟩ | ⟨earlier, last, later, reason, split, all, succeed, fails,
    outcome⟩
  · obtain ⟨texts, -, produced⟩ := sequence.produced succeed
    rw [all] at produced
    obtain ⟨pieces, -, outcome⟩ := substitute_of_produced made produced
    exact .succeeded all succeed fun withMap => ⟨_, outcome withMap⟩
  · refine .failed split all succeed fails fun withMap => ?_
    rw [substitute, Effect.outcome_bind, outcome]

open Classical in
/-- A substitution calls the replacements of its matches from left to right, each once and with its
name, until one fails; the state it leaves is that of the last call. So a log kept by the
replacements shows these calls and no others, and a function that counts its calls is told
successive numbers, whether a match stands for its key or for the accessor of its key. -/
theorem substitute_sequence (compiled : compile table options = .ok m) (text name : String)
    (s : σ) :
    (m.find text).Pairwise (fun a b => a.stop ≤ b.start) ∧
      ∃ calls s', m.Sequence name s calls s' ∧ m.Ends text name s calls s' ∧
        (∀ (α : Type) (log : σ → List α) marks, Logs log marks table →
          log s' = log s ++ calls.flatMap fun c => marks c.found.key name) ∧
        ∀ values environment key count, values.withEnvironment environment = .ok table →
          Counts count values key →
          Numbered count s (calls.filter fun c => Serves values environment key c.found.key) s' := by
  have made := madeFrom_of_compile compiled
  obtain ⟨calls, s', sequence, ended⟩ := exists_calls made text name s
  refine ⟨(find_leftmost made text).ordered, calls, s', sequence, ended, ?_, ?_⟩
  · intro α log marks logs
    apply sequence.logged
    intro key r known s
    rw [replacement?, made.table_eq, Table.get?_eq_some_iff] at known
    exact logs _ known name s
  · intro values environment key count completed counts
    have completes := Table.completes_of_withEnvironment completed
    let served (string : String) : Bool := Serves values environment key string
    have effect : ∀ string r, m.replacement? string = some r → ∀ s,
        count ((r.produce name).run s).2 = count s + if served string then 1 else 0 := by
      intro string r known s
      rw [replacement?, made.table_eq] at known
      obtain ⟨own, others⟩ := counts.of_completes completes known name s
      by_cases serves : Serves values environment key string
      · rw [own serves, if_pos (decide_eq_true serves)]
      · rw [others serves, if_neg (of_decide_eq_true.mt serves)]
        rfl
    exact sequence.numbered effect

theorem substitute_sequence_third_call :
    ∃ (values table : Table Calls) (m : Matcher Calls) (c : Call Calls) (s s' : Calls),
      values.toList = [⟨"KEY", .function (Producer.numbering 0 "v" "" (some 3) "late")⟩] ∧
      values.withEnvironment [] = .ok table ∧ compile table ⟨none, true⟩ = .ok m ∧
      Counts (fun s => s.getD 0 0) values "KEY" ∧ s.getD 0 0 = 2 ∧
      m.find "process.env.KEY" = [c.found] ∧ m.Sequence "a.js" s [c] s' ∧
      Numbered (fun s => s.getD 0 0) s [c] s' ∧ s'.getD 0 0 = 3 ∧
      ∀ withMap, (m.substitute "process.env.KEY" "a.js" withMap).outcome s =
        (.error (.producerFailed "process.env.KEY" "a.js" "late"), s') := by
  let late : Replacement Calls := .function (Producer.numbering 0 "v" "" (some 3) "late")
  let values : Table Calls := .ofList [("KEY", late)]
  have entries : values.toList = [⟨"KEY", late⟩] := Table.toList_ofList_singleton _ _
  have keys : values.keys = ["KEY"] := Table.keys_ofList_singleton _ _
  have stored : ⟨"KEY", late⟩ ∈ values.toList := by
    rw [entries]
    exact List.mem_singleton_self _
  have serves : Serves values [] "KEY" "process.env.KEY" :=
    .inr ⟨by decide, not_exposes_nil "KEY"⟩
  have counts : Counts (fun s : Calls => s.getD 0 0) values "KEY" := by
    refine ⟨by rw [keys]; decide, ?_, ?_⟩
    · intro value member name s
      rw [entries, List.mem_singleton] at member
      cases member
      exact Producer.getD_numbering 0 "v" "" (some 3) "late" name s
    · intro e member different
      rw [entries, List.mem_singleton] at member
      rw [member] at different
      exact absurd rfl different
  have nonempty : "" ∉ values.keys := by
    rw [keys]
    decide
  obtain ⟨table, m, madeWith⟩ := exists_madeWith nonempty [] ⟨none, true⟩
  have replaced : table.get? "process.env.KEY" = some late.quoted :=
    (madeWith.completes.get?_iff _ _).2 (.derived stored (not_exposes_nil "KEY"))
  have all : m.find "process.env.KEY" = [⟨0, 15, "process.env.KEY"⟩] :=
    madeWith.find_accessorOf "KEY" (by rw [keys]; decide) fun _ => by decide +kernel
  obtain ⟨s, second⟩ : ∃ s : Calls, s.getD 0 0 = 2 :=
    ⟨Std.HashMap.emptyWithCapacity.insert 0 2, Std.HashMap.getD_insert_self⟩
  have third : (late.quoted.produce "a.js").run s = (.error "late", s.insert 0 3) := by
    change ((Producer.numbering 0 "v" "" (some 3) "late").quoted "a.js").run s = _
    rw [Producer.run_quoted, Producer.run_numbering, second]
    rfl
  obtain ⟨-, calls, s', sequence, ended, -, numbered⟩ :=
    substitute_sequence madeWith.compiled "process.env.KEY" "a.js" s
  have numbers := numbered values [] "KEY" _ madeWith.completed counts
  -- The only call is the third of the function, made through the accessor of its key.
  obtain ⟨c, rfl, same, fails⟩ := ended.of_single all
  have first := sequence
  obtain _ | ⟨isKnown, called, _ | _⟩ := first
  rw [same, replacement?, madeWith.madeFrom.table_eq, replaced, Option.some.injEq] at isKnown
  rw [← isKnown, third, Prod.mk.injEq] at called
  obtain ⟨result, rfl⟩ := called
  rw [List.filter_cons_of_pos (by simp [same, serves]), List.filter_nil] at numbers
  exact ⟨values, _, m, c, c.before, _, entries, madeWith.completed, madeWith.compiled, counts,
    second, by rw [all, same], sequence, numbers, Std.HashMap.getD_insert_self, fails _ result.symm⟩

end Matcher

end KeySubst

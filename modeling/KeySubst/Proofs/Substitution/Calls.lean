import KeySubst.Substitution.Basic
import KeySubst.Proofs.Matcher.Scan

/-!
# Calls of producers

A run that succeeds is told by the texts that the replacements of the matches gave one after the
other.
-/

namespace KeySubst

variable {σ α β : Type}

/-- What a computation comes to from a state, and the state that it leaves. -/
def Effect.outcome (x : Effect σ α) (s : σ) : Except Error α × σ := (ExceptT.run x).run s

namespace Effect

@[simp] theorem outcome_pure (a : α) (s : σ) : outcome (pure a : Effect σ α) s = (.ok a, s) := rfl

@[simp] theorem outcome_throw (e : Error) (s : σ) :
    outcome (throw e : Effect σ α) s = (.error e, s) := rfl

theorem outcome_bind (x : Effect σ α) (f : α → Effect σ β) (s : σ) :
    outcome (x >>= f) s =
      match outcome x s with
      | (.ok a, s') => outcome (f a) s'
      | (.error e, s') => (.error e, s') := by
  change (ExceptT.bindCont f (outcome x s).1).run (outcome x s).2 = _
  cases outcome x s with
  | mk result s' => cases result <;> rfl

@[simp] theorem outcome_lift (x : StateM σ α) (s : σ) :
    outcome (liftM x : Effect σ α) s = (.ok (x.run s).1, (x.run s).2) := rfl

theorem outcome_bind_of_ok {x : Effect σ α} {f : α → Effect σ β} {s s' : σ} {a : α}
    (ok : outcome x s = (.ok a, s')) : outcome (x >>= f) s = outcome (f a) s' := by
  rw [outcome_bind, ok]

theorem of_outcome_bind_ok {x : Effect σ α} {f : α → Effect σ β} {s s' : σ} {b : β}
    (ok : outcome (x >>= f) s = (.ok b, s')) :
    ∃ a s₁, outcome x s = (.ok a, s₁) ∧ outcome (f a) s₁ = (.ok b, s') := by
  rw [outcome_bind] at ok
  cases first : outcome x s with
  | mk result s₁ =>
    rw [first] at ok
    cases result with
    | ok a => exact ⟨a, s₁, rfl, ok⟩
    | error e => cases ok

end Effect

namespace Matcher

variable {m : Matcher σ} {name : String}

/-- The texts that the replacements of matches give, called one after the other from a state, and
the state that they leave. -/
inductive Produced (m : Matcher σ) (name : String) :
    List Match → σ → List String → σ → Prop
  | nil {s : σ} : Produced m name [] s [] s
  | cons {found : Match} {others : List Match} {r : Replacement σ} {text : String}
      {texts : List String} {s s₁ s₂ : σ} (known : m.replacement? found.key = some r)
      (called : (r.produce name).run s = (.ok text, s₁))
      (rest : Produced m name others s₁ texts s₂) :
      Produced m name (found :: others) s (text :: texts) s₂

def editOf (found : Match) (text : String) : Edit := ⟨found.start, found.stop, text⟩

theorem Produced.length_eq {all : List Match} {s s' : σ} {texts : List String}
    (produced : Produced m name all s texts s') : texts.length = all.length := by
  induction produced with
  | nil => rfl
  | cons _ _ _ ih => simp [ih]

theorem Produced.unique {all : List Match} {s s₁ s₂ : σ} {a b : List String}
    (left : Produced m name all s a s₁) (right : Produced m name all s b s₂) : a = b ∧ s₁ = s₂ := by
  induction left generalizing b with
  | nil =>
    cases right
    exact ⟨rfl, rfl⟩
  | cons known called _ ih =>
    cases right with
    | cons known' called' rest =>
      rw [known, Option.some.injEq] at known'
      subst known'
      rw [called] at called'
      cases called'
      obtain ⟨rfl, rfl⟩ := ih rest
      exact ⟨rfl, rfl⟩

theorem exists_produced {all : List Match}
    (succeed : ∀ found ∈ all, ∃ r, m.replacement? found.key = some r ∧
      ∀ s, ∃ text s', (r.produce name).run s = (.ok text, s')) (s : σ) :
    ∃ texts s', Produced m name all s texts s' := by
  induction all generalizing s with
  | nil => exact ⟨[], s, .nil⟩
  | cons found others ih =>
    obtain ⟨r, known, calls⟩ := succeed found List.mem_cons_self
    obtain ⟨text, s₁, called⟩ := calls s
    obtain ⟨texts, s₂, rest⟩ := ih (fun other member => succeed other (.tail _ member)) s₁
    exact ⟨text :: texts, s₂, .cons known called rest⟩

theorem produce_of_called {found : Match} {r : Replacement σ} {text : String} {s s' : σ}
    (known : m.replacement? found.key = some r)
    (called : (r.produce name).run s = (.ok text, s')) :
    (m.produce name found).outcome s = (.ok (some (editOf found text)), s') := by
  rw [produce, known]
  change Effect.outcome (liftM (r.produce name) >>= _) s = _
  rw [Effect.outcome_bind, Effect.outcome_lift, called]
  rfl

theorem called_of_produce {found : Match} {r : Replacement σ} {edit : Option Edit} {s s' : σ}
    (known : m.replacement? found.key = some r)
    (produced : (m.produce name found).outcome s = (.ok edit, s')) :
    ∃ text, (r.produce name).run s = (.ok text, s') ∧ edit = some (editOf found text) := by
  rw [produce, known] at produced
  change Effect.outcome (liftM (r.produce name) >>= _) s = _ at produced
  rw [Effect.outcome_bind, Effect.outcome_lift] at produced
  cases called : (r.produce name).run s with
  | mk result s₁ =>
    rw [called] at produced
    cases result with
    | ok text =>
      obtain ⟨rfl, rfl⟩ : some (editOf found text) = edit ∧ s₁ = s' := by
        simpa [editOf] using produced
      exact ⟨text, rfl, rfl⟩
    | error reason => cases produced

theorem edits_of_produced {all : List Match} {s s' : σ} {texts : List String}
    (produced : Produced m name all s texts s') :
    (m.edits name all).outcome s = (.ok (List.zipWith editOf all texts), s') := by
  induction produced with
  | nil => rfl
  | cons known called _ ih =>
    rw [edits, Effect.outcome_bind_of_ok (produce_of_called known called),
      Effect.outcome_bind_of_ok ih]
    rfl

theorem produced_of_edits {all : List Match} {s s' : σ} {edits : List Edit}
    (known : ∀ found ∈ all, ∃ r, m.replacement? found.key = some r)
    (made : (m.edits name all).outcome s = (.ok edits, s')) :
    ∃ texts, Produced m name all s texts s' ∧ edits = List.zipWith editOf all texts := by
  induction all generalizing s edits with
  | nil =>
    obtain ⟨rfl, rfl⟩ : [] = edits ∧ s = s' := by simpa [Matcher.edits] using made
    exact ⟨[], .nil, rfl⟩
  | cons found others ih =>
    obtain ⟨r, isKnown⟩ := known found List.mem_cons_self
    rw [Matcher.edits] at made
    obtain ⟨edit, s₁, first, later⟩ := Effect.of_outcome_bind_ok made
    obtain ⟨text, called, rfl⟩ := called_of_produce isKnown first
    obtain ⟨rest, s₂, following, last⟩ := Effect.of_outcome_bind_ok later
    obtain ⟨rfl, rfl⟩ : editOf found text :: rest = edits ∧ s₂ = s' := by simpa using last
    obtain ⟨texts, produced, rfl⟩ := ih (fun other member => known other (.tail _ member)) following
    exact ⟨text :: texts, .cons isKnown called produced, rfl⟩

theorem known_of_find {table : Table σ} {options : MatchOptions} (made : m.MadeFrom table options)
    (text : String) :
    ∀ found ∈ m.find text, ∃ r, m.replacement? found.key = some r := by
  intro found member
  obtain ⟨known, -⟩ := (find_leftmost made text).acceptable found member
  obtain ⟨r, stored⟩ := Table.exists_get?_of_mem_keys known
  exact ⟨r, by rw [replacement?, made.table_eq, stored]⟩

end Matcher

end KeySubst

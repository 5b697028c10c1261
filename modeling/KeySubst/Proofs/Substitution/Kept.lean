import KeySubst.Proofs.Matcher.Ranks
import KeySubst.Proofs.Substitution.Sequence

namespace KeySubst

variable {σ : Type}

def Edit.span (e : Edit) : Span := ⟨e.start, e.stop⟩

namespace Matcher

variable {m : Matcher σ} {table : Table σ} {options : MatchOptions} {name text : String}

structure Keeps (m : Matcher σ) (text : String) : Prop where
  replaced : ∀ found ∈ m.find text, ∃ r, m.replacement? found.key = some r
  edit : ∀ found ∈ m.find text, ∀ name s, ∃ s',
    (∃ e, (m.produce name found).outcome s = (.ok (some e), s') ∧ e.span = found.span) ∨
    ∃ reason, (m.produce name found).outcome s =
      (.error (.producerFailed found.key name reason), s')
  edits : ∀ name s, ∃ s',
    (∃ es, (m.edits name (m.find text)).outcome s = (.ok es, s') ∧
      es.map Edit.span = (m.find text).map Match.span) ∨
    ∃ found ∈ m.find text, ∃ reason, (m.edits name (m.find text)).outcome s =
      (.error (.producerFailed found.key name reason), s')
  unchanged : ∀ name withMap s s',
    (m.substitute text name withMap).outcome s = (.ok none, s') → m.find text = []

theorem map_span_zipWith {all : List Match} {texts : List String}
    (length : texts.length = all.length) :
    (List.zipWith editOf all texts).map Edit.span = all.map Match.span :=
  calc (List.zipWith editOf all texts).map Edit.span
    _ = List.zipWith (fun found _ => found.span) all texts := List.map_zipWith
    _ = ((all.zip texts).map Prod.fst).map Match.span := by
      rw [List.zip, List.map_zipWith, List.map_zipWith]
    _ = all.map Match.span := by rw [List.map_fst_zip length.ge]

theorem produce_cases {found : Match} {r : Replacement σ}
    (known : m.replacement? found.key = some r) (name : String) (s : σ) :
    ∃ s', (∃ e, (m.produce name found).outcome s = (.ok (some e), s') ∧ e.span = found.span) ∨
      ∃ reason, (m.produce name found).outcome s =
        (.error (.producerFailed found.key name reason), s') := by
  cases called : (r.produce name).run s with
  | mk result s' =>
    cases result with
    | ok text => exact ⟨s', .inl ⟨_, produce_of_called known called, rfl⟩⟩
    | error reason => exact ⟨s', .inr ⟨reason, produce_of_failed known called⟩⟩

theorem edits_cases {all : List Match}
    (known : ∀ found ∈ all, ∃ r, m.replacement? found.key = some r) (name : String) (s : σ) :
    ∃ s', (∃ es, (m.edits name all).outcome s = (.ok es, s') ∧
        es.map Edit.span = all.map Match.span) ∨
      ∃ found ∈ all, ∃ reason, (m.edits name all).outcome s =
        (.error (.producerFailed found.key name reason), s') := by
  obtain ⟨calls, s', made, ended⟩ := exists_sequence name known s
  refine ⟨s', ?_⟩
  rcases ended with ⟨rfl, succeed⟩ | ⟨earlier, last, later, reason, rfl, rfl, -, -, failed⟩
  · obtain ⟨texts, -, produced⟩ := made.produced succeed
    exact .inl ⟨_, edits_of_produced produced, map_span_zipWith produced.length_eq⟩
  · exact .inr ⟨last.found, by simp, reason, failed⟩

theorem find_eq_nil_of_unchanged (made : m.MadeFrom table options) {withMap : Bool} {s s' : σ}
    (ran : (m.substitute text name withMap).outcome s = (.ok none, s')) : m.find text = [] := by
  have first := ran
  rw [substitute] at first
  obtain ⟨edits, s₁, produces, -⟩ := Effect.of_outcome_bind_ok first
  obtain ⟨texts, produced, -⟩ := produced_of_edits (known_of_find made text) produces
  obtain ⟨pieces, -, outcome⟩ := substitute_of_produced made produced
  rw [outcome] at ran
  obtain ⟨same, -⟩ := Prod.mk.inj ran
  split at same
  · assumption
  · cases same

theorem MadeFrom.keeps (made : m.MadeFrom table options) (text : String) : m.Keeps text := by
  have known := known_of_find made text
  refine ⟨known, fun found member name s => ?_, fun name s => edits_cases known name s,
    fun name withMap s s' => find_eq_nil_of_unchanged made⟩
  obtain ⟨r, isKnown⟩ := known found member
  exact produce_cases isKnown name s

/-- A matcher can be made from a table unless one of its keys is empty, where the engine is assumed to
take every pattern. Its keys, their ranks and its table then agree, so that nothing gets lost between
them: every scan goes on until a search finds nothing more, and every match comes to an edit unless a
replacement fails. -/
theorem compile_keeps (table : Table σ) (options : MatchOptions) :
    (∀ e, compile table options = .error e ↔ e = .emptyKey ∧ "" ∈ table.keys) ∧
    ("" ∉ table.keys → ∃ m, compile table options = .ok m ∧ m.Ranks table options ∧
      ∀ text, m.Exhausts options text (.start text.toList) (m.find text) ∧ m.Keeps text) := by
  refine ⟨fun e => compile_eq_error_iff, fun nonempty => ?_⟩
  obtain ⟨m, compiled⟩ := exists_compile
    (fun key member empty => nonempty (empty ▸ member)) options
  have ranks := ranks_of_compile compiled
  exact ⟨m, compiled, ranks, fun text =>
    ⟨find_exhausts ranks text, ranks.toMadeFrom.keeps text⟩⟩

theorem compile_keeps_three_keys :
    let table : Table Unit :=
      .ofList [("A", .ofString "1"), ("AB", .ofString "2"), ("é", .function (.failing "off"))]
    let unnamed : Table Unit := .ofList [("A", .ofString "1"), ("", .ofString "2")]
    let options : MatchOptions := ⟨some ("<", ">"), true⟩
    compile unnamed options = .error .emptyKey ∧ "" ∉ table.keys ∧
      ∃ m : Matcher Unit, compile table options = .ok m ∧
        m.keys.filter (fun key => key.utf8ByteSize == 2) = ["AB", "é"] ∧
        (∃ i j, m.rank["AB"]? = some i ∧ m.rank["A"]? = some j ∧ i < j) ∧
        m.find "<AB>" = [⟨0, 4, "AB"⟩] ∧ m.replacement? "AB" = some (.ofString "2") ∧
        m.Exhausts options "<AB>" (.start "<AB>".toList) [⟨0, 4, "AB"⟩] ∧ m.Keeps "<AB>" ∧
        m.find "<é>" = [⟨0, 4, "é"⟩] ∧ m.Keeps "<é>" ∧
        (m.edits "a.js" (m.find "<é>")).outcome () =
          (.error (.producerFailed "é" "a.js" "off"), ()) := by
  intro table unnamed options
  have entries : table.toList =
      [⟨"A", .ofString "1"⟩, ⟨"AB", .ofString "2"⟩, ⟨"é", .function (.failing "off")⟩] :=
    Table.toList_ofList (by decide)
  have keys : table.keys = ["A", "AB", "é"] := Table.keys_ofList (by decide)
  have nonempty : "" ∉ table.keys := by
    rw [keys]
    decide
  have empty : "" ∈ unnamed.keys := by
    rw [show unnamed.keys = ["A", ""] from Table.keys_ofList (by decide)]
    decide
  obtain ⟨refused, -⟩ := compile_keeps unnamed options
  obtain ⟨-, compiles⟩ := compile_keeps table options
  obtain ⟨m, compiled, ranks, kept⟩ := compiles nonempty
  have ranked : ∀ key ∈ ["A", "AB", "é"], ∃ rank, m.rank[key]? = some rank ∧
      m.keys[rank]? = some key := fun key member =>
    ranks.exists_rank (ranks.keys_perm.mem_iff.2 (keys ▸ member))
  obtain ⟨i, longer, -⟩ := ranked "AB" (by decide)
  obtain ⟨j, shorter, -⟩ := ranked "A" (by decide)
  have alone : ∀ key ∈ ["A", "AB", "é"], m.find (options.spelling key) =
      [⟨0, (options.spelling key).utf8ByteSize, key⟩] := fun key member =>
    find_spelling ranks.toMadeFrom (keys ▸ member) (.of_spelling options key fun bare => by cases bare)
  have found : m.find "<AB>" = [⟨0, 4, "AB"⟩] := alone "AB" (by decide)
  have found' : m.find "<é>" = [⟨0, 4, "é"⟩] := alone "é" (by decide)
  have replaced : ∀ key r, ⟨key, r⟩ ∈ table.toList → m.replacement? key = some r := by
    intro key r stored
    rw [replacement?, ranks.table_eq, Table.get?_eq_some_iff.2 stored]
  have known : m.replacement? "é" = some (.function (.failing "off")) :=
    replaced _ _ (by rw [entries]; exact .tail _ (.tail _ (.head _)))
  have fails : (m.edits "a.js" (m.find "<é>")).outcome () =
      (.error (.producerFailed "é" "a.js" "off"), ()) := by
    rw [found', edits, Effect.outcome_bind, produce_of_failed known rfl]
  obtain ⟨exhausts, keeps⟩ := kept "<AB>"
  refine ⟨(refused _).2 ⟨rfl, empty⟩, nonempty, m, compiled, ?_,
    ⟨i, j, longer, shorter, ranks.later "A" "B" (by decide) i j longer shorter⟩, found, ?_,
    found ▸ exhausts, keeps, found', (kept "<é>").2, fails⟩
  · rw [ranks.stable, keys]
    decide
  · exact replaced _ _ (by rw [entries]; exact .tail _ (.head _))

end Matcher

end KeySubst

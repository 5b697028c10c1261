import KeySubst.Proofs.Matcher.Locality
import KeySubst.Proofs.Substitution.Tiling

/-!
# Texts that are rewritten apart

Where the values of a table are literals, an occurrence of a key is replaced by one text.
-/

namespace KeySubst

open Text (bytes)

variable {σ : Type}

def replacedBy (texts : String → String) (all : List Match) : List (Match × String) :=
  all.map fun found => (found, texts found.key)

/-- The text that comes of a substitution, which is the text itself if nothing was replaced. -/
def Substitution.codeOr (text : String) (out : Option Substitution) : String :=
  (out.map Substitution.code).getD text

section

variable {texts : String → String} {x y : List UInt8}

theorem spliced_replacedBy_cons (offset : Nat) (found : Match) (all : List Match) :
    spliced x offset (replacedBy texts (found :: all)) =
      (x.drop offset).take (found.start - offset) ++ bytes (texts found.key) ++
        spliced x found.stop (replacedBy texts all) := rfl

theorem spliced_shift (offset : Nat) (all : List Match) :
    spliced (x ++ y) (x.length + offset) (replacedBy texts (all.map (Match.shift x.length))) =
      spliced y offset (replacedBy texts all) := by
  induction all generalizing offset with
  | nil => exact List.drop_length_add_append offset
  | cons found all ih =>
    have place : x.length + found.start - (x.length + offset) = found.start - offset := by omega
    rw [List.map_cons, spliced_replacedBy_cons, spliced_replacedBy_cons, Match.shift_start,
      Match.shift_stop, Match.shift_key, place, ih, List.drop_length_add_append]

theorem spliced_append {offset : Nat} {all : List Match} (others : List Match)
    (le : offset ≤ x.length)
    (within : ∀ found ∈ all, found.start ≤ found.stop ∧ found.stop ≤ x.length) :
    spliced (x ++ y) offset (replacedBy texts (all ++ others.map (Match.shift x.length))) =
      spliced x offset (replacedBy texts all) ++ spliced y 0 (replacedBy texts others) := by
  induction all generalizing offset with
  | nil =>
    cases others with
    | nil => exact List.drop_append_of_le_length le
    | cons found others =>
      -- What is kept up to the next match starts in front of the place and ends behind it.
      have place : x.length + found.start - offset = (x.drop offset).length + found.start := by
        rw [List.length_drop]
        omega
      have run : ((x ++ y).drop offset).take (x.length + found.start - offset) =
          x.drop offset ++ y.take found.start := by
        rw [List.drop_append_of_le_length le, place, List.take_length_add_append]
      rw [List.nil_append, List.map_cons, spliced_replacedBy_cons, spliced_replacedBy_cons,
        Match.shift_start, Match.shift_stop, Match.shift_key, run, spliced_shift, List.drop_zero,
        Nat.sub_zero, List.append_assoc, List.append_assoc, List.append_assoc]
      rfl
  | cons found all ih =>
    obtain ⟨starts, stops⟩ := within found List.mem_cons_self
    have run : ((x ++ y).drop offset).take (found.start - offset) =
        (x.drop offset).take (found.start - offset) := by
      rw [List.drop_append_of_le_length le, List.take_append_of_le_length]
      rw [List.length_drop]
      omega
    rw [List.cons_append, spliced_replacedBy_cons, spliced_replacedBy_cons, run,
      ih stops fun other member => within other (.tail _ member), List.append_assoc,
      List.append_assoc, List.append_assoc]

theorem spliced_push_append {a : String} {all : List Match} (c : Char) (b : String)
    (others : List Match)
    (within : ∀ found ∈ all, found.start ≤ found.stop ∧ found.stop ≤ a.utf8ByteSize) :
    spliced (bytes (a.push c ++ b)) 0
        (replacedBy texts (all ++ others.map (Match.shift (a.push c).utf8ByteSize))) =
      spliced (bytes a) 0 (replacedBy texts all) ++ bytes (String.singleton c) ++
        spliced (bytes b) 0 (replacedBy texts others) := by
  have pushed : bytes (a.push c) = bytes a ++ bytes (String.singleton c) := by
    rw [String.push_eq_append, Text.bytes_append]
  have front : spliced (bytes (a.push c)) 0 (replacedBy texts all) =
      spliced (bytes a) 0 (replacedBy texts all) ++ bytes (String.singleton c) := by
    have apart : spliced (bytes a ++ bytes (String.singleton c)) 0
        (replacedBy texts (all ++ [].map (Match.shift (bytes a).length))) =
          spliced (bytes a) 0 (replacedBy texts all) ++ bytes (String.singleton c) :=
      spliced_append [] (Nat.zero_le _) within
    rw [List.map_nil, List.append_nil] at apart
    rw [pushed, apart]
  have within' : ∀ found ∈ all, found.start ≤ found.stop ∧
      found.stop ≤ (bytes (a.push c)).length := by
    intro found member
    have inside := within found member
    rw [pushed, List.length_append, Text.length_bytes]
    omega
  rw [Text.bytes_append, ← Text.length_bytes (a.push c), spliced_append _ (Nat.zero_le _) within',
    front]

end

namespace Matcher

variable {m : Matcher σ} {table : Table σ} {options : MatchOptions} {name : String}

theorem exists_texts (made : m.MadeFrom table options)
    (literal : ∀ e ∈ table.toList, ∃ l, e.value = .literal l) :
    ∃ texts : String → String, ∀ text name s,
      Produced m name (m.find text) s ((m.find text).map fun found => texts found.key) s := by
  have each : ∀ key, ∃ text, key ∈ table.keys → ∀ name s, ∃ r, m.replacement? key = some r ∧
      (r.produce name).run s = (.ok text, s) := by
    intro key
    by_cases known : key ∈ table.keys
    · obtain ⟨r, stored⟩ := Table.exists_get?_of_mem_keys known
      obtain ⟨l, rfl⟩ : ∃ l, r = .literal l := literal _ (Table.get?_eq_some_iff.1 stored)
      refine ⟨l.text, fun _ name s => ⟨.literal l, ?_, rfl⟩⟩
      rw [replacement?, made.table_eq, stored]
    · exact ⟨"", fun member => absurd member known⟩
  choose texts produces using each
  refine ⟨texts, fun text name s => ?_⟩
  have known : ∀ found ∈ m.find text, found.key ∈ table.keys :=
    fun found member => ((find_leftmost made text).acceptable found member).1
  generalize m.find text = all at known
  induction all with
  | nil => exact .nil
  | cons found all ih =>
    obtain ⟨r, stored, called⟩ := produces found.key (known found List.mem_cons_self) name s
    exact .cons stored called (ih fun other member => known other (.tail _ member))

theorem exists_substitution (made : m.MadeFrom table options) {texts : String → String}
    {text : String} {s : σ}
    (produced : Produced m name (m.find text) s ((m.find text).map fun found => texts found.key) s)
    (withMap : Bool) :
    ∃ out, (m.substitute text name withMap).outcome s = (.ok out, s) ∧
      (out = none ↔ m.find text = []) ∧
      bytes (Substitution.codeOr text out) =
        spliced (bytes text) 0 (replacedBy texts (m.find text)) := by
  obtain ⟨pieces, cut, outcome⟩ := substitute_of_produced made produced
  refine ⟨_, outcome withMap, by simp, ?_⟩
  split
  · rename_i none
    rw [none]
    rfl
  · rw [replacedBy, List.map_prod_left_eq_zip, ← cut.bytes_eq (List.nil_append _).symm rfl]
    change bytes (Piece.join pieces) = _
    rw [Text.bytes_eq_flatMap, Piece.join, String.toList_ofList]

theorem find_within (made : m.MadeFrom table options) (text : String) :
    ∀ found ∈ m.find text, found.start ≤ found.stop ∧ found.stop ≤ text.utf8ByteSize := by
  intro found member
  obtain ⟨-, acceptable⟩ := (find_leftmost made text).acceptable found member
  have stop := acceptable.stop_le
  obtain ⟨-, -, -, -, size, -⟩ := acceptable
  omega

/-- A text with a separator is searched, and where all values are literals also rewritten, as the
parts on both sides of the separator are. -/
theorem substitute_push_append (compiled : compile table options = .ok m) {c : Char}
    (separates : Separates options table.keys c) {a : String}
    (ends : options.preventAssignment = true → a.toList.getLast? ≠ some '=') (b : String) :
    m.find (a.push c ++ b) =
        m.find a ++ (m.find b).map (Match.shift (a.push c).utf8ByteSize) ∧
      ((∀ e ∈ table.toList, ∃ l, e.value = .literal l) → ∀ name withMap s, ∃ left right out,
        (m.substitute a name withMap).outcome s = (.ok left, s) ∧
          (m.substitute b name withMap).outcome s = (.ok right, s) ∧
          (m.substitute (a.push c ++ b) name withMap).outcome s = (.ok out, s) ∧
          (out = none ↔ left = none ∧ right = none) ∧
          Substitution.codeOr (a.push c ++ b) out =
            (Substitution.codeOr a left).push c ++ Substitution.codeOr b right) := by
  have made := madeFrom_of_compile compiled
  have found := find_push_append made separates ends b
  refine ⟨found, fun literal name withMap s => ?_⟩
  obtain ⟨texts, produced⟩ := exists_texts made literal
  obtain ⟨left, leftOutcome, leftNone, leftBytes⟩ :=
    exists_substitution made (produced a name s) withMap
  obtain ⟨right, rightOutcome, rightNone, rightBytes⟩ :=
    exists_substitution made (produced b name s) withMap
  obtain ⟨out, outcome, none, outBytes⟩ :=
    exists_substitution made (produced (a.push c ++ b) name s) withMap
  refine ⟨left, right, out, leftOutcome, rightOutcome, outcome, ?_, ?_⟩
  · rw [none, leftNone, rightNone, found, List.append_eq_nil_iff, List.map_eq_nil_iff]
  · apply Text.bytes_injective
    rw [outBytes, found, spliced_push_append c b _ (find_within made a), String.push_eq_append,
      Text.bytes_append, Text.bytes_append, leftBytes, rightBytes]

theorem substitute_push_append_two_lines :
    ∃ m : Matcher Unit, compile (.ofList [("KEY", .ofString "x\ny")]) ⟨none, true⟩ = .ok m ∧
      m.find "KEY;KEY" = [⟨0, 3, "KEY"⟩, ⟨4, 7, "KEY"⟩] ∧
      ∃ out, (m.substitute "KEY;KEY" "a.js" true).outcome () = (.ok out, ()) ∧
        Substitution.codeOr "KEY;KEY" out = "x\ny;x\ny" := by
  obtain ⟨m, compiled, replaced, found, -⟩ := exists_compile_key (σ := Unit) (.ofString "x\ny")
  have produced : Produced m "a.js" (m.find "KEY") () ["x\ny"] () := by
    rw [found]
    exact .cons replaced rfl .nil
  have ran : (m.substitute "KEY" "a.js" true).outcome () =
      (.ok (some (.ofPieces [⟨.replaced, "x\ny".toList, ⟨0, 3⟩⟩] "KEY".toList true)), ()) := by
    rw [substitute, Effect.outcome_bind_of_ok (edits_of_produced produced), found]
    rfl
  have literal : ∀ e ∈ (Table.ofList (σ := Unit) [("KEY", .ofString "x\ny")]).toList,
      ∃ l, e.value = .literal l := by
    rw [Table.toList_ofList_singleton]
    intro e member
    obtain rfl := List.mem_singleton.1 member
    exact ⟨.string "x\ny", rfl⟩
  have ends : "KEY".toList.getLast? ≠ some '=' := by decide
  obtain ⟨matched, rewritten⟩ :=
    substitute_push_append compiled (separates_semicolon _) (fun _ => ends) "KEY"
  obtain ⟨left, right, out, first, second, both, -, code⟩ := rewritten literal "a.js" true ()
  obtain rfl : _ = left := Except.ok.inj (Prod.mk.inj (ran.symm.trans first)).1
  obtain rfl : _ = right := Except.ok.inj (Prod.mk.inj (ran.symm.trans second)).1
  refine ⟨m, compiled, ?_, out, both, code.trans (by decide)⟩
  rw [found] at matched
  exact matched

end Matcher

end KeySubst

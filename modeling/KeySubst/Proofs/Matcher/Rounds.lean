import KeySubst.Proofs.Matcher.Scan
import KeySubst.Proofs.Text.Boundary

/-!
# Rounds of a scan

Every round of a scan starts at a boundary of the text and behind the start of the round before it.
-/

namespace KeySubst

open Text (Cursor byteSize IsBoundary Slices)

theorem Acceptable.slices {options : MatchOptions} {text : String} {found : Match}
    (acceptable : Acceptable options text found) :
    Slices text found.start found.stop := by
  obtain ⟨before, after, split, start, stop, -⟩ := acceptable
  have parts : text.toList =
      before.toList ++ (options.spelling found.key).toList ++ after.toList := by
    rw [split, String.toList_append, String.toList_append]
  have slices := Text.slices_append parts
  rwa [Text.byteSize_append, Text.byteSize_toList, Text.byteSize_toList, ← start, ← stop] at slices

namespace Matcher

variable {σ : Type} {m : Matcher σ} {table : Table σ} {options : MatchOptions} {text : String}

inductive Starts (m : Matcher σ) (text : String) : Cursor → Prop
  | first : Starts m text (.start text.toList)
  | next {c d : Cursor} {found : Option Match} (starts : Starts m text c)
      (made : m.round? c = some ⟨found, some d⟩) : Starts m text d

structure Round.Safe (m : Matcher σ) (text : String) (c : Cursor) : Prop where
  boundary : IsBoundary text c.offset
  search : ∀ hit, m.pattern.search? c = some hit →
    c.offset ≤ hit.start.offset ∧ Slices text hit.start.offset text.utf8ByteSize ∧
      IsBoundary text hit.stop.offset ∧
      ∃ rank, m.rank[hit.key]? = some rank ∧ rank < m.keys.length
  progress : ∀ found d, m.round? c = some ⟨found, some d⟩ → c.offset < d.offset
  found : ∀ found next, m.round? c = some ⟨some found, next⟩ →
    c.offset ≤ found.start ∧ found.start < found.stop ∧ Slices text found.start found.stop ∧
      found.key ∈ m.keys ∧ ∀ d, next = some d → d.offset = found.stop

theorem round_of_mem_scan {c : Cursor} (starts : Starts m text c) {found : Match}
    (member : found ∈ m.scan c) :
    ∃ d next, Starts m text d ∧ m.round? d = some ⟨some found, next⟩ := by
  -- A round that goes on leaves less of the text.
  induction size : c.rest.length using Nat.strongRecOn generalizing c with
  | ind n ih =>
    subst size
    rw [scan_eq] at member
    split at member
    · cases member
    · rename_i first ended
      rw [Option.mem_toList] at member
      exact ⟨c, none, starts, by rw [ended, member]⟩
    · rename_i first next went
      rcases List.mem_append.1 member with here | later
      · rw [Option.mem_toList] at here
        exact ⟨c, some next, starts, by rw [went, here]⟩
      · exact ih _ (round?_shorter went) (starts.next went) later rfl

theorem round_of_mem_find {found : Match} (member : found ∈ m.find text) :
    ∃ c next, Starts m text c ∧ m.round? c = some ⟨some found, next⟩ := by
  unfold find at member
  split at member
  · cases member
  · exact round_of_mem_scan .first member

theorem round?_next (made : m.MadeFrom table options) {before rest : List Char}
    (split : text.toList = before ++ rest) {found : Option Match} {d : Cursor}
    (went : m.round? (.between before rest) = some ⟨found, some d⟩) :
    ∃ passed after, rest = passed ++ after ∧ passed ≠ [] ∧ d = .between (before ++ passed) after := by
  rcases round?_between made split with ⟨ends, -⟩ | ⟨mid, after, rfl, passes, -⟩ |
    ⟨_, passed, after, rfl, nonempty, -, takes, -⟩
  · rw [ends] at went
    cases went
  · rw [passes, Option.some.injEq, Round.mk.injEq] at went
    obtain ⟨-, next⟩ := went
    cases after with
    | nil => cases next
    | cons c after =>
      rw [Cursor.next?_between_cons, Option.some.injEq] at next
      exact ⟨mid ++ [c], after, by simp, by simp, by rw [← next, List.append_assoc]⟩
  · rw [takes] at went
    cases went
    exact ⟨passed, after, rfl, nonempty, rfl⟩

theorem Starts.between (made : m.MadeFrom table options) {c : Cursor} (starts : Starts m text c) :
    ∃ before after, text.toList = before ++ after ∧ c = .between before after := by
  induction starts with
  | first => exact ⟨[], text.toList, rfl, rfl⟩
  | next _ went ih =>
    obtain ⟨before, rest, split, rfl⟩ := ih
    obtain ⟨passed, after, rfl, -, rfl⟩ := round?_next made split went
    exact ⟨before ++ passed, after, by rw [split, List.append_assoc], rfl⟩

theorem search?_ranges (made : m.MadeFrom table options) {before rest : List Char}
    (split : text.toList = before ++ rest) {hit : Hit}
    (searched : m.pattern.search? (.between before rest) = some hit) :
    byteSize before ≤ hit.start.offset ∧ Slices text hit.start.offset text.utf8ByteSize ∧
      IsBoundary text hit.stop.offset ∧
      ∃ rank, m.rank[hit.key]? = some rank ∧ rank < m.keys.length := by
  obtain ⟨mid, after, rfl, member, start, stop⟩ := Pattern.stands_of_search? searched
  obtain ⟨rank, ranked, stored⟩ := made.exists_rank member
  rw [← List.append_assoc] at split
  have enters : IsBoundary text (byteSize (before ++ mid)) := Text.isBoundary_append split
  rw [← List.append_assoc] at split
  rw [start, stop]
  refine ⟨?_, ⟨enters.le, enters, Text.isBoundary_size text⟩, Text.isBoundary_append split, rank,
    ranked, (List.getElem?_eq_some_iff.1 stored).1⟩
  rw [Cursor.between_offset, Text.byteSize_append]
  exact Nat.le_add_right _ _

theorem round?_found (made : m.MadeFrom table options) {before rest : List Char}
    (split : text.toList = before ++ rest) {found : Match} {next : Option Cursor}
    (went : m.round? (.between before rest) = some ⟨some found, next⟩) :
    Foremost options m.keys text (byteSize before) found ∧
      ∀ d, next = some d → d.offset = found.stop := by
  rcases round?_between made split with ⟨ends, -⟩ | ⟨mid, after, rfl, passes, -⟩ |
    ⟨_, passed, after, rfl, -, stop, takes, foremost⟩
  · rw [ends] at went
    cases went
  · rw [passes] at went
    cases went
  · rw [takes] at went
    cases went
    refine ⟨foremost, fun d same => ?_⟩
    cases same
    exact stop.symm

theorem Starts.safe (made : m.MadeFrom table options) {c : Cursor} (starts : Starts m text c) :
    Round.Safe m text c := by
  obtain ⟨before, rest, split, rfl⟩ := starts.between made
  refine ⟨Text.isBoundary_append split, fun hit => search?_ranges made split, ?_, ?_⟩
  · intro found d went
    obtain ⟨passed, after, -, nonempty, rfl⟩ := round?_next made split went
    have moved := Text.byteSize_pos nonempty
    simp only [Cursor.between_offset, Text.byteSize_append]
    omega
  · intro found next went
    obtain ⟨foremost, resumes⟩ := round?_found made split went
    have acceptable := foremost.acceptable
    have spans := acceptable.start_lt_stop (made.keys_nonempty _ foremost.known)
    exact ⟨foremost.ahead, spans, acceptable.slices, foremost.known, resumes⟩

end Matcher

end KeySubst

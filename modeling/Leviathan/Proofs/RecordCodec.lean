import Leviathan.Journal.Fragment
import Leviathan.Journal.Tips

/-!
# The lines of the journal and their records

A record is written as one line, and read back from it; the lines of a file can be told apart, and
the start of a line from what no writer leaves.

* `codec_sound`: **what `append` writes is framed, it is read back as it was, in any file of such
  lines, and a line that is cut off is a fragment in progress.**
-/

namespace Leviathan

open Py

/-- The text of a file of records. -/
def journalText {rt : Runtime} (rs : List (Rec rt)) : Str :=
  rs.flatMap fun r => encodeRecord r.1 r.2.fields

/-- What the parser makes of the line of a record. -/
def parsedRecord {rt : Runtime} (r : Rec rt) :
    Except PyError (Option (JournalRecordParseResult rt)) := .ok (some (.record r.1 r.2))

/-- The codec, its framing, and the classifier of fragments. -/
structure CodecSound (cfg : Config) : Prop where
  /-- an append that changes the file writes the line of the record that it returns -/
  appended : ∀ (journal : TickJournal cfg) (disk : Disk) (tick : TradeTick cfg.toRuntime),
    (journal.append disk tick).2.1.journalFile = disk.journalFile ∨
      ∃ seq, (journal.append disk tick).2.2 = .ok seq ∧
        (journal.append disk tick).2.1.journalFile =
          some (disk.journalFile.getD [] ++ recordBytes cfg.toRuntime (seq, tick))
  framed : ∀ (seq : Int) (tick : TickFields), ∃ text, encodeRecord seq tick = text ++ ['\n'] ∧
    '\n' ∉ text
  parsed : ∀ (seq : Int) (tick : TradeTick cfg.toRuntime),
    parseJournalRecordLine cfg.toRuntime (encodeRecord seq tick.fields) =
      .ok (some (.record seq tick))
  /-- `split("\n")` leaves an empty string behind the last line -/
  split : ∀ rs : List (Rec cfg.toRuntime),
    ((journalText rs).splitOn '\n').map (parseJournalRecordLine cfg.toRuntime) =
      rs.map parsedRecord ++ [.ok none]
  /-- the lines of the reader's text handle -/
  read : ∀ rs : List (Rec cfg.toRuntime), ∃ lines, textLines (journalBytes rs) = some lines ∧
    lines.map (fun line => parseJournalRecordLine cfg.toRuntime line.text) = rs.map parsedRecord
  fragment : ∀ (r : Rec cfg.toRuntime) (raw : Bytes), raw <+: recordBytes cfg.toRuntime r →
    raw ≠ [] → LF ∉ raw → ∃ text, textLines raw = some [⟨raw, text⟩] ∧
      isInProgressJournalFragment text = true ∧
      incompleteTrailingSkipReason text ≠ "incomplete_trailing_poison".toList

variable {rt : Runtime} {cfg : Config}

theorem newline_not_mem_recordText (seq : Int) (tick : TickFields) :
    '\n' ∉ recordText seq tick := by
  intro hmem
  exact absurd (printable_recordText seq tick '\n' hmem).1 (by decide)

theorem parse_recordText (seq : Int) (tick : TradeTick rt) :
    parseJournalRecordLine rt (recordText seq tick.fields) = .ok (some (.record seq tick)) := by
  have hline := parse_encodeRecord seq tick
  unfold parseJournalRecordLine at hline ⊢
  rw [(strip_encodeRecord seq tick.fields).1] at hline
  rw [(strip_encodeRecord seq tick.fields).2]
  exact hline

/-- The lines are between the newlines. -/
theorem splitOn_journalText (rs : List (Rec rt)) :
    (journalText rs).splitOn '\n' = rs.map (fun r => recordText r.1 r.2.fields) ++ [[]] := by
  have hjoin : journalText rs =
      List.intercalate ['\n'] (rs.map (fun r => recordText r.1 r.2.fields) ++ [[]]) := by
    induction rs with
    | nil => rfl
    | cons r rs ih =>
      rw [List.map_cons, List.cons_append, List.intercalate_cons_of_ne_nil (by simp), ← ih]
      simp [journalText, encodeRecord, recordText]
  rw [hjoin, List.splitOn_intercalate '\n' _ (by simp)]
  intro l hl
  rcases List.mem_append.mp hl with hl | hl
  · obtain ⟨r, -, rfl⟩ := List.mem_map.mp hl
    exact newline_not_mem_recordText _ _
  · rw [List.mem_singleton.mp hl]
    exact List.not_mem_nil

/-- A line that is cut off before its newline is the start of its text. -/
theorem startOf_of_prefix {r : Rec rt} {raw : Bytes} (h : raw <+: recordBytes rt r)
    (hLF : LF ∉ raw) : ∃ p, raw = encodeUtf8 p ∧ StartOf [r] p := by
  have hfile : raw <+: journalBytes [r] := by simpa using h
  obtain ⟨A, B, p, hrs, hraw, hp⟩ := prefix_cut hfile
  cases A with
  | nil =>
    obtain rfl : [r] = B := hrs
    exact ⟨p, hraw, hp⟩
  | cons r' A =>
    exfalso
    apply hLF
    rw [hraw, journalBytes_cons, recordBytes_eq]
    simp

theorem codec_sound (cfg : Config) : CodecSound cfg where
  appended journal disk tick := by
    by_cases haccepts : journal.Accepts tick
    · obtain ⟨store, -, happend⟩ := TickJournal.append_accepts haccepts disk
      rw [happend]
      exact .inr ⟨_, rfl, TickJournal.noteAppendLocked_journalFile _ _⟩
    · obtain ⟨store, -, -, -, happend⟩ := TickJournal.append_rejects haccepts disk
      rw [happend]
      exact .inl rfl
  framed seq tick := ⟨recordText seq tick, rfl, newline_not_mem_recordText seq tick⟩
  parsed := parse_encodeRecord
  split rs := by
    rw [splitOn_journalText, List.map_append, List.map_map]
    congr 1
    apply List.map_congr_left
    intro r _
    exact parse_recordText _ r.2
  read rs := by
    refine ⟨_, textLines_records rs, ?_⟩
    rw [List.map_map]
    apply List.map_congr_left
    intro r _
    exact parse_encodeRecord _ r.2
  fragment r raw hraw hne hLF := by
    obtain ⟨p, rfl, hp⟩ := startOf_of_prefix hraw hLF
    have hpne : p ≠ [] := by
      rintro rfl
      exact hne rfl
    have hin := hp.inProgress hpne
    refine ⟨p, ?_, hin, ?_⟩
    · rw [textLines_printable hp.printable, if_neg hpne]
    · rw [incompleteTrailingSkipReason, if_pos hin]
      decide

end Leviathan

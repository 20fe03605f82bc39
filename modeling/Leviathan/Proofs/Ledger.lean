import Leviathan.Journal.PollOrder
import Leviathan.Journal.Readme
import Leviathan.Lib.Run
import Leviathan.Py.LineStarts

/-!
# Every byte that a reader passes

A journal file grows by any bytes, and a reader polls it. What it passes is cut into lines: complete
ones, and starts of lines that it gives up. A line is returned as a record, quarantined, or left out
because it is blank or carries a number that the reader does not wait for any more.

* `accept`, `rejected`: what is returned, and what is quarantined.
* `ReadsLines`, `readLines_spec`: the loop of a poll, over the lines that it passes.
* `accounted_iff`: **all that the reader has passed is accounted for, in every state of exactly the
  runs in which a poll that raises has read no record before, and every poll stops at an offset of
  the file.** The number that `tell` gives behind a `\r` may be no such offset, and then the next
  poll reads again what this one has passed; without a `\r` there is no such number
  (`keepsPlace_of_no_CR`).
-/

namespace Leviathan

open Py

variable {cfg : Config}

/-! ## Lines -/

/-- The record that a reader returns of a line, if it waits for `nextSeq`. -/
def wanted (rt : Runtime) (nextSeq : Nat) (line : TextLine) : Option (Rec rt) :=
  if endsWithNewline line.text then
    match parseJournalRecordLine rt line.text with
    | .ok (some (.record seq tick)) => if seq < nextSeq then none else some (seq.toNat, tick)
    | _ => none
  else none

/-- The records that it returns of lines: their numbers go up. -/
def accept (rt : Runtime) : Nat → List TextLine → List (Rec rt)
  | _, [] => []
  | nextSeq, line :: lines =>
    match wanted rt nextSeq line with
    | none => accept rt nextSeq lines
    | some r => r :: accept rt (r.1 + 1) lines

/-- What it quarantines of a line. A line without an end is one that it gives up. -/
def rejected (rt : Runtime) (line : TextLine) : Option QuarantineLine :=
  if endsWithNewline line.text then
    match parseJournalRecordLine rt line.text with
    | .ok (some (.invalid reason text)) => some ⟨strip reason, text⟩
    | _ => none
  else some ⟨strip (incompleteTrailingSkipReason line.text), line.text⟩

namespace Tail

theorem waitAfter_cons (startSeq : Nat) (r : Rec cfg.toRuntime) (records : List (Rec cfg.toRuntime)) :
    waitAfter startSeq (r :: records) = waitAfter (r.1 + 1) records := by
  cases records with
  | nil => rfl
  | cons r' records => simp [waitAfter, List.getLast?_eq_some_getLast]

theorem waitAfter_append (startSeq : Nat) (records records' : List (Rec cfg.toRuntime)) :
    waitAfter startSeq (records ++ records') = waitAfter (waitAfter startSeq records) records' := by
  induction records generalizing startSeq with
  | nil => rfl
  | cons r records ih => rw [List.cons_append, waitAfter_cons, waitAfter_cons, ih]

theorem accept_append (startSeq : Nat) (lines lines' : List TextLine) :
    accept cfg.toRuntime startSeq (lines ++ lines') = accept cfg.toRuntime startSeq lines ++
      accept cfg.toRuntime (waitAfter startSeq (accept cfg.toRuntime startSeq lines)) lines' := by
  induction lines generalizing startSeq with
  | nil => rfl
  | cons line lines ih =>
    rw [List.cons_append, accept, accept]
    cases wanted cfg.toRuntime startSeq line with
    | none => exact ih startSeq
    | some r =>
      simp only [waitAfter_cons, List.cons_append]
      rw [ih]

/-- The numbers of the records are those that the reader waits for. -/
theorem le_of_mem_accept {startSeq : Nat} {lines : List TextLine} {r : Rec cfg.toRuntime}
    (h : r ∈ accept cfg.toRuntime startSeq lines) : startSeq ≤ r.1 := by
  induction lines generalizing startSeq with
  | nil => cases h
  | cons line lines ih =>
    rw [accept] at h
    cases hw : wanted cfg.toRuntime startSeq line with
    | none =>
      rw [hw] at h
      exact ih h
    | some r' =>
      have hge : startSeq ≤ r'.1 := by
        unfold wanted at hw
        split at hw
        · split at hw
          · split at hw
            · cases hw
            · obtain rfl := Option.some.inj hw
              simp only
              omega
          · cases hw
        · cases hw
      rw [hw] at h
      rcases List.mem_cons.mp h with rfl | h
      · exact hge
      · have := ih h
        omega

/-- Where nothing new is waited for, nothing was read. -/
theorem accept_eq_nil {startSeq : Nat} {lines : List TextLine}
    (h : waitAfter startSeq (accept cfg.toRuntime startSeq lines) = startSeq) :
    accept cfg.toRuntime startSeq lines = [] := by
  by_contra hne
  have hlast := le_of_mem_accept (List.getLast_mem hne)
  rw [waitAfter, List.getLast?_eq_some_getLast hne, Option.map_some, Option.getD_some] at h
  omega

/-! ## The loop of a poll -/

/-- The reader passes the line `line`, of which it returns `r`. -/
structure Passes (handle : TextHandle) (tail tail' : Tail cfg) (line : TextLine)
    (r : Option (Rec cfg.toRuntime)) : Prop where
  wanted : wanted cfg.toRuntime tail.reader.nextSeq line = r
  nextSeq : tail'.reader.nextSeq = waitAfter tail.reader.nextSeq r.toList
  quarantineFile : tail'.disk.quarantineFile =
    tail.disk.quarantineFile ++ (rejected cfg.toRuntime line).toList
  told : tail'.ToldBy (handle.past line)
  logicalBolOffset : tail'.reader.logicalBolOffset = some tail'.reader.readOffset

/-- A read passes the lines `passed`, and not the lines `unread` after them. -/
structure ReadsLines (handle : TextHandle) (tail : Tail cfg)
    (result : Tail cfg × Except PyError (List (Rec cfg.toRuntime))) (passed unread : List TextLine) :
    Prop where
  returned : ∀ records, result.2 = .ok records →
    records = accept cfg.toRuntime tail.reader.nextSeq passed
  nextSeq : result.1.reader.nextSeq =
    waitAfter tail.reader.nextSeq (accept cfg.toRuntime tail.reader.nextSeq passed)
  quarantineFile : result.1.disk.quarantineFile =
    tail.disk.quarantineFile ++ passed.filterMap (rejected cfg.toRuntime)
  told : result.1.ToldBy
    (handle.upTo (handle.position + (passed.map TextLine.raw).flatten.length))
  logicalBolOffset : tail.reader.logicalBolOffset = some tail.reader.readOffset →
    result.1.reader.logicalBolOffset = some result.1.reader.readOffset
  stops : ∀ records, result.2 = .ok records →
    ∀ line ∈ unread.head?, endsWithNewline line.text = false

namespace ReadsLines

variable {handle : TextHandle} {tail tail' : Tail cfg}
  {result : Tail cfg × Except PyError (List (Rec cfg.toRuntime))} {passed unread : List TextLine}

/-- A read that passes nothing. -/
theorem nil {result : Except PyError (List (Rec cfg.toRuntime))}
    (hplace : tail.reader.SamePlace tail'.reader) (htold : tail.ToldBy handle)
    (hquarantine : tail'.disk.quarantineFile = tail.disk.quarantineFile)
    (hreturned : ∀ records, result = .ok records → records = [])
    (hstops : ∀ records, result = .ok records →
      ∀ line ∈ unread.head?, endsWithNewline line.text = false) :
    ReadsLines handle tail (tail', result) [] unread := by
  refine ⟨hreturned, hplace.nextSeq, ?_, ?_, fun hbol => ?_, hstops⟩
  · exact hquarantine.trans (List.append_nil _).symm
  · unfold ToldBy
    rw [hplace.readOffset]
    exact htold
  · exact hplace.logicalBolOffset.trans (hbol.trans (congrArg some hplace.readOffset.symm))

/-- **One line more.** -/
theorem cons {line : TextLine} {r : Option (Rec cfg.toRuntime)}
    (h : ReadsLines (handle.past line) tail' result passed unread)
    (hpass : Passes handle tail tail' line r) :
    ReadsLines handle tail (result.1, result.2.map (r.toList ++ ·)) (line :: passed) unread := by
  have haccept : accept cfg.toRuntime tail.reader.nextSeq (line :: passed) =
      r.toList ++ accept cfg.toRuntime tail'.reader.nextSeq passed := by
    rw [accept, hpass.wanted, hpass.nextSeq]
    cases r <;> rfl
  refine ⟨?_, ?_, ?_, ?_, fun _ => h.logicalBolOffset hpass.logicalBolOffset, ?_⟩
  · intro records hrecords
    cases hresult : result.2 with
    | error e => simp [hresult, Except.map] at hrecords
    | ok rest =>
      have hrest : r.toList ++ rest = records := by simpa [hresult, Except.map] using hrecords
      rw [haccept, ← hrest, h.returned rest hresult]
  · rw [haccept, waitAfter_append, ← hpass.nextSeq]
    exact h.nextSeq
  · rw [h.quarantineFile, hpass.quarantineFile, List.append_assoc, List.filterMap_cons]
    cases rejected cfg.toRuntime line <;> rfl
  · rw [List.map_cons, List.flatten_cons, List.length_append, ← Nat.add_assoc]
    exact h.told
  · intro records hrecords
    cases hresult : result.2 with
    | error e => simp [hresult, Except.map] at hrecords
    | ok rest => exact h.stops rest hresult

/-- A line of which nothing is returned. -/
theorem skip {line : TextLine} (h : ReadsLines (handle.past line) tail' result passed unread)
    (hpass : Passes handle tail tail' line none) :
    ReadsLines handle tail result (line :: passed) unread := by
  have hsame : (result.1, result.2.map (([] : List (Rec cfg.toRuntime)) ++ ·)) = result := by
    obtain ⟨after, returned⟩ := result
    cases returned <;> rfl
  exact hsame ▸ h.cons hpass

/-- A read that raises behind the lines that it passes. -/
theorem raises (h : ReadsLines handle tail result passed unread) (e : PyError) :
    ReadsLines handle tail (result.1, .error e) passed unread :=
  ⟨by simp, h.nextSeq, h.quarantineFile, h.told, h.logicalBolOffset, by simp⟩

end ReadsLines

theorem toldBy_skipped (handle : TextHandle) (tail : Tail cfg) (line : TextLine) (reason : Str) :
    (tail.skipIncompleteTrailingFragment handle line reason).ToldBy (handle.past line) :=
  .inr rfl

/-- A reader passes a start of a line that it gives up. -/
theorem passes_skipped (handle : TextHandle) {tail tail₁ : Tail cfg} {line : TextLine}
    (hopen : endsWithNewline line.text = false) (hplace : tail.reader.SamePlace tail₁.reader)
    (hquarantine : tail₁.disk.quarantineFile = tail.disk.quarantineFile) :
    Passes handle tail (tail₁.skipIncompleteTrailingFragment handle line
      (incompleteTrailingSkipReason line.text)) line none := by
  have hrejected : rejected cfg.toRuntime line =
      some ⟨strip (incompleteTrailingSkipReason line.text), line.text⟩ := by
    rw [rejected, hopen]
    rfl
  refine ⟨by simp [Leviathan.wanted, hopen], hplace.nextSeq, ?_, toldBy_skipped .., rfl⟩
  rw [hrejected, ← hquarantine]
  rfl

/-- What the parser makes of a complete line. -/
theorem parseCompleteLine_complete {tail tail₁ : Tail cfg} {line : TextLine}
    {parsed : Option (Int × TradeTick cfg.toRuntime)} (hend : endsWithNewline line.text = true)
    (h : tail.parseCompleteLine line.text = (tail₁, .ok parsed)) :
    tail₁.reader.nextSeq = tail.reader.nextSeq ∧
      tail₁.disk.quarantineFile =
        tail.disk.quarantineFile ++ (rejected cfg.toRuntime line).toList ∧
      ∀ nextSeq : Nat, Leviathan.wanted cfg.toRuntime nextSeq line =
        parsed.bind fun (seq, tick) => if seq < nextSeq then none else some (seq.toNat, tick) := by
  unfold parseCompleteLine at h
  unfold rejected Leviathan.wanted
  split at h
  · cases h
  · rename_i hparse
    cases h
    simp [hend, hparse]
  · rename_i hparse
    cases h
    refine ⟨rfl, ?_, fun nextSeq => ?_⟩
    · simp only [hend, hparse, ↓reduceIte]
      rfl
    · simp only [hend, hparse, ↓reduceIte]
      rfl
  · rename_i hparse
    cases h
    simp [hend, hparse]

/-- A line that raises is not passed. -/
theorem parseCompleteLine_error {tail tail₁ : Tail cfg} {line : Str} {e : PyError}
    (h : tail.parseCompleteLine line = (tail₁, .error e)) : tail₁ = tail := by
  unfold parseCompleteLine at h
  split at h
  · exact (congrArg Prod.fst h).symm
  all_goals cases h

theorem readLines_spec (now : Rat) (lines : List TextLine) (handle : TextHandle) (tail : Tail cfg)
    (htold : tail.ToldBy handle) :
    ∃ passed unread, lines = passed ++ unread ∧
      ReadsLines handle tail (tail.readLines now handle lines) passed unread := by
  induction lines generalizing handle tail with
  | nil => exact ⟨[], [], rfl, .nil ⟨rfl, rfl, rfl⟩ htold rfl (by rintro _ ⟨⟩; rfl) (by simp)⟩
  | cons line lines ih =>
    rw [readLines]
    split
    · rename_i hopen
      simp only
      split
      · obtain ⟨passed, unread, hlines, hreads⟩ := ih (handle.past line) _ (toldBy_skipped ..)
        refine ⟨line :: passed, unread, by rw [hlines]; rfl, hreads.skip ?_⟩
        exact passes_skipped handle hopen ⟨rfl, rfl, rfl⟩ rfl
      · exact ⟨[], line :: lines, rfl,
          .nil ⟨rfl, rfl, rfl⟩ htold rfl (by rintro _ ⟨⟩; rfl) (by simpa using hopen)⟩
    · rename_i hcomplete
      have hend : endsWithNewline line.text = true := by simpa using hcomplete
      split
      · rename_i tail₁ e hparse
        obtain rfl := parseCompleteLine_error hparse
        exact ⟨[], line :: lines, rfl, .nil ⟨rfl, rfl, rfl⟩ htold rfl (by simp) (by simp)⟩
      · rename_i tail₁ parsed hparse
        obtain ⟨hnext, hquarantine, hwanted⟩ := parseCompleteLine_complete hend hparse
        have hnext : tail₁.reader.nextSeq = tail.reader.nextSeq := hnext
        have hwanted := hwanted tail.reader.nextSeq
        -- the reader is behind the line, whatever it waits for
        have hpass : ∀ {tail' : Tail cfg} {r : Option (Rec cfg.toRuntime)},
            tail'.disk = tail₁.disk → tail'.ToldBy (handle.past line) →
            tail'.reader.logicalBolOffset = some tail'.reader.readOffset →
            Leviathan.wanted cfg.toRuntime tail.reader.nextSeq line = r →
            tail'.reader.nextSeq = waitAfter tail.reader.nextSeq r.toList →
            Passes handle tail tail' line r :=
          fun hdisk htold hbol hwanted hnext =>
            ⟨hwanted, hnext, hdisk ▸ hquarantine, htold, hbol⟩
        simp only
        split
        · obtain ⟨passed, unread, hlines, hreads⟩ := ih (handle.past line)
            { tail₁ with reader := tail₁.reader.advance (cfg.tell (handle.past line)) } (.inr rfl)
          refine ⟨line :: passed, unread, by rw [hlines]; rfl, hreads.skip ?_⟩
          exact hpass rfl (.inr rfl) rfl hwanted hnext
        · rename_i seq tick _
          have hwanted : Leviathan.wanted cfg.toRuntime tail.reader.nextSeq line =
              if seq < tail.reader.nextSeq then none else some (seq.toNat, tick) := hwanted
          split
          · rename_i hold
            rw [if_pos (hnext ▸ hold)] at hwanted
            obtain ⟨passed, unread, hlines, hreads⟩ := ih (handle.past line)
              { tail₁ with reader := tail₁.reader.advance (cfg.tell (handle.past line)) } (.inr rfl)
            refine ⟨line :: passed, unread, by rw [hlines]; rfl, hreads.skip ?_⟩
            exact hpass rfl (.inr rfl) rfl hwanted hnext
          · rename_i hnew
            rw [if_neg (hnext ▸ hnew)] at hwanted
            obtain ⟨passed, unread, hlines, hreads⟩ := ih (handle.past line)
              { tail₁ with reader := { tail₁.reader.advance (cfg.tell (handle.past line)) with
                nextSeq := seq.toNat + 1 } } (.inr rfl)
            refine ⟨line :: passed, unread, by rw [hlines]; rfl,
              hreads.cons (r := some (seq.toNat, tick)) ?_⟩
            exact hpass rfl (.inr rfl) rfl hwanted rfl

/-- A read passes lines, and raises at a line or behind all of them. -/
theorem readHandle_spec (now : Rat) (handle : TextHandle) (tail : Tail cfg)
    (htold : tail.ToldBy handle) :
    ∃ passed unread, handle.read.lines = passed ++ unread ∧
      ReadsLines handle tail (tail.readHandle now handle) passed unread ∧
      ∀ records, (tail.readHandle now handle).2 = .ok records → handle.read.failed = false := by
  obtain ⟨passed, unread, hlines, hreads⟩ := readLines_spec now handle.read.lines handle tail htold
  refine ⟨passed, unread, hlines, ?_⟩
  unfold readHandle
  cases hrun : readLines now handle tail handle.read.lines with
  | mk after result =>
    rw [hrun] at hreads
    cases result with
    | error e => exact ⟨hreads, by simp⟩
    | ok records =>
      cases hfailed : handle.read.failed with
      | false => exact ⟨hreads, fun _ _ => rfl⟩
      | true => exact ⟨hreads.raises _, by simp⟩

/-! ## Polls -/

/-- The reader is at the start of a line that it has marked. -/
structure Marked (tail : Tail cfg) : Prop where
  readOffset : tail.reader.readOffset ≤ (tail.disk.journalFile.getD []).length
  logicalBolOffset : tail.reader.logicalBolOffset = some tail.reader.readOffset

/-- A new reader is at the start of the file. -/
theorem marked_new (maxWaitSeconds : Rat) (journal : TickJournal cfg) (disk : Disk) :
    Marked ⟨.new maxWaitSeconds, journal, disk⟩ := ⟨Nat.zero_le _, rfl⟩

/-- What a poll passes, and the bytes that it leaves. -/
structure PollReads (tail : Tail cfg)
    (result : Tail cfg × Except PyError (List (Rec cfg.toRuntime))) (passed : List TextLine)
    (rest : Bytes) : Prop where
  lines : ∀ line ∈ passed, textLines line.raw = some [line]
  bytes : (tail.disk.journalFile.getD []).drop tail.reader.readOffset =
    (passed.map TextLine.raw).flatten ++ rest
  rest : ∀ records, result.2 = .ok records → LF ∉ rest
  reads : ∃ unread, ReadsLines
    (.seek (tail.disk.journalFile.getD []) tail.reader.readOffset) tail result passed unread

/-- **A poll of a reader that has marked its line start** passes lines, and leaves no end of a line
behind them unless it raises. -/
theorem Marked.poll {tail : Tail cfg} (h : tail.Marked) (now : Rat) :
    ∃ passed rest, PollReads tail (tail.poll now tail.reader.nextSeq) passed rest := by
  have hpoll : tail.poll now tail.reader.nextSeq = tail.readNewRecords now := by
    simp only [Tail.poll, ne_eq, not_true_eq_false, ↓reduceIte]
  rw [hpoll]
  cases hfile : tail.disk.journalFile with
  | none =>
    have hread : tail.readNewRecords now = (tail, .ok []) := by simp only [readNewRecords, hfile]
    rw [hread]
    exact ⟨[], [], by simp, by simp [hfile], by simp,
      [], .nil ⟨rfl, rfl, rfl⟩ (.inl rfl) rfl (by rintro _ ⟨⟩; rfl) (by simp)⟩
  | some file =>
    obtain ⟨reader, hplace, hread⟩ := readNewRecords_marked hfile
      (by simpa [hfile] using h.readOffset) h.logicalBolOffset now
    rw [hread]
    obtain ⟨passed, unread, hlines, hreads, hok⟩ := readHandle_spec now
      (.seek file tail.reader.readOffset) { tail with reader } (.inl hplace.readOffset)
    obtain ⟨hline, ⟨rest, hrest⟩, -, hall⟩ := textRead_spec (file.drop tail.reader.readOffset)
    have hline : ∀ line ∈ passed ++ unread, textLines line.raw = some [line] := hlines ▸ hline
    have hbytes : file.drop tail.reader.readOffset =
        ((passed ++ unread).map TextLine.raw).flatten ++ rest := hlines ▸ hrest
    refine ⟨passed, (unread.map TextLine.raw).flatten ++ rest, ?_, ?_, ?_, unread, ?_⟩
    · exact fun line hmem => hline line (List.mem_append_left unread hmem)
    · rw [hfile, Option.getD_some, hbytes, List.map_append, List.flatten_append, List.append_assoc]
    · intro records hrecords
      -- the handle has returned all lines, and only the last one has no end
      have hlines : textLines (file.drop tail.reader.readOffset) = some (passed ++ unread) :=
        hlines ▸ hall (hok records hrecords)
      obtain rfl : rest = [] := by
        rw [textLines_flatten hlines] at hbytes
        exact List.append_right_eq_self.mp hbytes.symm
      cases unread with
      | nil => simp
      | cons line unread =>
        have hopen := hreads.stops records hrecords line rfl
        have hlast : unread = [] := by
          by_contra hne
          rw [textLines_ended hlines hne] at hopen
          cases hopen
        subst hlast
        simpa using LF_not_mem_open (textLines_line hlines) hopen
    · exact ⟨hplace.nextSeq ▸ hreads.returned, hplace.nextSeq ▸ hreads.nextSeq,
        hreads.quarantineFile, hfile ▸ hreads.told,
        fun hbol => hreads.logicalBolOffset (hplace.logicalBolOffset.trans
          (hbol.trans (congrArg some hplace.readOffset.symm))), hreads.stops⟩

end Tail

/-! ## The run -/

/-- A reader of a file that grows. -/
structure Ledger (cfg : Config) where
  tail : Tail cfg
  /-- the records that the polls have returned -/
  returned : List (Rec cfg.toRuntime)
  /-- the length of the file at the last poll that returned -/
  seen : Nat

inductive LedgerOp where
  /-- bytes arrive at the end of the file -/
  | grow (bytes : Bytes)
  | poll (now : Rat)

namespace Ledger

variable (first : Tail cfg)

def start : Ledger cfg := ⟨first, [], 0⟩

def file (s : Ledger cfg) : Bytes := s.tail.disk.journalFile.getD []

/-- What the caller waits for: the number after the last record. -/
def nextSeq (s : Ledger cfg) : Nat := Tail.waitAfter first.reader.nextSeq s.returned

def step (s : Ledger cfg) : LedgerOp → Ledger cfg
  | .grow bytes =>
    { s with tail := { s.tail with disk := TickJournal.Disk.writeLine s.tail.disk bytes } }
  | .poll now =>
    match s.tail.poll now (s.nextSeq first) with
    | (tail, .error _) => { s with tail }
    | (tail, .ok records) => { tail, returned := s.returned ++ records, seen := s.file.length }

/-- The bytes that the reader has passed. -/
def passed (s : Ledger cfg) : Bytes :=
  (s.file.take s.tail.reader.readOffset).drop first.reader.readOffset

/-- All that the reader has passed since `first` is accounted for. -/
structure Accounted (s : Ledger cfg) : Prop where
  /-- it is cut into lines, of which the records are returned and the invalid ones quarantined -/
  lines : ∃ lines : List TextLine, (∀ line ∈ lines, textLines line.raw = some [line]) ∧
    s.passed first = (lines.map TextLine.raw).flatten ∧
    s.returned = accept cfg.toRuntime first.reader.nextSeq lines ∧
    s.tail.disk.quarantineFile =
      first.disk.quarantineFile ++ lines.filterMap (rejected cfg.toRuntime)
  waits : s.tail.reader.nextSeq = s.nextSeq first
  /-- the next poll goes on behind it -/
  goesOn : s.tail.reader.readOffset ≤ s.file.length
  /-- no line was complete at the last poll that returned and is not passed -/
  caughtUp : LF ∉ (s.file.take s.seen).drop s.tail.reader.readOffset

/-- The poll stops at an offset of the file. -/
def KeepsPlace (s : Ledger cfg) (now : Rat) : Prop :=
  (s.tail.poll now (s.nextSeq first)).1.reader.readOffset ≤ s.file.length

/-- A poll that raises has read no record before. -/
def RaisesEarly (s : Ledger cfg) : LedgerOp → Prop
  | .grow _ => True
  | .poll now => (s.tail.poll now (s.nextSeq first)).2.isOk = true ∨
      (s.tail.poll now (s.nextSeq first)).1.reader.nextSeq = s.tail.reader.nextSeq

/-- And a poll keeps its place. -/
def NothingDropped (s : Ledger cfg) : LedgerOp → Prop
  | .grow _ => True
  | .poll now => s.KeepsPlace first now ∧ s.RaisesEarly first (.poll now)

instance (s : Ledger cfg) : ∀ op, Decidable (s.RaisesEarly first op)
  | .grow _ => .isTrue trivial
  | .poll _ => inferInstanceAs (Decidable (_ ∨ _))

instance (s : Ledger cfg) : ∀ op, Decidable (s.NothingDropped first op)
  | .grow _ => .isTrue trivial
  | .poll now => @instDecidableAnd _ _ (Nat.decLe _ _)
    (inferInstanceAs (Decidable (s.RaisesEarly first (.poll now))))

/-- No `\r` arrives. -/
def NoCR (_ : Ledger cfg) : LedgerOp → Prop
  | .grow bytes => CR ∉ bytes
  | .poll _ => True

/-- The reader, where it is. -/
structure Placed (s : Ledger cfg) : Prop where
  marked : s.tail.Marked
  forward : first.reader.readOffset ≤ s.tail.reader.readOffset
  seen : s.seen ≤ s.file.length

variable {first} {s : Ledger cfg}

theorem placed_grow (h : s.Placed first) (bytes : Bytes) :
    (s.step first (.grow bytes)).Placed first := by
  have hle : s.file.length ≤ (s.file ++ bytes).length := by
    rw [List.length_append]
    exact Nat.le_add_right _ _
  exact ⟨⟨Nat.le_trans h.marked.readOffset hle, h.marked.logicalBolOffset⟩, h.forward,
    Nat.le_trans h.seen hle⟩

/-- Bytes at the end of the file are not passed, and were not there at the last poll. -/
theorem accounted_grow (h : s.Placed first) (ha : s.Accounted first) (bytes : Bytes) :
    (s.step first (.grow bytes)).Accounted first := by
  have hread : s.tail.reader.readOffset ≤ s.file.length := h.marked.readOffset
  obtain ⟨lines, hlines, hpassed, hreturned, hquarantine⟩ := ha.lines
  refine ⟨⟨lines, hlines, ?_, hreturned, hquarantine⟩, ha.waits,
    (placed_grow h bytes).marked.readOffset, ?_⟩
  · rw [← hpassed]
    show ((s.file ++ bytes).take s.tail.reader.readOffset).drop first.reader.readOffset = _
    rw [List.take_append_of_le_length hread]
    rfl
  · show LF ∉ ((s.file ++ bytes).take s.seen).drop s.tail.reader.readOffset
    rw [List.take_append_of_le_length h.seen]
    exact ha.caughtUp

/-- Where a poll goes to: past the lines `passed`, up to the bytes `rest`. -/
theorem passed_poll (h : s.Placed first) {passed : List TextLine} {rest : Bytes}
    (hbytes : s.file.drop s.tail.reader.readOffset = (passed.map TextLine.raw).flatten ++ rest)
    {tail : Tail cfg} (hfile : tail.disk.journalFile = s.tail.disk.journalFile)
    (hoffset : tail.reader.readOffset =
      s.tail.reader.readOffset + (passed.map TextLine.raw).flatten.length) (returned seen) :
    s.file.drop tail.reader.readOffset = rest ∧
      Ledger.passed first ⟨tail, returned, seen⟩ =
        s.passed first ++ (passed.map TextLine.raw).flatten := by
  have hread : s.tail.reader.readOffset ≤ s.file.length := h.marked.readOffset
  refine ⟨?_, ?_⟩
  · rw [hoffset, ← List.drop_drop, hbytes, List.drop_left]
  · have htake : s.file.take tail.reader.readOffset =
        s.file.take s.tail.reader.readOffset ++ (passed.map TextLine.raw).flatten := by
      rw [hoffset, List.take_add, hbytes, List.take_left]
    have hfile' : Ledger.file ⟨tail, returned, seen⟩ = s.file := congrArg (·.getD []) hfile
    unfold Ledger.passed
    rw [hfile', htake, List.drop_append_of_le_length]
    rw [List.length_take_of_le hread]
    exact h.forward

/-- **What a poll leaves** that keeps its place, if the reader waits for what the caller does. -/
theorem poll_spec (h : s.Placed first) (ha : s.Accounted first) (now : Rat)
    (hkeeps : s.KeepsPlace first now) :
    (s.step first (.poll now)).Placed first ∧
      ((s.step first (.poll now)).Accounted first ↔ s.NothingDropped first (.poll now)) := by
  obtain ⟨passed, rest, hpoll⟩ := h.marked.poll now
  obtain ⟨unread, hreads⟩ := hpoll.reads
  have hfiles := (s.tail.poll_sameFiles now s.tail.reader.nextSeq).journalFile
  have hwaits := ha.waits
  rw [hwaits] at hpoll hreads hfiles
  obtain ⟨lines, hlines, hpassed, hreturned, hquarantine⟩ := ha.lines
  -- the lines that are passed now come after those before
  have hall : ∀ line ∈ lines ++ passed, textLines line.raw = some [line] := fun line hline =>
    (List.mem_append.mp hline).elim (hlines line) (hpoll.lines line)
  have haccept : accept cfg.toRuntime first.reader.nextSeq (lines ++ passed) =
      s.returned ++ accept cfg.toRuntime s.tail.reader.nextSeq passed := by
    rw [Tail.accept_append, ← hreturned, hwaits]
    rfl
  have hdropped : s.NothingDropped first (.poll now) ↔
      (s.tail.poll now (s.nextSeq first)).2.isOk = true ∨
        (s.tail.poll now (s.nextSeq first)).1.reader.nextSeq = s.tail.reader.nextSeq :=
    and_iff_right hkeeps
  rw [hdropped]
  unfold KeepsPlace at hkeeps
  cases hresult : s.tail.poll now (s.nextSeq first) with
  | mk tail result =>
    rw [hresult] at hpoll hreads hfiles hkeeps
    have hoffset : tail.reader.readOffset =
        s.tail.reader.readOffset + (passed.map TextLine.raw).flatten.length :=
      hreads.told.cases.resolve_right (Nat.not_lt.mpr hkeeps)
    obtain ⟨hrest, hcut⟩ := passed_poll h hpoll.bytes hfiles hoffset s.returned s.seen
    have hfile : Ledger.file ⟨tail, s.returned, s.seen⟩ = s.file := congrArg (·.getD []) hfiles
    have hmarked : tail.Marked := ⟨hkeeps.trans (Nat.le_of_eq (congrArg List.length hfile.symm)),
      hreads.logicalBolOffset h.marked.logicalBolOffset⟩
    have hforward : first.reader.readOffset ≤ tail.reader.readOffset :=
      Nat.le_trans h.forward (by rw [hoffset]; exact Nat.le_add_right _ _)
    have hbytes : s.passed first ++ (passed.map TextLine.raw).flatten =
        ((lines ++ passed).map TextLine.raw).flatten := by
      rw [hpassed, List.map_append, List.flatten_append]
    have hquarantined : tail.disk.quarantineFile = first.disk.quarantineFile ++
        (lines ++ passed).filterMap (rejected cfg.toRuntime) := by
      rw [hreads.quarantineFile, hquarantine, List.filterMap_append, List.append_assoc]
    cases result with
    | error e =>
      have hs : s.step first (.poll now) = ⟨tail, s.returned, s.seen⟩ := by simp only [step, hresult]
      have hdropped : ((Except.error e : Except PyError (List (Rec cfg.toRuntime))).isOk = true ∨
          tail.reader.nextSeq = s.tail.reader.nextSeq) ↔
          tail.reader.nextSeq = s.tail.reader.nextSeq := by
        simp [Except.isOk, Except.toBool]
      rw [hs, hdropped]
      refine ⟨⟨hmarked, hforward, hfile ▸ h.seen⟩, fun ha' => ha'.waits.trans hwaits.symm,
        fun hsame => ⟨⟨lines ++ passed, hall, hcut.trans hbytes, ?_, hquarantined⟩,
          hsame.trans hwaits, hmarked.readOffset, ?_⟩⟩
      · rw [haccept, Tail.accept_eq_nil (hreads.nextSeq.symm.trans hsame), List.append_nil]
      · rw [hfile]
        intro hmem
        refine ha.caughtUp ?_
        show LF ∈ (s.file.take s.seen).drop s.tail.reader.readOffset
        have hmem : LF ∈ (s.file.take s.seen).drop tail.reader.readOffset := hmem
        rw [hoffset, ← List.drop_drop] at hmem
        exact List.mem_of_mem_drop hmem
    | ok records =>
      have hs : s.step first (.poll now) = ⟨tail, s.returned ++ records, s.file.length⟩ := by
        simp only [step, hresult]
      have hrecords := hreads.returned records rfl
      rw [hs]
      refine ⟨⟨hmarked, hforward, Nat.le_of_eq (congrArg List.length hfile.symm)⟩,
        iff_of_true ⟨⟨lines ++ passed, hall, hcut.trans hbytes, ?_, hquarantined⟩, ?_,
          hmarked.readOffset, ?_⟩ (.inl rfl)⟩
      · rw [haccept, hrecords]
      · show tail.reader.nextSeq = Tail.waitAfter _ (s.returned ++ records)
        rw [Tail.waitAfter_append, hreads.nextSeq, hrecords, hwaits]
        rfl
      · show LF ∉ ((Ledger.file ⟨tail, s.returned, s.seen⟩).take s.file.length).drop _
        rw [hfile, List.take_length, hrest]
        exact hpoll.rest records rfl

/-- A poll that stops at no offset of the file leaves nothing accounted for. -/
theorem accounted_keepsPlace {now : Rat} (ha : (s.step first (.poll now)).Accounted first) :
    s.KeepsPlace first now := by
  have hgoesOn := ha.goesOn
  have hfiles := (s.tail.poll_sameFiles now (s.nextSeq first)).journalFile
  unfold KeepsPlace
  cases hresult : s.tail.poll now (s.nextSeq first) with
  | mk tail result =>
    rw [hresult] at hfiles
    have hfile : tail.disk.journalFile.getD [] = s.file := congrArg (·.getD []) hfiles
    cases result <;>
    · simp only [step, hresult, Ledger.file, hfile] at hgoesOn
      exact hgoesOn

/-- In a file without a `\r`, every poll keeps its place. -/
theorem keepsPlace_of_no_CR (h : s.Placed first) (hwaits : s.tail.reader.nextSeq = s.nextSeq first)
    (hCR : CR ∉ s.file) (now : Rat) : s.KeepsPlace first now := by
  obtain ⟨passed, rest, hpoll⟩ := h.marked.poll now
  obtain ⟨unread, hreads⟩ := hpoll.reads
  have hread : s.tail.reader.readOffset ≤ s.file.length := h.marked.readOffset
  have hlength := congrArg List.length hpoll.bytes
  rw [List.length_drop, List.length_append] at hlength
  have hoffset : (s.tail.poll now s.tail.reader.nextSeq).1.reader.readOffset =
      s.tail.reader.readOffset + (passed.map TextLine.raw).flatten.length :=
    hreads.told.elim id fun htell => htell.trans (tellsOffsets_of_not_mem hCR _ _)
  unfold KeepsPlace
  rw [← hwaits, hoffset]
  change _ ≤ (s.tail.disk.journalFile.getD []).length
  change _ ≤ (s.tail.disk.journalFile.getD []).length at hread
  omega

theorem file_step (s : Ledger cfg) (op : LedgerOp) : (s.step first op).file =
    match op with
    | .grow bytes => s.file ++ bytes
    | .poll _ => s.file := by
  cases op with
  | grow bytes => rfl
  | poll now =>
    have hfiles := (s.tail.poll_sameFiles now (s.nextSeq first)).journalFile
    simp only [step]
    split
    · rename_i tail e hresult
      rw [hresult] at hfiles
      exact congrArg (·.getD []) hfiles
    · rename_i tail records hresult
      rw [hresult] at hfiles
      exact congrArg (·.getD []) hfiles

/-- What one operation keeps, and when all is accounted for after it. -/
theorem step_spec (hs : s.Placed first) (ha : s.Accounted first) (op : LedgerOp) :
    (s.NothingDropped first op → (s.step first op).Placed first) ∧
      ((s.step first op).Accounted first ↔ s.NothingDropped first op) := by
  cases op with
  | grow bytes => exact ⟨fun _ => placed_grow hs bytes,
      iff_of_true (accounted_grow hs ha bytes) trivial⟩
  | poll now =>
    exact ⟨fun hop => (poll_spec hs ha now hop.1).1,
      fun ha' => (poll_spec hs ha now (accounted_keepsPlace ha')).2.mp ha',
      fun hop => (poll_spec hs ha now hop.1).2.mpr hop⟩

/-- Without a `\r`, the place is no condition. -/
theorem nothingDropped_iff (hs : s.Placed first) (ha : s.Accounted first) (hCR : CR ∉ s.file)
    (op : LedgerOp) : s.NothingDropped first op ↔ s.RaisesEarly first op := by
  cases op with
  | grow bytes => exact Iff.rfl
  | poll now => exact and_iff_right (keepsPlace_of_no_CR hs ha.waits hCR now)

/-- **All that a reader passes is accounted for**, in every state of exactly the runs in which every
poll stops at an offset of the file and none raises after it has read a record. Where no `\r` is in
the file, every poll does. -/
theorem accounted_iff (first : Tail cfg) (h : first.Marked) (ops : List LedgerOp) :
    (Run.Always (step first) (Accounted first) (start first) ops ↔
        Run.Each (step first) (NothingDropped first) (start first) ops) ∧
      (CR ∉ (start first).file → Run.Each (step first) NoCR (start first) ops →
        (Run.Always (step first) (Accounted first) (start first) ops ↔
          Run.Each (step first) (RaisesEarly first) (start first) ops)) := by
  have hstart : (start first).Accounted first := by
    refine ⟨⟨[], by simp, ?_, rfl, (List.append_nil _).symm⟩, rfl, h.readOffset, by simp [start]⟩
    simp [passed, start]
  have hplaced : Placed first (start first) := ⟨h, Nat.le_refl _, Nat.zero_le _⟩
  refine ⟨?_, fun hCR hops => ?_⟩
  · refine Run.always_iff_each ?_ ?_ hplaced hstart ops
    · exact fun s op hs ha hop => (step_spec hs ha op).1 hop
    · exact fun s op hs ha => (step_spec hs ha op).2
  refine @Run.always_iff_each_of _ _ (step first) (fun s => s.Placed first ∧ CR ∉ s.file) _ _ NoCR
    (fun s op hs ha hop hraises => ?_) (fun s op hs ha hop => ?_) _ ⟨hplaced, hCR⟩ hstart ops hops
  · refine ⟨(step_spec hs.1 ha op).1 ((nothingDropped_iff hs.1 ha hs.2 op).mpr hraises), ?_⟩
    rw [file_step]
    cases op with
    | grow bytes => exact fun hmem => (List.mem_append.mp hmem).elim hs.2 hop
    | poll now => exact hs.2
  · exact (step_spec hs.1 ha op).2.trans (nothingDropped_iff hs.1 ha hs.2 op)

/-- A new reader: a line that is no record, and a byte that is no UTF-8 after it. -/
theorem accounted_iff_junk :
    let first : Tail Config.default := ⟨.new 2, .new .empty, .empty⟩
    Run.Always (step first) (Accounted first) (start first)
      [.grow [120, LF], .poll 0, .grow [0xFF], .poll 1] :=
  (accounted_iff _ (Tail.marked_new 2 _ _) _).1.mpr (by decide +kernel)

end Ledger

end Leviathan

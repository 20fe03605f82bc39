import Leviathan.Journal.Fragment
import Leviathan.Journal.Readme
import Leviathan.Lib.DedupLog
import Leviathan.Lib.Run

/-!
# Polling while lines are written

A writer writes the lines of records in chunks that may end anywhere, and a reader polls the file
between the chunks. It waits for a line that is not complete as long as the next chunk comes in
time: `live_polling_exact`.
-/

namespace Leviathan

open Py

variable {cfg : Config}

/-- A reader of a file that is being written. -/
structure Live (cfg : Config) where
  tail : Tail cfg
  /-- the bytes that are still to be written -/
  unwritten : Bytes
  returned : List (Rec cfg.toRuntime)
  /-- the file at the last poll -/
  polled : Bytes
  /-- the time of the first poll since the last chunk that saw an incomplete line -/
  observed : Option Rat

inductive LiveOp where
  /-- the next bytes arrive -/
  | write (count : Nat)
  | poll (now : Rat)

namespace Live

def file (s : Live cfg) : Bytes := s.tail.disk.journalFile.getD []

/-- A new reader of a directory that has no journal file yet; the records of `ticks`, numbered from
1, are to be written. -/
def start (maxWaitSeconds : Rat) (journal : TickJournal cfg) (disk : Disk)
    (ticks : List (TradeTick cfg.toRuntime)) : Live cfg where
  tail := ⟨.new maxWaitSeconds, journal, { disk with journalFile := none }⟩
  unwritten := journalBytes (DedupLog.number 1 ticks)
  returned := []
  polled := []
  observed := none

def step (s : Live cfg) : LiveOp → Live cfg
  | .write count =>
    let chunk := s.unwritten.take count
    { s with
      tail := { s.tail with disk := TickJournal.Disk.writeLine s.tail.disk chunk }
      unwritten := s.unwritten.drop count
      observed := if chunk = [] then s.observed else none }
  | .poll now =>
    let seen := if Incomplete s.file then some (s.observed.getD now) else s.observed
    match s.tail.poll now s.tail.reader.nextSeq with
    | (tail, .error _) => { s with tail, polled := s.file, observed := seen }
    | (tail, .ok records) =>
      { s with
        tail, returned := s.returned ++ records, polled := s.file, observed := seen }

/-- A chunk comes before the reader has waited too long. -/
def InTime (s : Live cfg) : LiveOp → Prop
  | .write _ => True
  | .poll now => ∀ t ∈ s.observed, now - t < s.tail.reader.incompletePolicy.maxWaitSeconds

instance (s : Live cfg) : ∀ op, Decidable (s.InTime op)
  | .write _ => .isTrue trivial
  | .poll now => inferInstanceAs
    (Decidable (∀ t ∈ s.observed, now - t < s.tail.reader.incompletePolicy.maxWaitSeconds))

/-- The records returned are those whose lines were complete at the last poll, and nothing was
quarantined. -/
structure Delivered (rs : List (Rec cfg.toRuntime)) (quarantineFile : List QuarantineLine)
    (s : Live cfg) : Prop where
  inOrder : s.returned <+: rs
  complete : (byteLines s.polled).filter endsWithLF = s.returned.map (recordBytes cfg.toRuntime)
  quarantineFile : s.tail.disk.quarantineFile = quarantineFile
  skipped : s.tail.reader.skippedInvalidLines = 0

/-- The position of the reader: `A` are the records it returned, `p` is the start of a line that it
saw after them. -/
structure At (s : Live cfg) (A B : List (Rec cfg.toRuntime)) (p : Str) : Prop where
  polled : s.polled = journalBytes A ++ encodeUtf8 p
  startOf : StartOf B p
  grown : s.polled <+: s.file
  file : s.file ++ s.unwritten = journalBytes (A ++ B)
  returned : s.returned = A
  readOffset : s.tail.reader.readOffset = (journalBytes A).length
  logicalBolOffset : s.tail.reader.logicalBolOffset = some s.tail.reader.readOffset
  behind : ∀ r ∈ A, r.1 < s.tail.reader.nextSeq
  ahead : ∀ r ∈ B, s.tail.reader.nextSeq ≤ r.1
  size : ∀ size, s.tail.reader.lastKnownSize = some size → size ≤ s.file.length
  -- without a start of a line there is nothing to wait for
  idle : p = [] → s.tail.reader.incompletePolicy.pending = none ∧ s.observed = none
  -- the policy waits for the start of the line, and a longer one is new to it
  waiting : p ≠ [] → ∃ t, s.tail.reader.incompletePolicy.pending =
      some ⟨s.tail.reader.readOffset, t, p.length⟩ ∧
    (s.file = s.polled ∧ s.observed = some t ∨ s.file ≠ s.polled ∧ s.observed = none)

structure Inv (rs : List (Rec cfg.toRuntime)) (quarantineFile : List QuarantineLine) (s : Live cfg) :
    Prop where
  position : ∃ A B p, rs = A ++ B ∧ s.At A B p
  quarantineFile : s.tail.disk.quarantineFile = quarantineFile
  skipped : s.tail.reader.skippedInvalidLines = 0

theorem Inv.delivered {rs : List (Rec cfg.toRuntime)} {quarantineFile : List QuarantineLine}
    {s : Live cfg} (h : s.Inv rs quarantineFile) : s.Delivered rs quarantineFile := by
  obtain ⟨A, B, p, rfl, hat⟩ := h.position
  refine ⟨hat.returned ▸ List.prefix_append A B, ?_, h.quarantineFile, h.skipped⟩
  rw [hat.polled, hat.returned]
  exact byteLines_startOf A hat.startOf

variable {rs : List (Rec cfg.toRuntime)} {quarantineFile : List QuarantineLine} {s : Live cfg}

theorem inv_write (h : s.Inv rs quarantineFile) (count : Nat) :
    (s.step (.write count)).Inv rs quarantineFile := by
  obtain ⟨A, B, p, rfl, hat⟩ := h.position
  have hfile : (s.step (.write count)).file = s.file ++ s.unwritten.take count := rfl
  refine ⟨⟨A, B, p, rfl, hat.polled, hat.startOf, ?_, ?_, hat.returned, hat.readOffset,
    hat.logicalBolOffset, hat.behind, hat.ahead, fun size hs => ?_, fun hp => ?_, fun hp => ?_⟩,
    h.quarantineFile, h.skipped⟩
  · exact hat.grown.trans (List.prefix_append _ _)
  · rw [hfile, List.append_assoc]
    show s.file ++ (s.unwritten.take count ++ s.unwritten.drop count) = _
    rw [List.take_append_drop]
    exact hat.file
  · have := hat.size size hs
    rw [hfile, List.length_append]
    omega
  · refine ⟨(hat.idle hp).1, ?_⟩
    simp only [step, (hat.idle hp).2, ite_self]
  · obtain ⟨t, hpend, hobs⟩ := hat.waiting hp
    refine ⟨t, hpend, ?_⟩
    by_cases hc : s.unwritten.take count = []
    · rw [hfile, hc, List.append_nil]
      simpa only [step, hc, ↓reduceIte] using hobs
    · refine .inr ⟨fun he => ?_, by simp only [step, hc, ↓reduceIte]⟩
      -- the file is longer than at the last poll
      have hlt := List.length_pos_iff.mpr hc
      have hlen := congrArg List.length he
      have hle := hat.grown.length_le
      rw [hfile, List.length_append] at hlen
      have hpolled : (s.step (.write count)).polled = s.polled := rfl
      rw [hpolled] at hlen
      omega

section Poll

variable {A B N B' : List (Rec cfg.toRuntime)} {p p' : Str}

/-- Where the file is as at the last poll, nothing became complete. -/
theorem At.unchanged (hat : s.At A (N ++ B') p) (hp' : StartOf B' p')
    (hfile : s.file = journalBytes (A ++ N) ++ encodeUtf8 p') (hsame : s.file = s.polled) :
    N = [] ∧ p'.length = p.length := by
  have hlen := congrArg List.length (hsame.symm.trans hfile)
  rw [hat.polled, journalBytes_append] at hlen
  simp only [List.length_append, hat.startOf.length, hp'.length] at hlen
  cases N with
  | nil => exact ⟨rfl, by simp at hlen; omega⟩
  | cons r N =>
    have hstart : StartOf (r :: (N ++ B')) p := hat.startOf
    have hlt := hstart.length_lt
    simp only [journalBytes_cons, List.length_append] at hlen
    omega

open JournalIncrementalReader (consume consume_frame consume_logicalBolOffset consume_nextSeq
  consume_pending consume_readOffset)

/-- **The policy waits**, since the first poll that saw the start of the line. -/
theorem At.waits (hat : s.At A (N ++ B') p) (hp' : StartOf B' p') (hne : p' ≠ [])
    (hfile : s.file = journalBytes (A ++ N) ++ encodeUtf8 p') {now : Rat}
    (ht : s.InTime (.poll now)) {reader : JournalIncrementalReader} {size : Option Nat}
    (hreader : reader = N.foldl consume { s.tail.reader with lastKnownSize := size }) :
    ∃ policy, reader.incompletePolicy.shouldSkipNow now reader.readOffset p' = (policy, false) ∧
      policy.pending = some ⟨reader.readOffset, s.observed.getD now, p'.length⟩ := by
  have hin := hp'.inProgress hne
  have hpending := consume_pending { s.tail.reader with lastKnownSize := size } N
  obtain ⟨-, -, hmax⟩ := consume_frame { s.tail.reader with lastKnownSize := size } N
  have hoffset := consume_readOffset { s.tail.reader with lastKnownSize := size } N
  rw [← hreader] at hpending hmax hoffset
  cases hobs : s.observed with
  | some t =>
    have hp : p ≠ [] := fun hp => by rw [(hat.idle hp).2] at hobs; cases hobs
    obtain ⟨t', hpend, hcase⟩ := hat.waiting hp
    obtain ⟨hsame, ht'⟩ := hcase.resolve_right fun hc => by rw [hc.2] at hobs; cases hobs
    obtain rfl : t' = t := by rw [hobs] at ht'; exact (Option.some.inj ht').symm
    obtain ⟨rfl, hlen⟩ := hat.unchanged hp' hfile hsame
    have hknown : reader.incompletePolicy.pending = some ⟨reader.readOffset, t', p'.length⟩ := by
      rw [hpending, if_pos rfl, hlen, hoffset]
      exact hpend
    refine ⟨reader.incompletePolicy, Policy.shouldSkipNow_again hin hne hknown ?_, hknown⟩
    rw [hmax]
    exact ht t' hobs
  | none =>
    have hnew : ∀ t, reader.incompletePolicy.pending ≠ some ⟨reader.readOffset, t, p'.length⟩ := by
      intro t he
      rw [hpending] at he
      split at he
      · rename_i hN
        subst hN
        have hp : p ≠ [] := fun hp => by
          rw [show ({ s.tail.reader with lastKnownSize := size } :
            JournalIncrementalReader).incompletePolicy.pending = none from (hat.idle hp).1] at he
          cases he
        obtain ⟨t', hpend, hcase⟩ := hat.waiting hp
        have hgrown := (hcase.resolve_left fun hc => by rw [hc.2] at hobs; cases hobs).1
        have hlen : p.length = p'.length := by
          have := hpend.symm.trans he
          simp only [Option.some.injEq, PendingIncomplete.mk.injEq] at this
          exact this.2.2
        refine hgrown (hat.grown.eq_of_length ?_).symm
        rw [hat.polled, hfile]
        simp [hat.startOf.length, hp'.length, hlen]
      · cases he
    exact ⟨_, Policy.shouldSkipNow_first hin hne hnew, rfl⟩

/-- The file now: the lines `N` became complete since the last poll. -/
theorem At.cut (hat : s.At A B p) :
    ∃ N B' p', B = N ++ B' ∧ s.file = journalBytes (A ++ N) ++ encodeUtf8 p' ∧ StartOf B' p' := by
  obtain ⟨A', B', p', hrs, hfile, hp'⟩ :=
    prefix_cut (show s.file <+: journalBytes (A ++ B) from
      hat.file ▸ List.prefix_append s.file s.unwritten)
  have hle := hat.grown.length_le
  rw [hat.polled, List.length_append, hfile] at hle
  obtain ⟨N, rfl, rfl⟩ := cut_mono hrs hp' (by omega)
  exact ⟨N, B', p', rfl, hfile, hp'⟩

/-- Nothing is seen after the complete lines: then nothing was seen before. -/
theorem At.idle_of_nil (hat : s.At A (N ++ B') p) (hfile : s.file = journalBytes (A ++ N)) :
    s.observed = none ∧ (N = [] → s.tail.reader.incompletePolicy.pending = none) := by
  have hfile' : s.file = journalBytes (A ++ N) ++ encodeUtf8 [] := by
    rw [hfile]; exact (List.append_nil _).symm
  constructor
  · by_cases hp : p = []
    · exact (hat.idle hp).2
    · obtain ⟨t, -, hcase⟩ := hat.waiting hp
      rcases hcase with ⟨hsame, -⟩ | ⟨-, hobs⟩
      · have hlen := (hat.unchanged (.inl rfl) hfile' hsame).2
        exact absurd (List.length_eq_zero_iff.mp hlen.symm) hp
      · exact hobs
  · rintro rfl
    have hle := hat.grown.length_le
    rw [hat.polled, hfile, List.append_nil, List.length_append, hat.startOf.length] at hle
    exact (hat.idle (List.length_eq_zero_iff.mp (by omega))).1

/-- **What a poll does**: it consumes the lines that became complete, and its policy waits for the
start of the next one. -/
theorem At.step_poll (hat : s.At A (N ++ B') p) (hinc : Increasing (A ++ (N ++ B')))
    (hfile : s.file = journalBytes (A ++ N) ++ encodeUtf8 p') (hp' : StartOf B' p') {now : Rat}
    (ht : s.InTime (.poll now)) (hsome : s.tail.disk.journalFile ≠ none)
    {reader : JournalIncrementalReader}
    (hreader : reader = N.foldl consume { s.tail.reader with
      lastKnownSize := some s.file.length }) :
    ∃ policy, (p' = [] → policy = reader.incompletePolicy) ∧
      (p' ≠ [] → policy.pending = some ⟨reader.readOffset, s.observed.getD now, p'.length⟩) ∧
      s.step (.poll now) =
        { s with
          tail := { s.tail with reader := { reader with incompletePolicy := policy } }
          returned := s.returned ++ N
          polled := s.file
          observed := if Incomplete s.file then some (s.observed.getD now) else s.observed } := by
  have hjournal : s.tail.disk.journalFile =
      some (journalBytes (A ++ N) ++ encodeUtf8 p') := by
    obtain ⟨file, hf⟩ := Option.ne_none_iff_exists'.mp hsome
    rw [← hfile, Live.file, hf]
    rfl
  have hsize : ∀ size, s.tail.reader.lastKnownSize = some size →
      size ≤ (journalBytes (A ++ N) ++ encodeUtf8 p').length := by
    rw [← hfile]
    exact hat.size
  -- every complete line is new
  have hN : Increasing N := (List.pairwise_append.mp (List.pairwise_append.mp hinc).2.1).1
  have hall : accepted s.tail.reader.nextSeq N = N := by
    rw [accepted_eq_since hN]
    exact List.filter_eq_self.mpr fun r hr => decide_eq_true (hat.ahead r (by simp [hr]))
  have hreader' := hreader
  rw [hfile] at hreader'
  by_cases hne : p' = []
  · have hread := @Tail.readNewRecords_growing cfg s.tail A N B' p' hjournal hp'
      hat.readOffset hat.logicalBolOffset hsize now reader.incompletePolicy reader hreader'
      fun hp => absurd hne hp
    rw [hall] at hread
    refine ⟨reader.incompletePolicy, fun _ => rfl, fun hp => absurd hne hp, ?_⟩
    simp only [step, Tail.poll, ne_eq, not_true_eq_false, ↓reduceIte, hread, if_pos hne]
  · obtain ⟨policy, hwait, hpend⟩ := hat.waits hp' hne hfile ht hreader
    have hread := Tail.readNewRecords_growing hjournal hp' hat.readOffset hat.logicalBolOffset
      hsize hreader' fun _ => hwait
    rw [hall] at hread
    refine ⟨policy, fun hp => absurd hp hne, fun _ => hpend, ?_⟩
    simp only [step, Tail.poll, ne_eq, not_true_eq_false, ↓reduceIte, hread, if_neg hne]

/-- The position after a poll. -/
theorem At.poll (hat : s.At A (N ++ B') p) (hinc : Increasing (A ++ (N ++ B')))
    (hfile : s.file = journalBytes (A ++ N) ++ encodeUtf8 p') (hp' : StartOf B' p') {now : Rat}
    (ht : s.InTime (.poll now)) (hsome : s.tail.disk.journalFile ≠ none) :
    (s.step (.poll now)).At (A ++ N) B' p' ∧ (s.step (.poll now)).tail.disk = s.tail.disk ∧
      (s.step (.poll now)).tail.reader.skippedInvalidLines =
        s.tail.reader.skippedInvalidLines := by
  let noted : JournalIncrementalReader :=
    { s.tail.reader with lastKnownSize := some s.file.length }
  let reader := N.foldl consume noted
  obtain ⟨policy, hsame, hpending, hstep⟩ :=
    hat.step_poll hinc hfile hp' ht hsome (rfl : reader = _)
  have hoff : reader.readOffset = (journalBytes (A ++ N)).length := by
    rw [consume_readOffset, journalBytes_append, List.length_append, ← hat.readOffset]
  have hbol : reader.logicalBolOffset = some reader.readOffset :=
    consume_logicalBolOffset noted N hat.logicalBolOffset
  obtain ⟨hsize, hskip, -⟩ := consume_frame noted N
  obtain ⟨hmono, hbehind, hlast⟩ := consume_nextSeq noted N
  rw [hstep]
  refine ⟨⟨hfile, hp', List.prefix_rfl, ?_, ?_, hoff, hbol, ?_, ?_, ?_, ?_, ?_⟩, rfl, hskip⟩
  · rw [List.append_assoc]
    exact hat.file
  · rw [hat.returned]
  · intro r hr
    rcases List.mem_append.mp hr with hr | hr
    · exact Nat.lt_of_lt_of_le (hat.behind r hr) hmono
    · exact hbehind r hr
  · intro r hr
    rcases hlast with he | ⟨x, hx, -, he⟩
    · exact he.symm ▸ hat.ahead r (by simp [hr])
    · have hlt := (List.pairwise_append.mp (List.pairwise_append.mp hinc).2.1).2.2 x hx r hr
      exact he.symm ▸ hlt
  · intro size hs
    have hs : reader.lastKnownSize = some size := hs
    rw [hsize] at hs
    obtain rfl := Option.some.inj hs
    exact Nat.le_refl _
  · intro hp
    have hfile' : s.file = journalBytes (A ++ N) := by
      rw [hfile, hp]; exact List.append_nil _
    obtain ⟨hobs, hpend⟩ := hat.idle_of_nil hfile'
    have hcomplete : ¬Incomplete s.file := by
      rw [hfile, incomplete_startOf _ hp']
      exact not_not.mpr hp
    refine ⟨?_, (if_neg hcomplete).trans hobs⟩
    simp only [hsame hp, reader, noted]
    rw [consume_pending]
    split
    · rename_i hN
      exact hpend hN
    · rfl
  · intro hp
    have hincomplete : Incomplete s.file := by
      rw [hfile, incomplete_startOf _ hp']
      exact hp
    exact ⟨s.observed.getD now, hpending hp, .inl ⟨rfl, if_pos hincomplete⟩⟩

end Poll

theorem inv_poll (h : s.Inv rs quarantineFile) (hinc : Increasing rs) {now : Rat}
    (ht : s.InTime (.poll now)) : (s.step (.poll now)).Inv rs quarantineFile := by
  obtain ⟨A, B, p, rfl, hat⟩ := h.position
  obtain ⟨N, B', p', rfl, hfile, hp'⟩ := hat.cut
  by_cases hnone : s.tail.disk.journalFile = none
  · -- there is no file yet
    have hempty : s.file = [] := by rw [file, hnone]; rfl
    have hpolled : s.polled = [] := List.prefix_nil.mp (hempty ▸ hat.grown)
    have hs : s.step (.poll now) = s := by
      have hseen : ¬Incomplete s.file := fun hi => hi.1 hempty
      simp only [step, Tail.poll, ne_eq, not_true_eq_false, ↓reduceIte, Tail.readNewRecords, hnone,
        List.append_nil, hseen]
      rw [hempty, ← hpolled]
    rw [hs]
    exact h
  · obtain ⟨hat', hdisk, hskip⟩ := hat.poll hinc hfile hp' ht hnone
    exact ⟨⟨A ++ N, B', p', by simp, hat'⟩, hdisk ▸ h.quarantineFile, hskip ▸ h.skipped⟩

theorem inv_start (maxWaitSeconds : Rat) (journal : TickJournal cfg) (disk : Disk)
    (ticks : List (TradeTick cfg.toRuntime)) :
    (start maxWaitSeconds journal disk ticks).Inv (DedupLog.number 1 ticks) disk.quarantineFile :=
  ⟨⟨[], DedupLog.number 1 ticks, [], rfl, rfl, .inl rfl, List.prefix_rfl, rfl, rfl, rfl, rfl,
    by simp, fun _ hr => (DedupLog.mem_number hr).1, nofun, fun _ => ⟨rfl, rfl⟩,
    fun hp => absurd rfl hp⟩, rfl, rfl⟩

/-- **Whatever the chunks and the polls, if the chunks come in time the reader has returned the
records whose lines were complete, in order, each once, and it has quarantined nothing.** -/
theorem live_polling_exact (maxWaitSeconds : Rat) (journal : TickJournal cfg) (disk : Disk)
    (ticks : List (TradeTick cfg.toRuntime)) {ops : List LiveOp}
    (h : Run.Each step InTime (start maxWaitSeconds journal disk ticks) ops) :
    Run.Always step (Delivered (DedupLog.number 1 ticks) disk.quarantineFile)
      (start maxWaitSeconds journal disk ticks) ops := by
  have hinv : Run.Always step (Inv (DedupLog.number 1 ticks) disk.quarantineFile)
      (start maxWaitSeconds journal disk ticks) ops := by
    refine Run.always_of_each (P := InTime) (fun s op hs ht => ?_)
      (inv_start maxWaitSeconds journal disk ticks) h
    cases op with
    | write count => exact inv_write hs count
    | poll now => exact inv_poll hs (DedupLog.pairwise_number 1 ticks) ht
  exact hinv.mono fun s hs => hs.delivered

/-- Two lines in three chunks, with polls inside both of them. -/
def threeChunks : List LiveOp :=
  [.write 50, .poll 0, .poll 1, .write 60, .poll 2, .poll 3, .write 72, .poll 4]

theorem live_polling_exact_threeChunks :
    Run.Always step (Delivered (DedupLog.number 1
        [readmeTick ['B'] ['1'], readmeTick ['B'] ['2']]) [])
      (start 2 (.new .empty) .empty [readmeTick ['B'] ['1'], readmeTick ['B'] ['2']] :
        Live .default) threeChunks :=
  live_polling_exact 2 (.new .empty) .empty _ (by decide +kernel)

end Live

end Leviathan

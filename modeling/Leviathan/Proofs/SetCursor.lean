import Leviathan.Journal.Readme
import Leviathan.Journal.StreamLemmas
import Leviathan.Lib.Run

/-!
# `set_cursor` between two records of a poll

A collector appends to a journal that a stream follows. `set_cursor` moves the cursor, the queue and
the reader of the stream; what it does not reach are the records of the last poll that the loop
still has to pass.

* `clean_cut`: **where these records are none, or start with the first wanted record, the ticks
  returned after `set_cursor(c)` are the accepted records past `c`, in order and without a gap.**
* `stale_records_returned`: the loop goes on with the records of the poll after a rewind.
-/

namespace Leviathan

open Py JournalTickStream

variable {cfg : Config}

/-- A collector and a stream on one directory. -/
structure Cut (cfg : Config) where
  collector : TickJournal cfg
  /-- its `tail` holds the directory -/
  stream : JournalTickStream cfg
  /-- the records appended so far -/
  appended : List (Rec cfg.toRuntime)
  /-- the argument of the last `set_cursor`, or the cursor that the stream was opened with -/
  cut : Nat
  /-- what `wait_for_next_tick` has returned since, with the sequence numbers -/
  returned : List (Rec cfg.toRuntime)

inductive CutOp (cfg : Config) where
  | append (tick : TradeTick cfg.toRuntime)
  | flushMeta
  /-- a new process opens the journal and the stream -/
  | openStream (maxWaitSeconds : Rat) (symbols : List Str)
  | startStreaming
  | stop
  /-- the streaming task is cancelled -/
  | cancel
  | poll (now : Rat)
  /-- the loop reaches the next record; `raised` tells that an observer raises -/
  | record (raised : Bool)
  | wait
  | mark
  | setCursor (lastProcessedSeq : Nat)

/-- The steps of the loop's task and of the consumer. -/
def CutOp.Own : CutOp cfg → Prop
  | .startStreaming | .cancel | .poll _ | .record _ | .wait => True
  | _ => False

namespace Cut

def disk (s : Cut cfg) : Disk := s.stream.tail.disk

/-- A stream in an empty directory. -/
def start (maxWaitSeconds : Rat) (symbols : List Str) : Cut cfg :=
  ⟨.new .empty, .new maxWaitSeconds (.new .empty) .empty symbols, [], 0, []⟩

/-- The directory after a call of the collector. -/
def withDisk (s : Cut cfg) (disk : Disk) : JournalTickStream cfg :=
  { s.stream with tail := { s.stream.tail with disk } }

def step (s : Cut cfg) : CutOp cfg → Cut cfg
  | .append tick =>
    let (collector, disk, _) := s.collector.append s.disk tick
    { s with
      collector, stream := s.withDisk disk
      appended := if s.collector.Accepts tick
        then s.appended ++ [(s.collector.latestSeq + 1, tick)] else s.appended }
  | .flushMeta =>
    let (collector, disk, _) := s.collector.flushMeta s.disk
    { s with collector, stream := s.withDisk disk }
  | .openStream maxWaitSeconds symbols =>
    { s with
      stream := .new maxWaitSeconds (.new s.disk) s.disk symbols
      cut := TickJournal.loadCursor s.disk
      returned := [] }
  | .startStreaming => { s with stream := s.stream.startStreaming }
  | .stop => { s with stream := s.stream.stop }
  | .cancel => { s with stream := s.stream.endStreaming }
  | .poll now => { s with stream := s.stream.tailFollowPoll now }
  | .record raised => { s with stream := s.stream.tailFollowRecord raised }
  | .wait =>
    match s.stream.waitForNextTick with
    | none => s
    | some (stream, _) =>
      { s with stream, returned := s.returned ++ s.stream.queue.items.take 1 }
  | .mark => { s with stream := s.stream.markTickAsProcessed.1 }
  | .setCursor lastProcessedSeq =>
    match s.stream.setCursor lastProcessedSeq with
    | (stream, .error _) => { s with stream }
    | (stream, .ok ()) => { s with stream, cut := lastProcessedSeq, returned := [] }

/-- The accepted records from `n` on. -/
def acceptedSince (symbols : List Str) (n : Nat) (rs : List (Rec cfg.toRuntime)) :
    List (Rec cfg.toRuntime) :=
  (since n rs).filter (accepts symbols)

/-- What is to be returned after the last `set_cursor`. -/
def wanted (s : Cut cfg) : List (Rec cfg.toRuntime) :=
  acceptedSince s.stream.symbols (s.cut + 1) s.appended

/-- What the consumer got since the last `set_cursor` is right, and so is what it will get. -/
structure CleanCut (s : Cut cfg) : Prop where
  /-- no accepted record past the cut is skipped, and no other record is returned -/
  inOrder : s.returned <+: s.wanted
  /-- a stream that has caught up has returned them all -/
  caughtUp : s.stream.records = [] → s.stream.queue.items = [] →
    (∀ r ∈ s.appended, r.1 < s.stream.nextSeq) → s.returned = s.wanted
  /-- the loop and the consumer can always get there -/
  complete : ∃ more : List (CutOp cfg), (∀ op ∈ more, op.Own) ∧
    (Run.exec step s more).returned = s.wanted

/-- `set_cursor(c)` finds no record of the last poll that the loop still has to pass, or `c` is a
number of the journal and the accepted records past it start with those. -/
def NotStale (s : Cut cfg) : CutOp cfg → Prop
  | .setCursor lastProcessedSeq => ∀ r ∈ s.stream.records.head?,
    lastProcessedSeq ≤ s.collector.latestSeq ∧
      ∀ x ∈ s.appended, accepts s.stream.symbols x → (lastProcessedSeq < x.1 ↔ r.1 ≤ x.1)
  | _ => True

instance (s : Cut cfg) : ∀ op, Decidable (s.NotStale op)
  | .setCursor lastProcessedSeq => inferInstanceAs (Decidable (∀ r ∈ s.stream.records.head?,
    lastProcessedSeq ≤ s.collector.latestSeq ∧
      ∀ x ∈ s.appended, accepts s.stream.symbols x → (lastProcessedSeq < x.1 ↔ r.1 ≤ x.1)))
  | .append _ | .flushMeta | .openStream _ _ | .startStreaming | .stop | .cancel | .poll _
  | .record _ | .wait | .mark => .isTrue trivial

/-- What every state of a run has. -/
structure Inv (s : Cut cfg) : Prop where
  sound : s.collector.Sound s.disk s.appended
  reads : s.stream.tail.Reads s.appended
  batch : ∃ A B, s.appended = A ++ (s.stream.records ++ B)
  idle : s.stream.streaming = false → s.stream.records = []
  -- where the loop goes on is where the next poll would begin, but for rejected records
  gap : acceptedSince s.stream.symbols s.stream.nextSeq s.appended =
    acceptedSince s.stream.symbols s.stream.readFrom s.appended
  delivered : s.returned ++ (s.stream.queue.items ++
    acceptedSince s.stream.symbols s.stream.readFrom s.appended) = s.wanted
  -- only before its first record the loop may be past the journal
  tip : s.stream.readFrom = s.cut + 1 ∨
    s.cut ≤ s.collector.latestSeq ∧ s.stream.readFrom ≤ s.collector.latestSeq + 1
  bounded : s.stream.records ≠ [] → s.stream.nextSeq ≤ s.collector.latestSeq + 1

variable {s : Cut cfg}

theorem inv_start (maxWaitSeconds : Rat) (symbols : List Str) :
    (start maxWaitSeconds symbols : Cut cfg).Inv :=
  ⟨.empty, .new maxWaitSeconds TickJournal.Sound.empty.readable, ⟨[], [], rfl⟩, fun _ => rfl, rfl,
    rfl, .inl rfl, fun h => absurd rfl h⟩

/-! ## The collector -/

theorem acceptedSince_append (symbols : List Str) (n : Nat) (rs rs' : List (Rec cfg.toRuntime)) :
    acceptedSince symbols n (rs ++ rs') = acceptedSince symbols n rs ++ acceptedSince symbols n rs' := by
  simp only [acceptedSince, since, List.filter_append]

theorem acceptedSince_congr (symbols : List Str) {m n : Nat} {r : Rec cfg.toRuntime}
    (h : m ≤ r.1 ↔ n ≤ r.1) : acceptedSince symbols m [r] = acceptedSince symbols n [r] := by
  simp only [acceptedSince, since, List.filter_cons, h, List.filter_nil]

/-- A call of the collector that appends no record. -/
theorem Inv.rebase (h : s.Inv) {collector : TickJournal cfg} {disk : Disk}
    (hs : collector.Sound disk s.appended) (hl : collector.latestSeq = s.collector.latestSeq) :
    ({ s with collector, stream := s.withDisk disk } : Cut cfg).Inv :=
  ⟨hs, h.reads.grow List.prefix_rfl hs.readable, h.batch, h.idle, h.gap, h.delivered, hl ▸ h.tip,
    hl ▸ h.bounded⟩

theorem inv_append (h : s.Inv) (tick : TradeTick cfg.toRuntime) : (s.step (.append tick)).Inv := by
  by_cases ha : s.collector.Accepts tick
  · let r : Rec cfg.toRuntime := (s.collector.latestSeq + 1, tick)
    have hr : r.1 = s.collector.latestSeq + 1 := rfl
    have hsound := h.sound.append ha
    have hlatest : (s.collector.append s.disk tick).1.latestSeq = s.collector.latestSeq + 1 :=
      (TickJournal.append_current h.sound.current ha).latestSeq
    have htip := h.tip
    have hs : s.step (.append tick) =
        { s with
          collector := (s.collector.append s.disk tick).1
          stream := s.withDisk (s.collector.append s.disk tick).2.1
          appended := s.appended ++ [r] } := by
      simp only [step, ha, ↓reduceIte, r]
    have hcut : acceptedSince s.stream.symbols s.stream.readFrom [r] =
        acceptedSince s.stream.symbols (s.cut + 1) [r] :=
      acceptedSince_congr _ (by omega)
    have hnext : acceptedSince s.stream.symbols s.stream.nextSeq [r] =
        acceptedSince s.stream.symbols s.stream.readFrom [r] := by
      cases hb : s.stream.records with
      | nil => rw [readFrom_nil hb]
      | cons x records =>
        obtain ⟨A, B, hAB⟩ := h.batch
        have hx := (h.sound.numbers x (by simp [hAB, hb])).2
        have hn := h.bounded (by simp [hb])
        have hread := readFrom_cons hb
        exact acceptedSince_congr _ (by omega)
    rw [hs]
    refine ⟨hsound, h.reads.grow (List.prefix_append _ _) hsound.readable, ?_, h.idle, ?_, ?_, ?_,
      ?_⟩
    · obtain ⟨A, B, hAB⟩ := h.batch
      exact ⟨A, B ++ [r], by simp only [hAB, withDisk, List.append_assoc]⟩
    · show acceptedSince s.stream.symbols s.stream.nextSeq (s.appended ++ [r]) =
        acceptedSince s.stream.symbols s.stream.readFrom (s.appended ++ [r])
      rw [acceptedSince_append, acceptedSince_append, h.gap, hnext]
    · show s.returned ++ (s.stream.queue.items ++
        acceptedSince s.stream.symbols s.stream.readFrom (s.appended ++ [r])) =
          acceptedSince s.stream.symbols (s.cut + 1) (s.appended ++ [r])
      rw [acceptedSince_append, acceptedSince_append, hcut, ← wanted, ← h.delivered]
      simp only [List.append_assoc]
    · simp only [hlatest]
      exact htip.imp_right fun ht => ⟨by omega, Nat.le_succ_of_le ht.2⟩
    · simp only [hlatest]
      exact fun hb => Nat.le_succ_of_le (h.bounded hb)
  · have hs : s.step (.append tick) =
        { s with
          collector := (s.collector.append s.disk tick).1
          stream := s.withDisk (s.collector.append s.disk tick).2.1 } := by
      simp only [step, ha, ↓reduceIte]
    rw [hs]
    exact h.rebase (h.sound.append_rejected ha) (TickJournal.append_rejected ha s.disk).latestSeq

/-! ## The stream -/

/-- A step that the loop and the queue do not see. -/
theorem Inv.same (h : s.Inv) {stream : JournalTickStream cfg} (hsame : SameLoop s.stream stream) :
    ({ s with stream } : Cut cfg).Inv := by
  have hread : stream.readFrom = s.stream.readFrom := by
    simp only [readFrom, hsame.records, hsame.nextSeq]
  refine ⟨h.sound.congr hsame.journalFile hsame.metaFile,
    h.reads.congr hsame.reader hsame.journal hsame.journalFile hsame.metaFile, ?_, fun hs => ?_, ?_,
    ?_, ?_, ?_⟩
  · rw [hsame.records]; exact h.batch
  · exact (hsame.streaming hs).elim id fun hs => hsame.records.trans (h.idle hs)
  · rw [hread, hsame.symbols, hsame.nextSeq]; exact h.gap
  · rw [hread, wanted, hsame.symbols, hsame.items]; exact h.delivered
  · rw [hread]; exact h.tip
  · rw [hsame.records, hsame.nextSeq]; exact h.bounded

/-- The records from the first of a batch on. -/
theorem since_batch {rs A B : List (Rec cfg.toRuntime)} {r : Rec cfg.toRuntime}
    (hinc : Increasing rs) (hrs : rs = A ++ r :: B) :
    since r.1 rs = r :: B ∧ since (r.1 + 1) rs = B := by
  subst hrs
  obtain ⟨-, hB, hA⟩ := List.pairwise_append.mp hinc
  obtain ⟨hr, -⟩ := List.pairwise_cons.mp hB
  have hbefore : ∀ x ∈ A, x.1 < r.1 := fun x hx => hA x hx r (by simp)
  have hall : since (r.1 + 1) B = B :=
    List.filter_eq_self.mpr fun x hx => decide_eq_true (hr x hx)
  have hall' : since r.1 B = B :=
    List.filter_eq_self.mpr fun x hx => decide_eq_true (Nat.le_of_lt (hr x hx))
  constructor
  · rw [since_append hbefore]
    have := hall'
    simp only [since, List.filter_cons, Nat.le_refl, decide_true, ↓reduceIte] at this ⊢
    rw [this]
  · rw [since_append fun x hx => Nat.lt_succ_of_lt (hbefore x hx)]
    have := hall
    simp only [since, List.filter_cons, Nat.not_succ_le_self, decide_false, Bool.false_eq_true,
      ↓reduceIte] at this ⊢
    rw [this]

/-- After the record `r`, the loop goes on with what is left of its records, or with a new poll. -/
theorem readFrom_record (h : s.Inv) {A B records : List (Rec cfg.toRuntime)}
    {r : Rec cfg.toRuntime} (hAB : s.appended = A ++ r :: (records ++ B))
    {stream : JournalTickStream cfg} (hnext : stream.nextSeq = r.1 + 1)
    (hrecords : stream.records = records ∨ stream.records = []) :
    since stream.readFrom s.appended = records ++ B ∧
      stream.readFrom ≤ s.collector.latestSeq + 1 := by
  have hinc := h.sound.increasing
  cases hs : stream.records with
  | nil =>
    have hread := (readFrom_nil hs).trans hnext
    have := (h.sound.numbers r (by simp [hAB])).2
    rw [hread]
    exact ⟨(since_batch hinc hAB).2, by omega⟩
  | cons x rest =>
    obtain rfl : records = x :: rest := by
      rcases hrecords with he | he
      · exact he.symm.trans hs
      · rw [hs] at he; cases he
    have hread := readFrom_cons hs
    have := (h.sound.numbers x (by simp [hAB])).2
    rw [hread]
    refine ⟨(since_batch (A := A ++ [r]) (B := rest ++ B) hinc ?_).1, by omega⟩
    rw [hAB]
    simp

/-- The next record of the loop. -/
theorem inv_record (h : s.Inv) (raised : Bool) : (s.step (.record raised)).Inv := by
  cases hb : s.stream.records with
  | nil =>
    have hs : s.step (.record raised) = s := by simp only [step, tailFollowRecord, hb]
    rw [hs]
    exact h
  | cons r records =>
    obtain ⟨hpassed, hrecords⟩ := tailFollowRecord_passed hb raised
    obtain ⟨A, B, hAB⟩ := h.batch
    rw [hb, List.cons_append] at hAB
    have hleft : (s.stream.tailFollowRecord raised).records = records ∨
        (s.stream.tailFollowRecord raised).records = [] :=
      hrecords.imp And.left And.right
    obtain ⟨hfrom, hfrom'⟩ := readFrom_record h hAB hpassed.nextSeq hleft
    obtain ⟨hall, hrest⟩ := since_batch h.sound.increasing hAB
    have hr := (h.sound.numbers r (by simp [hAB])).2
    have hread := readFrom_cons hb
    refine ⟨h.sound.congr hpassed.journalFile hpassed.metaFile,
      h.reads.congr hpassed.reader hpassed.journal hpassed.journalFile hpassed.metaFile, ?_,
      fun hs => ?_, ?_, ?_, .inr ⟨?_, hfrom'⟩, fun _ => ?_⟩
    · rcases hleft with he | he
      · exact ⟨A ++ [r], B, by simp only [step, he, hAB, List.append_assoc, List.singleton_append]⟩
      · exact ⟨s.appended, [], by simp only [step, he, List.append_nil]⟩
    · rcases hrecords with ⟨-, he⟩ | ⟨-, he⟩
      · have := h.idle (he.symm.trans hs)
        rw [hb] at this
        cases this
      · exact he
    · show acceptedSince _ (s.stream.tailFollowRecord raised).nextSeq s.appended = _
      rw [hpassed.nextSeq]
      exact congrArg (List.filter _) (hrest.trans hfrom.symm)
    · have hgot : acceptedSince s.stream.symbols s.stream.readFrom s.appended =
          [r].filter (accepts s.stream.symbols) ++
            (records ++ B).filter (accepts s.stream.symbols) := by
        rw [acceptedSince, hread, hall, ← List.filter_append]
        rfl
      have hdel := h.delivered
      rw [hgot] at hdel
      show s.returned ++ ((s.stream.tailFollowRecord raised).queue.items ++
        (since (s.stream.tailFollowRecord raised).readFrom s.appended).filter
          (accepts (s.stream.tailFollowRecord raised).symbols)) =
          acceptedSince (s.stream.tailFollowRecord raised).symbols (s.cut + 1) s.appended
      rw [hpassed.symbols, hpassed.items, hfrom, List.append_assoc]
      exact hdel
    · have := h.tip
      show s.cut ≤ s.collector.latestSeq
      omega
    · show (s.stream.tailFollowRecord raised).nextSeq ≤ s.collector.latestSeq + 1
      rw [hpassed.nextSeq]
      omega

theorem inv_cancel (h : s.Inv) : (s.step .cancel).Inv := by
  have hread : (s.step .cancel).stream.readFrom = s.stream.nextSeq := rfl
  have htip : s.stream.nextSeq = s.cut + 1 ∨
      s.cut ≤ s.collector.latestSeq ∧ s.stream.nextSeq ≤ s.collector.latestSeq + 1 := by
    cases hb : s.stream.records with
    | nil =>
      exact readFrom_nil hb ▸ h.tip
    | cons r records =>
      obtain ⟨A, B, hAB⟩ := h.batch
      have hr := (h.sound.numbers r (by simp [hAB, hb])).2
      have hn := h.bounded (by simp [hb])
      have hread := readFrom_cons hb
      have := h.tip
      omega
  refine ⟨h.sound, h.reads, ⟨s.appended, [], (List.append_nil _).symm⟩, fun _ => rfl, rfl, ?_,
    hread ▸ htip, fun hb => absurd rfl hb⟩
  rw [hread]
  exact h.gap ▸ h.delivered

/-- After a poll the loop goes on with the first record of the poll, if there is one. -/
theorem Inv.readFrom_poll (h : s.Inv) {now : Rat}
    (hrecords : (s.stream.tailFollowPoll now).records = since s.stream.nextSeq s.appended)
    (hnext : (s.stream.tailFollowPoll now).nextSeq = s.stream.nextSeq) :
    since (s.stream.tailFollowPoll now).readFrom s.appended =
        since s.stream.nextSeq s.appended ∧
      ((s.stream.tailFollowPoll now).readFrom = s.stream.nextSeq ∧
          (s.stream.tailFollowPoll now).records = [] ∨
        s.stream.nextSeq ≤ (s.stream.tailFollowPoll now).readFrom ∧
          (s.stream.tailFollowPoll now).readFrom ≤ s.collector.latestSeq) := by
  have hcut := before_append_since h.sound.increasing s.stream.nextSeq
  cases hb : (s.stream.tailFollowPoll now).records with
  | nil =>
    have hfrom := (readFrom_nil hb).trans hnext
    rw [hfrom]
    exact ⟨rfl, .inl ⟨rfl, rfl⟩⟩
  | cons x rest =>
    have hx : x :: rest = since s.stream.nextSeq s.appended := hb.symm.trans hrecords
    obtain ⟨hmem, hle⟩ := mem_since.mp (hx ▸ List.mem_cons_self)
    rw [readFrom_cons hb, ← hx]
    exact ⟨(since_batch h.sound.increasing (hx ▸ hcut.symm)).1,
      .inr ⟨hle, (h.sound.numbers x hmem).2⟩⟩

/-- A poll. -/
theorem inv_poll (h : s.Inv) (now : Rat) : (s.step (.poll now)).Inv := by
  by_cases hrun : s.stream.streaming = false ∨ s.stream.records ≠ []
  · have hs : s.step (.poll now) = s := by
      simp only [step, tailFollowPoll, hrun, ↓reduceIte]
    rw [hs]
    exact h
  obtain ⟨hstream, hnil⟩ := not_or.mp hrun
  have hstream := Bool.not_eq_false _ ▸ hstream
  have hnil := not_not.mp hnil
  have hread := readFrom_nil hnil
  by_cases hstop : s.stream.stopped = true
  · have hs : s.stream.tailFollowPoll now = s.stream.endStreaming := by
      simp only [tailFollowPoll, hrun, hstop, ↓reduceIte]
    have hend := h.same (endStreaming_sameLoop hnil)
    simp only [step, hs]
    exact hend
  · obtain ⟨hrecords, hreads, hstill⟩ := tailFollowPoll_readable h.reads hstream
      (Bool.eq_false_iff.mpr hstop) hnil now
    obtain ⟨hsame, hfiles, hsymbols, -⟩ := s.stream.tailFollowPoll_any now
    have hcut := before_append_since h.sound.increasing s.stream.nextSeq
    have hnext := hsame.nextSeq
    obtain ⟨hsince, hfrom⟩ := h.readFrom_poll hrecords hnext
    have htip := h.tip
    rw [hread] at htip
    refine ⟨h.sound.congr hfiles.journalFile hfiles.metaFile, hreads,
      ⟨before s.stream.nextSeq s.appended, [], ?_⟩, fun hs => ?_, ?_, ?_, ?_, fun hb => ?_⟩
    · show s.appended = _ ++ ((s.stream.tailFollowPoll now).records ++ [])
      rw [hrecords, List.append_nil, hcut]
    · rw [show (s.step (.poll now)).stream.streaming = true from hstill] at hs
      cases hs
    · show acceptedSince _ (s.stream.tailFollowPoll now).nextSeq s.appended = _
      rw [hnext]
      exact congrArg (List.filter _) hsince.symm
    · show s.returned ++ ((s.stream.tailFollowPoll now).queue.items ++
        (since (s.stream.tailFollowPoll now).readFrom s.appended).filter
          (accepts (s.stream.tailFollowPoll now).symbols)) =
        acceptedSince (s.stream.tailFollowPoll now).symbols (s.cut + 1) s.appended
      rw [hsymbols, hsame.queue, hsince, ← hread]
      exact h.delivered
    · show (s.stream.tailFollowPoll now).readFrom = s.cut + 1 ∨ s.cut ≤ s.collector.latestSeq ∧
        (s.stream.tailFollowPoll now).readFrom ≤ s.collector.latestSeq + 1
      omega
    · have hb : (s.stream.tailFollowPoll now).records ≠ [] := hb
      show (s.stream.tailFollowPoll now).nextSeq ≤ s.collector.latestSeq + 1
      rcases hfrom with ⟨-, he⟩ | hfrom
      · exact absurd he hb
      · omega

/-! ## The consumer and the cursor -/

theorem inv_wait (h : s.Inv) : (s.step .wait).Inv := by
  cases hq : s.stream.queue.items with
  | nil =>
    have hs : s.step .wait = s := by simp only [step, waitForNextTick, hq]
    rw [hs]
    exact h
  | cons r items =>
    have hs : s.step .wait =
        { s with
          stream := { s.stream with
            queue := { s.stream.queue with items }
            pendingSeq := some r.1
            pendingInvalidatedByCursor := false }
          returned := s.returned ++ [r] } := by
      simp only [step, waitForNextTick, hq]
      rfl
    have hdel := h.delivered
    rw [hq] at hdel
    rw [hs]
    refine ⟨h.sound, h.reads.congr rfl rfl rfl rfl, h.batch, h.idle, h.gap, ?_, h.tip, h.bounded⟩
    rw [List.append_assoc]
    exact hdel

theorem inv_setCursor (h : s.Inv) {c : Nat} (hc : s.NotStale (.setCursor c)) :
    (s.step (.setCursor c)).Inv := by
  obtain ⟨stream, hset, hcursor, hreads⟩ := setCursor_readable h.reads c
  have hs : s.step (.setCursor c) = { s with stream, cut := c, returned := [] } := by
    simp only [step, hset]
  -- what the loop goes on with is what the cursor asks for
  obtain ⟨hgap, htip⟩ : acceptedSince s.stream.symbols (c + 1) s.appended =
        acceptedSince s.stream.symbols stream.readFrom s.appended ∧
      (stream.readFrom = c + 1 ∨
        c ≤ s.collector.latestSeq ∧ stream.readFrom ≤ s.collector.latestSeq + 1) := by
    cases hb : s.stream.records with
    | nil =>
      have hread := (readFrom_nil (hcursor.records.trans hb)).trans hcursor.nextSeq
      rw [hread]
      exact ⟨rfl, .inl rfl⟩
    | cons r records =>
      obtain ⟨A, B, hAB⟩ := h.batch
      obtain ⟨hle, hiff⟩ := hc r (by simp [hb])
      have hr := (h.sound.numbers r (by simp [hAB, hb])).2
      rw [readFrom_cons (hcursor.records.trans hb)]
      refine ⟨?_, .inr ⟨hle, by omega⟩⟩
      simp only [acceptedSince, since, List.filter_filter]
      apply List.filter_congr
      intro x hx
      cases hacc : accepts s.stream.symbols x with
      | false => rfl
      | true => exact decide_eq_decide.mpr (hiff x hx hacc)
  rw [hs]
  refine ⟨h.sound.congr hcursor.journalFile hcursor.metaFile, hreads, ?_, fun hstream => ?_, ?_, ?_,
    htip, fun hb => ?_⟩
  · rw [hcursor.records]; exact h.batch
  · exact hcursor.records.trans (h.idle (hcursor.streaming.symm.trans hstream))
  · rw [hcursor.symbols, hcursor.nextSeq]
    exact hgap
  · rw [wanted, hcursor.symbols, hcursor.items]
    exact hgap.symm
  · rw [hcursor.nextSeq]
    simp only [hcursor.records] at hb
    obtain ⟨r, hr⟩ : ∃ r, r ∈ s.stream.records.head? :=
      Option.ne_none_iff_exists'.mp fun he => hb (List.head?_eq_none_iff.mp he)
    exact Nat.succ_le_succ (hc r hr).1

theorem inv_step (s : Cut cfg) (op : CutOp cfg) (h : s.Inv) (hc : s.NotStale op) :
    (s.step op).Inv := by
  cases op with
  | append tick => exact inv_append h tick
  | flushMeta => exact h.rebase h.sound.flushMeta.1 h.sound.flushMeta.2.latestSeq
  | openStream maxWaitSeconds symbols =>
    exact ⟨h.sound, .new maxWaitSeconds h.sound.readable,
      ⟨s.appended, [], (List.append_nil _).symm⟩, fun _ => rfl, rfl, rfl, .inl rfl,
      fun hb => absurd rfl hb⟩
  | startStreaming => exact h.same (startStreaming_sameLoop h.idle)
  | stop => exact h.same s.stream.stop_sameLoop
  | cancel => exact inv_cancel h
  | poll now => exact inv_poll h now
  | record raised => exact inv_record h raised
  | wait => exact inv_wait h
  | mark => exact h.same s.stream.markTickAsProcessed_sameLoop
  | setCursor lastProcessedSeq => exact inv_setCursor h hc

/-! ## To the end of the journal -/

/-- The loop and the consumer change neither the journal nor the cut. -/
theorem own_step (s : Cut cfg) (op : CutOp cfg) (h : op.Own) :
    (s.step op).wanted = s.wanted ∧ s.NotStale op := by
  cases op with
  | startStreaming =>
    refine ⟨?_, trivial⟩
    simp only [step, wanted, startStreaming]
    split <;> rfl
  | cancel => exact ⟨rfl, trivial⟩
  | poll now =>
    refine ⟨?_, trivial⟩
    obtain ⟨-, -, hsymbols, -⟩ := s.stream.tailFollowPoll_any now
    simp only [step, wanted, hsymbols]
  | record raised =>
    refine ⟨?_, trivial⟩
    cases hb : s.stream.records with
    | nil => simp only [step, tailFollowRecord, hb]
    | cons r records =>
      simp only [step, wanted, (tailFollowRecord_passed hb raised).1.symbols]
  | wait =>
    refine ⟨?_, trivial⟩
    simp only [step, waitForNextTick]
    cases s.stream.queue.items <;> rfl
  | append tick => exact h.elim
  | flushMeta => exact h.elim
  | openStream maxWaitSeconds symbols => exact h.elim
  | stop => exact h.elim
  | mark => exact h.elim
  | setCursor lastProcessedSeq => exact h.elim

theorem own_exec {more : List (CutOp cfg)} (hown : ∀ op ∈ more, op.Own) (h : s.Inv) :
    (Run.exec step s more).wanted = s.wanted ∧ (Run.exec step s more).Inv := by
  induction more generalizing s with
  | nil => exact ⟨rfl, h⟩
  | cons op more ih =>
    obtain ⟨hwanted, hstale⟩ := s.own_step op (hown op (by simp))
    obtain ⟨hw, hinv⟩ := ih (fun x hx => hown x (by simp [hx])) (inv_step s op h hstale)
    exact ⟨hw.trans hwanted, hinv⟩

theorem exec_records (s : Cut cfg) (n : Nat) :
    Run.exec step s (List.replicate n (.record false)) =
      { s with stream := (fun stream => stream.tailFollowRecord false)^[n] s.stream } := by
  induction n generalizing s with
  | zero => rfl
  | succ n ih => exact ih (s.step (.record false))

/-- The consumer takes what is in the queue. -/
theorem exec_waits (s : Cut cfg) :
    (Run.exec step s (List.replicate s.stream.queue.items.length .wait)).returned =
      s.returned ++ s.stream.queue.items := by
  induction hq : s.stream.queue.items generalizing s with
  | nil => exact (List.append_nil _).symm
  | cons r items ih =>
    have hs : (s.step .wait).stream.queue.items = items ∧
        (s.step .wait).returned = s.returned ++ [r] := by
      simp only [step, waitForNextTick, hq, List.take_succ_cons, List.take_zero, and_self]
    have := ih (s.step .wait) hs.1
    rw [hs.2, List.append_assoc] at this
    exact this

/-- To pass the records of the last poll, to poll again, to pass its records, and to take every
tick. -/
theorem Inv.complete (h : s.Inv) : ∃ more : List (CutOp cfg), (∀ op ∈ more, op.Own) ∧
    (Run.exec step s more).returned = s.wanted := by
  let ops₁ : List (CutOp cfg) :=
    List.replicate s.stream.records.length (.record false) ++ [.cancel, .startStreaming]
  have hown₁ : ∀ op ∈ ops₁, op.Own := by
    intro op hop
    simp only [ops₁, List.mem_append, List.mem_replicate, List.mem_cons, List.not_mem_nil,
      or_false] at hop
    rcases hop with ⟨-, rfl⟩ | rfl | rfl <;> trivial
  obtain ⟨hw₁, h₁⟩ := own_exec hown₁ h
  let s₁ := Run.exec step s ops₁
  have hnil : s₁.stream.records = [] ∧ s₁.stream.streaming = true ∧ s₁.stream.stopped = false := by
    simp only [s₁, ops₁, Run.exec, List.foldl_append]
    exact ⟨rfl, rfl, rfl⟩
  -- the poll reads the rest of the journal
  obtain ⟨hrecords, -, -⟩ :=
    tailFollowPoll_readable h₁.reads hnil.2.1 hnil.2.2 hnil.1 0
  obtain ⟨hsame, -, hsymbols, -⟩ := s₁.stream.tailFollowPoll_any 0
  let s₂ := s₁.step (.poll 0)
  let s₃ := Run.exec step s₂ (List.replicate s₂.stream.records.length (.record false))
  have hs₃ : s₃ = _ := exec_records s₂ s₂.stream.records.length
  have hitems : s₃.stream.queue.items = s₁.stream.queue.items ++
      acceptedSince s₁.stream.symbols s₁.stream.nextSeq s₁.appended := by
    rw [hs₃]
    refine (iterate_records s₂.stream).1.trans ?_
    show (s₁.stream.tailFollowPoll 0).queue.items ++
      (s₁.stream.tailFollowPoll 0).records.filter
        (accepts (s₁.stream.tailFollowPoll 0).symbols) = _
    rw [hsame.queue, hsymbols, hrecords]
    rfl
  have hreturned : s₃.returned = s₁.returned := by rw [hs₃]; rfl
  refine ⟨ops₁ ++ ([.poll 0] ++ (List.replicate s₂.stream.records.length (.record false) ++
    List.replicate s₃.stream.queue.items.length .wait)), fun op hop => ?_, ?_⟩
  · rcases List.mem_append.mp hop with hop | hop
    · exact hown₁ op hop
    · simp only [List.mem_append, List.mem_replicate, List.mem_singleton] at hop
      rcases hop with rfl | ⟨-, rfl⟩ | ⟨-, rfl⟩ <;> trivial
  · have hdel := h₁.delivered
    rw [readFrom_nil hnil.1] at hdel
    have hexec : Run.exec step s (ops₁ ++ ([.poll 0] ++
        (List.replicate s₂.stream.records.length (.record false) ++
          List.replicate s₃.stream.queue.items.length .wait))) =
        Run.exec step s₃ (List.replicate s₃.stream.queue.items.length .wait) := by
      simp only [Run.exec, List.foldl_append]
      rfl
    rw [hexec, exec_waits, hitems, hreturned, ← hw₁]
    exact hdel

theorem Inv.cleanCut (h : s.Inv) : s.CleanCut := by
  refine ⟨⟨_, h.delivered⟩, fun hnil hitems hall => ?_, h.complete⟩
  have hdel := h.delivered
  have hsince : acceptedSince s.stream.symbols s.stream.readFrom s.appended = [] := by
    rw [readFrom_nil hnil, acceptedSince, since_eq_nil.mpr hall]
    rfl
  rwa [hsince, hitems, List.append_nil, List.append_nil] at hdel

/-- **Where no `set_cursor` finds stale records, the ticks that are returned after it are the
accepted records past the cursor: in order, without a gap, and in the end all of them.** -/
theorem clean_cut (maxWaitSeconds : Rat) (symbols : List Str) {ops : List (CutOp cfg)}
    (h : Run.Each step NotStale (start maxWaitSeconds symbols) ops) :
    Run.Always step CleanCut (start maxWaitSeconds symbols) ops := by
  have hinv : Run.Always step Inv (start maxWaitSeconds symbols) ops :=
    Run.always_of_each inv_step (inv_start maxWaitSeconds symbols) h
  exact hinv.mono fun s hs => hs.cleanCut

/-- Three records are polled, and the stream is rewound to `c` when `delivered` of them are. -/
def rewoundRun (delivered c : Nat) : List (CutOp .default) :=
  [.append (readmeTick ['B'] ['1']), .append (readmeTick ['B'] ['2']),
    .append (readmeTick ['B'] ['3']), .startStreaming, .poll 0] ++
  List.replicate delivered (.record false) ++ [.setCursor c, .record false, .wait]

theorem clean_cut_rewound : Run.Always step CleanCut (start 2 []) (rewoundRun 3 0) :=
  clean_cut 2 [] (by decide +kernel)

/-- **The rewind to the start is followed by record 2.** -/
theorem stale_records_returned :
    ¬Run.Always step CleanCut (start 2 []) (rewoundRun 1 0) := by
  intro h
  have hskipped : ¬(Run.exec step (start 2 []) (rewoundRun 1 0)).returned <+:
      (Run.exec step (start 2 []) (rewoundRun 1 0)).wanted := by
    decide +kernel
  exact hskipped h.last.inOrder

end Cut

end Leviathan

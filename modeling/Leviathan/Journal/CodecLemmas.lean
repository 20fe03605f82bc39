import Leviathan.Journal.Compactor
import Leviathan.Py.JsonLemmas
import Leviathan.Py.TextLemmas

/-!
# The line of a record

What the readers of the journal make of one line that `append` wrote:

* `framed_recordBytes`, `decodeLine_recordBytes`: it is one line, for a binary and for a text
  handle.
* `parse_encodeRecord`: the parser gives the record back.
* `resolveLine_recordBytes`: the walk of the index reads its sequence number.
* `loadRecordSeq_recordText`: compaction writes it again as it is.
-/

namespace Leviathan

open Py

variable {rt : Runtime}

/-- The line of a record without its `\n`: the text that `json.loads` gets, as the parser strips the
line first. -/
def recordText (seq : Int) (tick : TickFields) : Str := dumps (recordDict seq tick)

/-- No key is written twice into a record, so `loads` gives it back as it was. -/
theorem wf_recordDict (seq : Int) (tick : TickFields) : (recordDict seq tick).Wf := by
  have h₁ : [seqKey, tickKey].Nodup := by decide
  have h₂ : tickRequiredFields.Nodup := by decide
  exact ⟨h₁, trivial, ⟨h₂, trivial, trivial, trivial, trivial, trivial, trivial, trivial⟩, trivial⟩

theorem printable_recordText (seq : Int) (tick : TickFields) : Printable (recordText seq tick) :=
  printable_dumps _

theorem dumpsMembers_last (ms : List (Str × Json)) : ∃ u, dumpsMembers ms = u ++ ['}'] := by
  induction ms with
  | nil => exact ⟨[], rfl⟩
  | cons m ms ih =>
    obtain ⟨k, v⟩ := m
    cases ms with
    | nil => exact ⟨_, rfl⟩
    | cons m' ms =>
      obtain ⟨u, hu⟩ := ih
      exact ⟨dumpsStr k ++ ':' :: dumps v ++ ',' :: u, by simp [dumpsMembers, hu]⟩

/-- The line begins with `{"seq` and ends with `}`, so it has no blank at either end that `strip`
could take off. -/
theorem recordText_ends (seq : Int) (tick : TickFields) :
    (∃ t, recordText seq tick = '{' :: '"' :: 's' :: t) ∧
      ∃ u, recordText seq tick = '{' :: u ++ ['}'] := by
  constructor
  · simp only [recordText, recordDict, dumps, dumpsMembers, dumpsStr, seqKey, List.flatMap_cons]
    exact ⟨_, rfl⟩
  · obtain ⟨u, hu⟩ := dumpsMembers_last [(seqKey, .int seq), (tickKey, tickToDict tick)]
    exact ⟨u, by simp only [recordText, recordDict, dumps, hu, List.cons_append]⟩

/-! ## As bytes -/

theorem framed_recordBytes (r : Rec rt) : Framed (recordBytes rt r) :=
  framed_printable (printable_recordText _ _)

/-- The line of a record as a text handle yields it: its bytes, by which `tell` moves on, and its
text with the `\n`. -/
def recordLine (r : Rec rt) : TextLine := ⟨recordBytes rt r, encodeRecord r.1 r.2.fields⟩

/-- The file is opened with `encoding="utf-8"`, and the line of a record is always valid UTF-8. -/
theorem decodeLine_recordBytes (r : Rec rt) : decodeLine (recordBytes rt r) = some (recordLine r) :=
  (decodeLine_printable (printable_recordText r.1 r.2.fields)).1

theorem recordBytes_eq (r : Rec rt) :
    recordBytes rt r = encodeUtf8 (recordText r.1 r.2.fields) ++ [LF] :=
  encodeUtf8_append _ _

theorem endsWithNewline_recordLine (r : Rec rt) :
    endsWithNewline (recordLine r).text = true := by
  simp [endsWithNewline, recordLine, encodeRecord]

theorem recordBytes_pos (r : Rec rt) : 0 < (recordBytes rt r).length := by
  simp [recordBytes_eq]

/-! ## As text -/

theorem stripBy_ends {α : Type} {p : α → Bool} {a b : α} (l : List α) (ha : p a = false)
    (hb : p b = false) : stripBy p (a :: l ++ [b]) = a :: l ++ [b] := by
  simp only [stripBy, List.cons_append]
  rw [List.dropWhile_cons_of_neg (by simp [ha]), ← List.cons_append,
    List.rdropWhile_concat_neg _ _ _ (by simp [hb])]

theorem stripBy_ends_space {α : Type} {p : α → Bool} {a b s : α} (l : List α) (ha : p a = false)
    (hb : p b = false) (hs : p s = true) :
    stripBy p (a :: l ++ [b] ++ [s]) = a :: l ++ [b] := by
  have hd : (a :: l ++ [b] ++ [s]).dropWhile p = a :: l ++ [b] ++ [s] :=
    List.dropWhile_cons_of_neg (by simp [ha])
  rw [stripBy, hd, List.rdropWhile_concat_pos _ _ _ hs,
    List.rdropWhile_concat_neg _ _ _ (by simp [hb])]

/-- `line.strip()` takes off the `\n` and nothing else, since neither end of the record is a blank.
Stripping a second time changes nothing, as the reader's and the compactor's calls of it need. -/
theorem strip_encodeRecord (seq : Int) (tick : TickFields) :
    strip (encodeRecord seq tick) = recordText seq tick ∧
      strip (recordText seq tick) = recordText seq tick := by
  obtain ⟨u, hu⟩ := (recordText_ends seq tick).2
  have hb : isSpace '{' = false := by decide
  have he : isSpace '}' = false := by decide
  refine ⟨?_, by rw [hu]; exact stripBy_ends u hb he⟩
  show stripBy isSpace (recordText seq tick ++ ['\n']) = _
  rw [hu]
  exact stripBy_ends_space u hb he (by decide)

theorem recordText_ne_nil (seq : Int) (tick : TickFields) : recordText seq tick ≠ [] := by
  obtain ⟨u, hu⟩ := (recordText_ends seq tick).2
  simp [hu]

theorem loads_recordText (seq : Int) (tick : TickFields) :
    loads (recordText seq tick) = some (recordDict seq tick) :=
  loads_dumps (wf_recordDict seq tick)

theorem getItem_seq (seq : Int) (tick : TickFields) :
    getItem [(seqKey, .int seq), (tickKey, tickToDict tick)] seqKey = .ok (.int seq) := rfl

theorem getItem_tick (seq : Int) (tick : TickFields) :
    getItem [(seqKey, .int seq), (tickKey, tickToDict tick)] tickKey = .ok (tickToDict tick) := rfl

theorem TradeTick.new_fields (tick : TradeTick rt) : TradeTick.new rt tick.fields = .ok tick := by
  obtain ⟨f, hf⟩ := tick
  unfold TradeTick.new
  split
  · rfl
  · rename_i e he; rw [hf] at he; cases he

/-- **The codec gives a tick back.** All required fields are there, each conversion gets a value of
its own type, and the constructor checks what it has checked before. -/
theorem tickFromDict_tickToDict (tick : TradeTick rt) :
    tickFromDict rt (tickToDict tick.fields) = .ok tick :=
  TradeTick.new_fields tick

theorem recordFields_recordDict (seq : Int) (tick : TradeTick rt) :
    recordFields rt [(seqKey, .int seq), (tickKey, tickToDict tick.fields)] = .ok (seq, tick) := by
  simp only [recordFields, getItem_seq, getItem_tick]
  show (do let tick ← tickFromDict rt (tickToDict tick.fields); pure (seq, tick)) = _
  rw [tickFromDict_tickToDict]
  rfl

/-- **The parser gives a record back.** No error branch of `parse_journal_record_line` is taken on a
line that `append` wrote. -/
theorem parse_encodeRecord (seq : Int) (tick : TradeTick rt) :
    parseJournalRecordLine rt (encodeRecord seq tick.fields) = .ok (some (.record seq tick)) := by
  unfold parseJournalRecordLine
  simp only [(strip_encodeRecord seq tick.fields).1, recordText_ne_nil, loads_recordText, recordDict,
    recordFields_recordDict, ↓reduceIte]

/-- What the index walk and the compactor read from a line, `json.loads` and then
`int(record["seq"])`, is the number that `append` gave it. -/
theorem loadRecordSeq_recordText (seq : Int) (tick : TickFields) :
    loadRecordSeq rt (recordText seq tick) =
      .ok ([(seqKey, .int seq), (tickKey, tickToDict tick)], seq) := by
  unfold loadRecordSeq
  rw [loads_recordText]
  rfl

theorem stripBytes_recordBytes (r : Rec rt) :
    stripBytes (recordBytes rt r) = encodeUtf8 (recordText r.1 r.2.fields) := by
  obtain ⟨u, hu⟩ := (recordText_ends r.1 r.2.fields).2
  have hb : encodeUtf8 (recordText r.1 r.2.fields) = 123 :: encodeUtf8 u ++ [125] := by
    rw [hu, encodeUtf8_append]; rfl
  rw [recordBytes_eq, hb]
  exact stripBy_ends_space _ (by decide) (by decide) (by decide)

/-- **The walk of the index reads the sequence number of a record.** It works on bytes, so its line
is stripped before it is decoded. -/
theorem resolveLine_recordBytes (r : Rec rt) :
    resolveLine rt (recordBytes rt r) = .ok (some (r.1 : Int)) := by
  have hne : encodeUtf8 (recordText r.1 r.2.fields) ≠ [] := by
    obtain ⟨u, hu⟩ := (recordText_ends r.1 r.2.fields).2
    rw [hu, encodeUtf8_append]
    simp [encodeUtf8]
  unfold resolveLine
  simp only [stripBytes_recordBytes, hne, decodeUtf8_ascii (printable_recordText _ _).ascii,
    loadRecordSeq_recordText, ↓reduceIte]

end Leviathan

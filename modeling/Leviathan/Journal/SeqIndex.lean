import Leviathan.Journal.Meta

/-!
# The sparse index

`record` keeps a checkpoint `(seq, byte offset)` for every `seqIndexInterval`-th record, and
`byteOffsetForSeq` turns a sequence number into the byte offset where a read begins: the index gives
a hint (`indexedHint`), and a walk over the lines of the file ends at the first record that is not
before it (`resolve`).
-/

namespace Leviathan

open Py

/-- `record = json.loads(text)` and `int(record["seq"])`, in that order. A value that is not an
object raises the `TypeError` of its subscript, and all but an `OverflowError` of `int` are among
the exceptions that the callers catch. -/
def loadRecordSeq (rt : Runtime) (text : Str) : Except PyError (Dict Str Json × Int) :=
  match loads text with
  | none => .error (.valueError (rt.decodeErrorText text))
  | some (.obj record) => do
    let seq ← pyInt rt (← getItem record seqKey)
    return (record, seq)
  | some (.arr _) => .error (.typeError "list indices must be integers or slices, not str".toList)
  | some (.str _) => .error (.typeError "string indices must be integers, not 'str'".toList)
  | some x => .error (.typeError (['\''] ++ typeName x ++ "' object is not subscriptable".toList))

/-- `_SEQ_INDEX_MAX_ENTRIES`. It is irreducible, so that no proof evaluates a list of that length.
-/
@[irreducible] def seqIndexMaxEntries : Nat := 256

variable {cfg : Config}

/-- `index[-_SEQ_INDEX_MAX_ENTRIES:]`: the latest entries stay, so a trimmed index no longer begins
at the start of the file. -/
def trimIndex (index : List (Nat × Nat)) : List (Nat × Nat) :=
  SymbolDedupBucket.lastN seqIndexMaxEntries index

/-- `int(index[-1][0])` of an index that is not empty, as `record` makes sure before it looks. -/
def lastSeq (index : List (Nat × Nat)) : Nat := (index.getLast?.getD (0, 0)).1

/-- The index after a record, before it is trimmed. A checkpoint is added for every `interval`-th
number, and never for one that is not past the last checkpoint. -/
def grownIndex (interval : Nat) (index : List (Nat × Nat)) (seq byteOffset : Nat) :
    List (Nat × Nat) :=
  let index := if index = [] then [(0, 0)] else index
  if seq = 0 ∨ (seq % interval = 0 ∧ seq > lastSeq index) then index ++ [(seq, byteOffset)]
  else index

namespace MetaStore

/-- `TickJournalSeqIndex.record`. The list of the store is grown in place and only replaced when it
has become too long. -/
def recordSeqIndex (store : MetaStore cfg) (seq byteOffset : Nat) : MetaStore cfg :=
  let index := grownIndex cfg.seqIndexInterval store.seqIndex seq byteOffset
  store.replaceSeqIndex (if index.length > seqIndexMaxEntries then trimIndex index else index)

/-- `replace_and_trim`, which a compaction calls with the index that it has built anew. -/
def replaceAndTrim (store : MetaStore cfg) (index : List (Nat × Nat)) : MetaStore cfg :=
  store.replaceSeqIndex (trimIndex index)

end MetaStore

/-- The loop of `indexed_hint`: the offset of the last of the leading entries that are not past
`startSeq`, and `chosen` when there is none. It ends at the first entry past `startSeq`. -/
def chooseHint (startSeq : Nat) : List (Nat × Nat) → Nat → Nat
  | [], chosen => chosen
  | (seqValue, byteOffset) :: index, chosen =>
    if seqValue ≤ startSeq then chooseHint startSeq index byteOffset else chosen

/-- `indexed_hint`: where a walk to `startSeq` may begin. Without an entry that is not past it, that
is the start of the file. -/
def MetaStore.indexedHint (store : MetaStore cfg) (startSeq : Nat) : Nat :=
  chooseHint startSeq store.seqIndex 0

/-- `offset`, or the start of the next line when the byte before it is no `\n`: a hint that does not
point to a line start makes the walk begin behind the line that it points into. -/
def skipToLineStart (file : Bytes) (offset : Nat) : Nat :=
  if offset > 0 then
    if file[offset - 1]? ≠ some LF then
      offset + ((byteLines (file.drop offset)).headD []).length
    else offset
  else 0

/-- What `resolve` makes of a complete line: its sequence number, or `none` for a line it skips. It
skips blank lines and what it catches; an `OverflowError` of `int` is not among that and leaves the
walk. -/
def resolveLine (rt : Runtime) (line : Bytes) : Except PyError (Option Int) :=
  let stripped := stripBytes line
  if stripped = [] then .ok none
  else match decodeUtf8 stripped with
    | none => .ok none
    | some text =>
      match loadRecordSeq rt text with
      | .ok (_, seq) => .ok (some seq)
      | .error (.overflowError text) => .error (.overflowError text)
      | .error _ => .ok none

/-- The walk of `resolve` over the lines from `lineStart` on. It ends at the first record that is
not before `startSeq`, at an incomplete last line, or at the end of the file. -/
def resolveFrom (rt : Runtime) (startSeq : Nat) : Nat → List Bytes → Except PyError Nat
  | lineStart, [] => .ok lineStart
  | lineStart, line :: lines =>
    if endsWithLF line = false then .ok lineStart
    else match resolveLine rt line with
      | .error e => .error e
      | .ok none => resolveFrom rt startSeq (lineStart + line.length) lines
      | .ok (some seq) =>
        if seq ≥ startSeq then .ok lineStart
        else resolveFrom rt startSeq (lineStart + line.length) lines

/-- `TickJournalSeqIndex.resolve`: from the hint of the index to the offset where a read for
`startSeq` begins. Without a journal file the hint itself is returned. -/
def resolve (rt : Runtime) (journalFile : Option Bytes) (startSeq indexedOffset : Nat) :
    Except PyError Nat :=
  match journalFile with
  | none => .ok indexedOffset
  | some file =>
    -- a hint from before a rewrite may lie past the end of the file
    let offset := if indexedOffset > file.length then 0 else indexedOffset
    let offset := skipToLineStart file offset
    resolveFrom rt startSeq offset (byteLines (file.drop offset))

/-- `byte_offset_for_seq`. The first two numbers are sought at the start of the file without a look
at the index. -/
def MetaStore.byteOffsetForSeq (store : MetaStore cfg) (journalFile : Option Bytes)
    (startSeq : Nat) : Except PyError Nat :=
  if startSeq ≤ 1 then .ok 0
  else resolve cfg.toRuntime journalFile startSeq (store.indexedHint startSeq)

end Leviathan

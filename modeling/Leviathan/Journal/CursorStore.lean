import Leviathan.Journal.MetaJson
import Leviathan.Lib.AtomicFile

/-!
# `TickJournalCursorStore`

The cursor of a consumer is a JSON object in a file of its own. `save` replaces the file with
`atomic_write_json`; `load` accepts any file.

* `TickJournalCursor`: `to_dict` and `from_dict`.
* `TickJournalCursorStore.load`: the cursor of a file, or the exception.
* `CursorFile.step`: one call to the operating system of a `save`, or its death.
-/

namespace Leviathan

open Py

/-! ## The value -/

/-- A value that is an instance of `int`: a number, or one of the two booleans, which `isinstance`
takes for one. -/
inductive IntValue where
  | int (i : Int)
  /-- a `bool` is one too -/
  | bool (b : Bool)
  deriving DecidableEq

namespace IntValue

/-- `int(x)`. -/
def toInt : IntValue → Int
  | .int i => i
  | .bool b => if b then 1 else 0

/-- The value as `json.dumps` sees it: a boolean is written as one. -/
def toJson : IntValue → Json
  | .int i => .int i
  | .bool b => .bool b

/-- A value that `isinstance(x, int)` accepts, which a float is not. -/
def ofJson? : Json → Option IntValue
  | .int i => some (.int i)
  | .bool b => some (.bool b)
  | _ => none

theorem ofJson?_toJson (x : IntValue) : ofJson? x.toJson = some x := by
  cases x <;> rfl

end IntValue

/-- `TickJournalCursor`. Its constructor takes any value, and only `from_dict` checks it. -/
structure TickJournalCursor where
  lastProcessedSeq : IntValue
  deriving DecidableEq

namespace TickJournalCursor

def lastProcessedSeqKey : Str := "last_processed_seq".toList

/-- `TickJournalCursor()`, the cursor of a directory without a file. -/
def default : TickJournalCursor := ⟨.int 0⟩

def toDict (cursor : TickJournalCursor) : Json :=
  .obj [(lastProcessedSeqKey, cursor.lastProcessedSeq.toJson)]

def notDict : PyError := .typeError "cursor data must be a dictionary".toList

def notSeq : PyError := .valueError "last_processed_seq must be a non-negative integer".toList

def fromDict : Json → Except PyError TickJournalCursor
  | .obj data =>
    match IntValue.ofJson? ((Dict.get? data lastProcessedSeqKey).getD (.int 0)) with
    | some seq => if seq.toInt < 0 then .error notSeq else .ok ⟨seq⟩
    | none => .error notSeq
  | _ => .error notDict

/-- What `save` writes: the object of `to_dict`, as `atomic_write_json` encodes it. -/
def bytes (cursor : TickJournalCursor) : Bytes := encodeUtf8 (dumps cursor.toDict)

/-- A cursor that `from_dict` accepts: its number is not negative. -/
def Valid (cursor : TickJournalCursor) : Prop := 0 ≤ cursor.lastProcessedSeq.toInt

instance (cursor : TickJournalCursor) : Decidable cursor.Valid := inferInstanceAs (Decidable (_ ≤ _))

theorem fromDict_toDict (cursor : TickJournalCursor) :
    fromDict cursor.toDict = if cursor.Valid then .ok cursor else .error notSeq := by
  have hget : Dict.get? [(lastProcessedSeqKey, cursor.lastProcessedSeq.toJson)]
      lastProcessedSeqKey = some cursor.lastProcessedSeq.toJson := by simp [Dict.get?]
  simp only [fromDict, toDict, hget, Option.getD_some, IntValue.ofJson?_toJson]
  by_cases hvalid : cursor.Valid
  · rw [if_pos hvalid, if_neg (Int.not_lt.mpr hvalid)]
  · rw [if_neg hvalid, if_pos (Int.not_le.mp hvalid)]

theorem wf_toDict (cursor : TickJournalCursor) : cursor.toDict.Wf := by
  obtain ⟨seq⟩ := cursor
  refine ⟨List.nodup_singleton _, ?_, trivial⟩
  cases seq <;> trivial

/-- What `from_dict` accepts is valid; it raises on a number below 0 and on what is no integer. -/
theorem valid_of_fromDict {data : Json} {cursor : TickJournalCursor}
    (h : fromDict data = .ok cursor) : cursor.Valid := by
  unfold fromDict at h
  split at h
  · split at h
    · split at h
      · cases h
      · rename_i seq _ hneg
        cases h
        exact Int.not_lt.mp hneg
    · cases h
  · cases h

end TickJournalCursor

/-! ## The store -/

/-- `TickJournalCursorStore`, with the path that its errors name. -/
structure TickJournalCursorStore where
  cursorPath : Str
  cursorPath_ne : cursorPath ≠ []

namespace TickJournalCursorStore

/-- The exception for a file that is not valid JSON, which names the path. -/
def notJson (store : TickJournalCursorStore) : PyError :=
  .valueError ("tick journal cursor is not valid JSON: ".toList ++ store.cursorPath)

/-- `load`, of the bytes of the file if there is one. Without a file it is the default cursor. -/
def load (rt : Runtime) (store : TickJournalCursorStore) :
    Option Bytes → Except PyError TickJournalCursor
  | none => .ok .default
  | some file =>
    match readText file with
    -- no `JSONDecodeError`, so it is not caught
    | none => .error (.unicodeDecodeError (rt.unicodeErrorText file))
    | some text =>
      match loads text with
      | none => .error store.notJson
      | some payload => TickJournalCursor.fromDict payload

/-- What a file is loaded as that `save` wrote: the cursor, or the error of a negative one. -/
theorem load_bytes (rt : Runtime) (store : TickJournalCursorStore) (cursor : TickJournalCursor) :
    store.load rt (some cursor.bytes) =
      if cursor.Valid then .ok cursor else .error TickJournalCursor.notSeq := by
  simp only [load, TickJournalCursor.bytes, readText_printable (printable_dumps _),
    loads_dumps cursor.wf_toDict, TickJournalCursor.fromDict_toDict]

/-- **A loaded cursor is valid**, whatever the file holds, as all else raises. -/
theorem valid_of_load {rt : Runtime} {store : TickJournalCursorStore} {file : Option Bytes}
    {cursor : TickJournalCursor} (h : store.load rt file = .ok cursor) : cursor.Valid := by
  unfold load at h
  split at h
  · cases h
    exact Int.le_refl 0
  · split at h
    · cases h
    · split at h
      · cases h
      · exact TickJournalCursor.valid_of_fromDict h

end TickJournalCursorStore

/-! ## The file -/

/-- The file of a cursor store, the call of `save` that runs, and the cursors that were saved. -/
structure CursorFile where
  disk : AtomicFile UInt8
  /-- the argument of that call -/
  saving : Option TickJournalCursor
  /-- the arguments of the calls that returned -/
  saved : List TickJournalCursor

inductive CursorFileOp where
  /-- `save(cursor)` opens the temporary file -/
  | save (cursor : TickJournalCursor)
  /-- the next `count` bytes reach it -/
  | write (count : Nat)
  /-- `os.replace`, when the handle is flushed -/
  | replace
  /-- a call to the operating system raises, or the process dies -/
  | fail

namespace CursorFile

/-- A process that has not saved yet finds `file`, from an earlier one or from none. -/
def start (file : Option Bytes) : CursorFile := ⟨.ofFile file, none, []⟩

def step (s : CursorFile) : CursorFileOp → CursorFile
  | .save cursor =>
    match s.saving with
    | some _ => s
    | none => { s with disk := s.disk.step (.openTemp cursor.bytes), saving := some cursor }
  | .write count => { s with disk := s.disk.step (.write count) }
  | .replace =>
    match s.saving, s.disk.save with
    | some cursor, some ⟨_, []⟩ =>
      ⟨s.disk.step .replace, none, s.saved ++ [cursor]⟩
    | _, _ => s
  | .fail => { s with disk := s.disk.step .abandon, saving := none }

end CursorFile

end Leviathan

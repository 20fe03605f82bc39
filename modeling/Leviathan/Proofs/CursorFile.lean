import Leviathan.Journal.CursorStore
import Leviathan.Journal.TickJournal

/-!
# A cursor file is a register

A process saves cursors, and any of its calls may end anywhere: a call to the operating system
raises, or the process dies and another one goes on with what is on the disk.

* `CursorFile.Inv`: the file has what the last call that returned has saved.
* `Inv.load_eq_loadCursor`: it is the cursor file of `Disk`.
* `load_eq_last`: **every load gives the cursor of the last `save` that returned.**
-/

namespace Leviathan

open Py

namespace CursorFile

/-- The file has the last cursor, and the temporary file is of the call that runs. -/
structure Inv (file : Option Bytes) (s : CursorFile) : Prop where
  file : s.disk.file = (s.saved.getLast?.map TickJournalCursor.bytes).or file
  saving : s.disk.save.map Save.text = s.saving.map TickJournalCursor.bytes

variable {file : Option Bytes} {s : CursorFile}

theorem inv_start (file : Option Bytes) : (start file).Inv file := ⟨rfl, rfl⟩

theorem Inv.step (h : s.Inv file) (op : CursorFileOp) : (s.step op).Inv file := by
  cases op with
  | save cursor =>
    cases hsaving : s.saving with
    | some other =>
      simp only [CursorFile.step, hsaving]
      exact h
    | none =>
      simp only [CursorFile.step, hsaving]
      exact ⟨h.file, by simp [AtomicFile.step, Save.text]⟩
  | write count =>
    exact ⟨(s.disk.step_write_file count).trans h.file, (s.disk.step_write_text count).trans h.saving⟩
  | replace =>
    cases hsaving : s.saving with
    | none =>
      simp only [CursorFile.step, hsaving]
      exact h
    | some cursor =>
      obtain ⟨save, hsave, htext⟩ : ∃ save, s.disk.save = some save ∧ save.text = cursor.bytes := by
        have hsome := h.saving
        rw [hsaving] at hsome
        exact Option.map_eq_some_iff.mp hsome
      obtain ⟨written, rest⟩ := save
      cases rest with
      | cons b rest =>
        simp only [CursorFile.step, hsaving, hsave]
        exact h
      | nil =>
        simp only [CursorFile.step, hsaving, hsave]
        rw [s.disk.step_replace hsave rfl]
        refine ⟨?_, rfl⟩
        simp [htext]
  | fail => exact ⟨h.file, rfl⟩

/-- The journal's cursor after a list of saves. -/
theorem cursorFile_foldl_saveCursor (seqs : List Nat) (disk : Disk) :
    (seqs.foldl TickJournal.saveCursor disk).cursorFile = seqs.getLast?.or disk.cursorFile := by
  induction seqs using List.reverseRecOn with
  | nil => rfl
  | append_singleton seqs seq ih => simp [TickJournal.saveCursor]

/-- **The file refines the cursor of the journal's `Disk`**: a load gives what `load_cursor` gives
after the calls of `save_cursor` that returned. -/
theorem Inv.load_eq_loadCursor (h : s.Inv none) {seqs : List Nat}
    (hseqs : s.saved = seqs.map fun seq => ⟨.int seq⟩) (rt : Runtime)
    (store : TickJournalCursorStore) :
    store.load rt s.disk.file =
      .ok ⟨.int (TickJournal.loadCursor (seqs.foldl TickJournal.saveCursor .empty))⟩ := by
  have hlast : s.saved.getLast? = seqs.getLast?.map fun seq => ⟨.int seq⟩ := by
    rw [hseqs, List.getLast?_map]
  rw [h.file, hlast, TickJournal.loadCursor, cursorFile_foldl_saveCursor]
  cases seqs.getLast? with
  | none => rfl
  | some seq =>
    have hvalid : TickJournalCursor.Valid ⟨.int seq⟩ := Int.natCast_nonneg seq
    rw [Option.map_some, Option.map_some, Option.some_or, Option.some_or, store.load_bytes,
      if_pos hvalid]
    rfl

/-- **Every load gives the cursor of the last `save` that returned**, or raises where that cursor is
negative, wherever a call was cut off. The other calls of `save` leave no trace. -/
theorem load_eq_last (rt : Runtime) (store : TickJournalCursorStore) (file : Option Bytes)
    (ops : List CursorFileOp) :
    Run.Always CursorFile.step (fun s => store.load rt s.disk.file =
      match s.saved.getLast? with
      | none => store.load rt file
      | some cursor => if cursor.Valid then .ok cursor else .error TickJournalCursor.notSeq)
      (start file) ops := by
  have hstep : ∀ (s : CursorFile) op, s.Inv file → (s.step op).Inv file := fun s op h => h.step op
  refine (Run.always_of_step hstep (inv_start file) ops).mono ?_
  intro s h
  rw [h.file]
  cases s.saved.getLast? with
  | none => rfl
  | some cursor => exact store.load_bytes rt cursor

end CursorFile

end Leviathan

import Leviathan.Lib.Run

/-!
# Files that are replaced as a whole

A writer writes the new contents to a temporary file beside the file, piece by piece, and then
renames the temporary file to the file. It may stop at any point and leave the temporary file
behind; a later save begins with an empty one. One save runs at a time.

* `AtomicFile.step`: one call to the operating system, or the end of a save that is given up.
* `step_file`: a step leaves the file, or gives it all of the text that is saved.
* `step_write_text`: the text that is saved stays the same while it is written.
* `step_replace`: a text that is all written becomes the contents.
-/

/-- A save in progress: what has reached the temporary file, and what has not. -/
structure Save (β : Type) where
  written : List β
  rest : List β

/-- What is saved. -/
def Save.text {β : Type} (save : Save β) : List β := save.written ++ save.rest

/-- A file, its temporary file, and the save that is in progress. -/
structure AtomicFile (β : Type) where
  file : Option (List β)
  temp : Option (List β)
  save : Option (Save β)
  temp_eq : ∀ s ∈ save, temp = some s.written

inductive AtomicFileOp (β : Type) where
  /-- the temporary file is opened, and is empty -/
  | openTemp (text : List β)
  /-- the next `count` elements reach it -/
  | write (count : Nat)
  /-- it is renamed, where all of the text has reached it -/
  | replace
  /-- the save ends without -/
  | abandon

namespace AtomicFile

variable {β : Type}

/-- A file on which no save runs. -/
def ofFile (file : Option (List β)) : AtomicFile β := ⟨file, none, none, nofun⟩

def step (s : AtomicFile β) : AtomicFileOp β → AtomicFile β
  | .openTemp text => ⟨s.file, some [], some ⟨[], text⟩, by rintro _ ⟨⟩; rfl⟩
  | .write count =>
    match s.save with
    | none => s
    | some save =>
      ⟨s.file, some (save.written ++ save.rest.take count),
        some ⟨save.written ++ save.rest.take count, save.rest.drop count⟩, by rintro _ ⟨⟩; rfl⟩
  | .replace =>
    match s.save with
    | some ⟨_, []⟩ => ⟨s.temp, none, none, nofun⟩
    | _ => s
  | .abandon => ⟨s.file, s.temp, none, nofun⟩

/-- **A step leaves the file**, or gives it all of the text. -/
theorem step_file (s : AtomicFile β) (op : AtomicFileOp β) :
    (s.step op).file = s.file ∨
      op = .replace ∧ (s.step op).save = none ∧ ∃ save ∈ s.save,
        save.rest = [] ∧ (s.step op).file = some save.text := by
  cases op with
  | openTemp text => exact .inl rfl
  | write count =>
    left
    cases hs : s.save <;> simp only [step, hs]
  | replace =>
    cases hs : s.save with
    | none =>
      left
      simp only [step, hs]
    | some save =>
      obtain ⟨written, rest⟩ := save
      cases rest with
      | nil =>
        refine .inr ⟨rfl, by simp only [step, hs], _, rfl, rfl, ?_⟩
        simp only [step, hs, Save.text, List.append_nil]
        exact s.temp_eq _ hs
      | cons b rest =>
        left
        simp only [step, hs]
  | abandon => exact .inl rfl

/-- A text that is saved stays the same while it is written. -/
theorem step_write_text (s : AtomicFile β) (count : Nat) :
    (s.step (.write count)).save.map Save.text = s.save.map Save.text := by
  cases hs : s.save <;> simp [step, hs, Save.text]

theorem step_write_file (s : AtomicFile β) (count : Nat) : (s.step (.write count)).file = s.file := by
  rcases s.step_file (.write count) with h | ⟨h, -⟩
  · exact h
  · cases h

/-- **A text that is all written** becomes the contents. -/
theorem step_replace (s : AtomicFile β) {save : Save β} (h : s.save = some save)
    (hrest : save.rest = []) : s.step .replace = ⟨some save.text, none, none, nofun⟩ := by
  obtain ⟨written, rest⟩ := save
  obtain rfl : rest = [] := hrest
  have htemp := s.temp_eq _ h
  simp [step, h, htemp, Save.text]

end AtomicFile

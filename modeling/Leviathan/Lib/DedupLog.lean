import Mathlib.Data.List.DropRight
import Mathlib.Data.List.Enum

/-!
# Logs with deduplication windows

A log accepts items and numbers them `1, 2, 3, ..` in the order it accepts them. An item has a key
and an identity; it is rejected when its identity is among the last `n` accepted ones of its key. A
prefix of the log can be dropped; the numbers stay.

* `records_append`, `records_dropBefore`: what the two operations do to the numbered items.
* `window_append`: what an accepted item does to the windows.
-/

variable {α κ ι : Type}

/-- The items accepted so far, and how many of them were dropped. -/
structure DedupLog (α : Type) where
  accepted : List α
  dropped : Nat
  dropped_le : dropped ≤ accepted.length

namespace DedupLog

def empty : DedupLog α := ⟨[], 0, Nat.le_refl _⟩

/-- Items with their numbers, the first one `start`. -/
def number (start : Nat) (l : List α) : List (Nat × α) := (l.zipIdx start).map Prod.swap

/-- The items that were not dropped, each with its number. -/
def records (log : DedupLog α) : List (Nat × α) := (number 1 log.accepted).drop log.dropped

def snoc (log : DedupLog α) (a : α) : DedupLog α :=
  ⟨log.accepted ++ [a], log.dropped, by have := log.dropped_le; simp; omega⟩

/-- The log without the items before number `m`. -/
def dropBefore (log : DedupLog α) (m : Nat) : DedupLog α :=
  ⟨log.accepted, max log.dropped (min (m - 1) log.accepted.length), by
    have := log.dropped_le; omega⟩

section Windows

variable [DecidableEq κ] [DecidableEq ι] (key : α → κ) (ident : α → ι) (n : Nat)

/-- The identities of the last `n` accepted items with the key `k`. -/
def window (log : DedupLog α) (k : κ) : List ι :=
  ((log.accepted.filter (key · = k)).map ident).rtake n

def Accepts (log : DedupLog α) (a : α) : Prop := ident a ∉ log.window key ident n (key a)

instance (log : DedupLog α) (a : α) : Decidable (log.Accepts key ident n a) :=
  inferInstanceAs (Decidable (¬_))

end Windows

/-! ## Numbers -/

theorem length_number (start : Nat) (l : List α) : (number start l).length = l.length := by
  simp [number]

theorem number_cons (start : Nat) (a : α) (l : List α) :
    number start (a :: l) = (start, a) :: number (start + 1) l := rfl

theorem number_append (start : Nat) (l l' : List α) :
    number start (l ++ l') = number start l ++ number (start + l.length) l' := by
  simp [number, List.zipIdx_append]

theorem mem_number {start : Nat} {l : List α} {r : Nat × α} (h : r ∈ number start l) :
    start ≤ r.1 ∧ r.1 < start + l.length := by
  obtain ⟨x, hx, rfl⟩ := List.mem_map.mp h
  exact ⟨List.le_snd_of_mem_zipIdx hx, by have := List.snd_lt_add_of_mem_zipIdx hx; simp; omega⟩

theorem pairwise_number (start : Nat) (l : List α) :
    (number start l).Pairwise fun r r' => r.1 < r'.1 := by
  induction l generalizing start with
  | nil => exact .nil
  | cons a l ih =>
    exact List.pairwise_cons.mpr ⟨fun r hr => (mem_number hr).1, ih (start + 1)⟩

theorem drop_number (start d : Nat) (l : List α) :
    (number start l).drop d = number (start + d) (l.drop d) := by
  induction l generalizing start d with
  | nil => simp [number]
  | cons a l ih =>
    cases d with
    | zero => rfl
    | succ d =>
      rw [number_cons, List.drop_succ_cons, List.drop_succ_cons, ih,
        show start + 1 + d = start + (d + 1) by omega]

/-- The numbers from `m` on are an end of a numbering. -/
theorem filter_number (start m : Nat) (l : List α) :
    (number start l).filter (fun r => m ≤ r.1) = (number start l).drop (m - start) := by
  induction l generalizing start with
  | nil => simp [number]
  | cons a l ih =>
    by_cases hm : m ≤ start
    · have h0 : m - start = 0 := by omega
      rw [h0, List.drop_zero, List.filter_eq_self]
      exact fun r hr => decide_eq_true (Nat.le_trans hm (mem_number hr).1)
    · have hs : m - start = m - (start + 1) + 1 := by omega
      rw [number_cons, hs, List.drop_succ_cons, ← ih, List.filter_cons_of_neg (by simpa using hm)]

/-- **An accepted item gets the next number.** -/
theorem records_snoc (log : DedupLog α) (a : α) :
    (log.snoc a).records = log.records ++ [(log.accepted.length + 1, a)] := by
  have hle := log.dropped_le
  rw [records, snoc, number_append, List.drop_append_of_le_length (by rw [length_number]; exact hle),
    Nat.add_comm 1]
  rfl

/-- **A dropped prefix is a prefix of the numbers.** -/
theorem records_dropBefore (log : DedupLog α) (m : Nat) :
    (log.dropBefore m).records = log.records.filter fun r => m ≤ r.1 := by
  have hle := log.dropped_le
  have hfilter : log.records.filter (fun r => m ≤ r.1) =
      log.records.drop (m - (1 + log.dropped)) := by
    rw [records, drop_number, filter_number]
  rw [hfilter, records, records, List.drop_drop]
  show (number 1 log.accepted).drop (max log.dropped (min (m - 1) log.accepted.length)) = _
  by_cases hm : m - 1 ≤ log.accepted.length
  · rw [show max log.dropped (min (m - 1) log.accepted.length) =
      log.dropped + (m - (1 + log.dropped)) by omega]
  · rw [List.drop_eq_nil_of_le, List.drop_eq_nil_of_le] <;> rw [length_number] <;> omega

/-! ## Windows -/

theorem length_rtake (n : Nat) (l : List ι) : (l.rtake n).length = min n l.length := by
  simp [List.rtake]
  omega

/-- The last `n` elements, after one more. -/
theorem rtake_snoc {n : Nat} (hn : 0 < n) (l : List ι) (t : ι) :
    (l ++ [t]).rtake n =
      (if (l.rtake n).length ≥ n then (l.rtake n).tail else l.rtake n) ++ [t] := by
  rw [length_rtake]
  have hdrop : (l ++ [t]).rtake n = l.drop (l.length + 1 - n) ++ [t] := by
    rw [List.rtake, List.drop_append_of_le_length (by simp; omega)]
    simp
  rw [hdrop, List.rtake, List.tail_drop]
  split
  · rw [show l.length + 1 - n = l.length - n + 1 by omega]
  · rw [show l.length + 1 - n = l.length - n by omega]

variable [DecidableEq κ] {key : α → κ} {ident : α → ι} {n : Nat}

/-- **An accepted item enters the window of its key.** -/
theorem window_snoc (hn : 0 < n) (log : DedupLog α) (a : α) (k : κ) :
    (log.snoc a).window key ident n k =
      if k = key a then
        (if (log.window key ident n k).length ≥ n then (log.window key ident n k).tail
          else log.window key ident n k) ++ [ident a]
      else log.window key ident n k := by
  unfold window snoc
  simp only [List.filter_append, List.map_append]
  split
  · rename_i hk
    rw [← rtake_snoc hn]
    simp [hk]
  · rename_i hk
    have : ¬key a = k := fun h => hk h.symm
    simp [this]

end DedupLog

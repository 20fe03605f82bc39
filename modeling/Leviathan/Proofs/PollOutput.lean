import Leviathan.Journal.PollOrder
import Leviathan.Lib.Run

/-!
# The output of a reader over a file that changes

A caller polls one reader and passes the number after the last record it has, or its start while it
has none. Between the polls the directory and the journal object of the reader may become anything,
and a call may be interrupted at any point: `poll_output_increasing`.
-/

namespace Leviathan

open Py

variable {cfg : Config}

/-- `poll` at any integer: a negative one is never what a reader waits for, and `reset_from_seq`
rejects it. -/
def Tail.pollInt (tail : Tail cfg) (now : Rat) (startSeq : Int) :
    Tail cfg × Except PyError (List (Rec cfg.toRuntime)) :=
  if startSeq < 0 then
    (tail, .error (.valueError "start_seq must be a non-negative integer".toList))
  else tail.poll now startSeq.toNat

/-- A reader and the records that its caller has. -/
structure Caller (cfg : Config) where
  tail : Tail cfg
  start : Int
  returned : List (Rec cfg.toRuntime)

inductive CallerOp (cfg : Config) where
  /-- between two polls the files and the journal object become anything -/
  | change (journal : TickJournal cfg) (disk : Disk)
  | poll (now : Rat)
  /-- a call ends by an exception that may come at any point, and leaves the reader anyhow -/
  | interrupted (tail : Tail cfg)

namespace Caller

/-- What the caller passes. -/
def nextStart (s : Caller cfg) : Int :=
  match s.returned.getLast? with
  | none => s.start
  | some r => r.1 + 1

def step (s : Caller cfg) : CallerOp cfg → Caller cfg
  | .change journal disk => { s with tail := { s.tail with journal, disk } }
  | .poll now =>
    match s.tail.pollInt now s.nextStart with
    | (tail, .error _) => { s with tail }
    | (tail, .ok records) => { s with tail, returned := s.returned ++ records }
  | .interrupted tail => { s with tail }

/-- The records of the caller go up from its start, and the next poll starts past them. -/
structure Inv (start : Int) (s : Caller cfg) : Prop where
  sameStart : s.start = start
  increasing : Increasing s.returned
  fromStart : ∀ r ∈ s.returned, start ≤ r.1
  past : ∀ r ∈ s.returned, (r.1 : Int) < s.nextStart

variable {start : Int} {s : Caller cfg}

theorem Inv.start_le (h : Inv start s) : start ≤ s.nextStart := by
  unfold nextStart
  cases hlast : s.returned.getLast? with
  | none => exact h.sameStart.ge
  | some r =>
    have := h.fromStart r (List.mem_of_getLast? hlast)
    simp only
    omega

/-- The records of a poll come after those that the caller has. -/
theorem Inv.append (h : Inv start s) {records : List (Rec cfg.toRuntime)}
    (hinc : Increasing records) (hfrom : ∀ r ∈ records, s.nextStart ≤ (r.1 : Int))
    (tail : Tail cfg) : Inv start { s with tail, returned := s.returned ++ records } := by
  have hincreasing : Increasing (s.returned ++ records) := by
    apply List.pairwise_append.mpr
    refine ⟨h.increasing, hinc, ?_⟩
    intro r hr r' hr'
    have h₁ := h.past r hr
    have h₂ := hfrom r' hr'
    omega
  refine ⟨h.sameStart, hincreasing, ?_, ?_⟩
  · intro r hr
    rcases List.mem_append.mp hr with hr | hr
    · exact h.fromStart r hr
    · exact h.start_le.trans (hfrom r hr)
  · intro r hr
    have hne := List.ne_nil_of_mem hr
    obtain ⟨front, last, hsplit⟩ : ∃ front last, s.returned ++ records = front ++ [last] :=
      ⟨_, _, (List.dropLast_concat_getLast hne).symm⟩
    simp only [hsplit] at hr hincreasing
    simp only [nextStart, hsplit, List.getLast?_concat]
    rcases List.mem_append.mp hr with hr | hr
    · have := (List.pairwise_append.mp hincreasing).2.2 r hr last (List.mem_singleton_self _)
      omega
    · rw [List.mem_singleton.mp hr]
      omega

theorem Inv.step (h : Inv start s) (op : CallerOp cfg) : Inv start (s.step op) := by
  cases op with
  | change journal disk => exact ⟨h.sameStart, h.increasing, h.fromStart, h.past⟩
  | interrupted tail => exact ⟨h.sameStart, h.increasing, h.fromStart, h.past⟩
  | poll now =>
    unfold Caller.step
    simp only
    split
    · exact ⟨h.sameStart, h.increasing, h.fromStart, h.past⟩
    · rename_i tail records heq
      have hpoll := congrArg Prod.snd heq
      unfold Tail.pollInt at hpoll
      split at hpoll
      · cases hpoll
      · rename_i hneg
        obtain ⟨hinc, hfrom⟩ := Tail.poll_increasing hpoll
        apply h.append hinc
        intro r hr
        have := hfrom r hr
        omega

/-- **The records that a caller gets from its polls go up from its start, whatever happens to the
file.** -/
theorem poll_output_increasing (tail : Tail cfg) (start : Int) (ops : List (CallerOp cfg)) :
    let returned := (Run.exec step ⟨tail, start, []⟩ ops).returned
    Increasing returned ∧ (returned.map Prod.fst).Nodup ∧ ∀ r ∈ returned, start ≤ r.1 := by
  have h₀ : Inv start (⟨tail, start, []⟩ : Caller cfg) :=
    ⟨rfl, .nil, nofun, nofun⟩
  have h : Inv start (Run.exec step ⟨tail, start, []⟩ ops) :=
    Run.exec_of_step (fun s op hs => hs.step op) h₀ ops
  refine ⟨h.increasing, ?_, h.fromStart⟩
  apply List.pairwise_map.mpr
  exact h.increasing.imp fun hlt => Nat.ne_of_lt hlt

end Caller

end Leviathan

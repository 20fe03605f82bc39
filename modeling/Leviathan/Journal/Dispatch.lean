import Leviathan.Journal.TickJournal
import Leviathan.State.WriteLiveness

/-!
# `JournalDispatchDecorator`

A dispatcher that appends each tick to the journal, tells the write-liveness guard, and forwards the
tick to the dispatcher inside.
-/

namespace Leviathan

variable {cfg : Config} {policy : LivenessPolicy}

structure JournalDispatchDecorator (cfg : Config) (policy : LivenessPolicy) where
  /-- what the dispatcher inside was given -/
  inner : List (TradeTick cfg.toRuntime)
  journal : TickJournal cfg
  disk : Disk
  writeLivenessGuard : Option (PostReconnectWriteLivenessGuard policy)

/-- `dispatch`, and what it raises: the tick is appended, then the guard is told, and a tick that
the append refuses as a duplicate is told as well. -/
def JournalDispatchDecorator.dispatch (decorator : JournalDispatchDecorator cfg policy)
    (tick : TradeTick cfg.toRuntime) :
    JournalDispatchDecorator cfg policy × Except PyError Unit :=
  match decorator.journal.append decorator.disk tick with
  | (journal, disk, .error e) => ({ decorator with journal, disk }, .error e)
  | (journal, disk, .ok _) =>
    ({ journal, disk
       writeLivenessGuard := decorator.writeLivenessGuard.map fun guard => guard.recordJournalWrite
       inner := decorator.inner ++ [tick] }, .ok ())

end Leviathan

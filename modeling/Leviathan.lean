import Leviathan.Exchanges.BaseStream
import Leviathan.Journal.FileLock
import Leviathan.Lib.LockOrder
import Leviathan.Proofs.AnsweredPings
import Leviathan.Proofs.AnyContent
import Leviathan.Proofs.AnyMeta
import Leviathan.Proofs.AppendFaults
import Leviathan.Proofs.ArmedByAcks
import Leviathan.Proofs.Backoff
import Leviathan.Proofs.BatchIsolation
import Leviathan.Proofs.CleanRestart
import Leviathan.Proofs.Compaction
import Leviathan.Proofs.Confirmations
import Leviathan.Proofs.ConsumerCrash
import Leviathan.Proofs.CrashRestart
import Leviathan.Proofs.CursorFile
import Leviathan.Proofs.DirtyFlag
import Leviathan.Proofs.Dispatcher
import Leviathan.Proofs.DropAccounting
import Leviathan.Proofs.DurableCursor
import Leviathan.Proofs.EndToEnd
import Leviathan.Proofs.FlapReconnect
import Leviathan.Proofs.GuardSafety
import Leviathan.Proofs.IdleFlush
import Leviathan.Proofs.Ledger
import Leviathan.Proofs.LivePolling
import Leviathan.Proofs.NeverTorn
import Leviathan.Proofs.NoDeadlock
import Leviathan.Proofs.Observers
import Leviathan.Proofs.PollOutput
import Leviathan.Proofs.PostFlapSafety
import Leviathan.Proofs.ProgressClasses
import Leviathan.Proofs.ReconnectLoop
import Leviathan.Proofs.RecordCodec
import Leviathan.Proofs.Refinement
import Leviathan.Proofs.Republish
import Leviathan.Proofs.Retention
import Leviathan.Proofs.RetryBudget
import Leviathan.Proofs.Rewind
import Leviathan.Proofs.Seek
import Leviathan.Proofs.SeekCost
import Leviathan.Proofs.SetCursor
import Leviathan.Proofs.SharedMeta
import Leviathan.Proofs.SilenceDetection
import Leviathan.Proofs.SparseSeek
import Leviathan.Proofs.StartApp
import Leviathan.Proofs.StopSilence
import Leviathan.Proofs.SubscribedSet
import Leviathan.Proofs.SymbolFilter
import Leviathan.Proofs.TailFollow
import Leviathan.Proofs.TipLag
import Leviathan.Proofs.TornWrite
import Leviathan.Proofs.TwoWriters
import Leviathan.Proofs.WriteLiveness

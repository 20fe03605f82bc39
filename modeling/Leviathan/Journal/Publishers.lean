import Leviathan.Journal.FileLock
import Leviathan.Journal.SharedStores
import Leviathan.Lib.AtomicFile

/-!
# Publishing, one call to the operating system at a time

The threads of any number of processes work on the stores of one directory. A thread that persists
has the file lock and the thread lock of its store. It compares the tips, opens the temporary file,
writes it piece by piece and renames it; between any two of these steps other threads go on, a call
may raise, and processes may die.

* `Publishers.step`: one such step.
* `Publishers.linearize`: the calls on `SharedStores` that a step stands for. A `persist` stands for
  a call that fails, at its comparison, and one that goes through to `os.replace` stands for a
  second call too, which writes, at the rename.
-/

namespace Leviathan

open Py

/-- Where a thread is in `persist`: not in it, or at a step of `atomic_write_json` with the text
that it writes. -/
inductive PersistStage where
  | idle
  /-- before the temporary file is opened, with what is to be written -/
  | opening (text : Bytes)
  | writing (text : Bytes)
  deriving DecidableEq

/-- The processes that share a directory. A thread `i` works on the store number `inst i`, and takes
the thread lock of its journal inside the file lock. -/
structure Publishers (ι : Type) where
  locks : FileLocks ι
  disk : AtomicFile UInt8
  stores : List (Σ cfg, JsonMetaStore cfg)
  /-- who holds the thread lock of a store -/
  threadLock : Nat → Option ι
  stage : ι → PersistStage
  /-- the process of the store is dead -/
  killed : Nat → Bool
  reads : List (Nat × Int)
  raised : List Nat

inductive PublisherOp (ι : Type) where
  /-- a step of the thread's `JournalFileLock` -/
  | lock (i : ι) (event : LockEvent ι)
  /-- `TickJournalMetaStore(meta_path, ..)` -/
  | create (cfg : Config)
  | lockThread (i : ι)
  | unlockThread (i : ι)
  /-- a call that takes the thread lock for itself, or none for `read_latest_seq_from_disk` -/
  | call (n : Nat) (op : JsonStoreOp)
  /-- a call under the locks that the thread holds -/
  | callLocked (i : ι) (op : JsonStoreOp)
  /-- `persist` reads the file and decides -/
  | compare (i : ι)
  /-- the temporary file is opened, or an `OSError` is raised -/
  | openTemp (i : ι) (raises : Bool)
  | write (i : ι) (count : Nat) (raises : Bool)
  | replace (i : ι) (raises : Bool)
  /-- the processes of these stores die -/
  | kill (dies : Nat → Bool)

namespace Publishers

variable {ι : Type}

/-- No store, and the metadata file that is there. -/
def start (metaFile : Option Bytes) : Publishers ι where
  locks := .start
  disk := .ofFile metaFile
  stores := []
  threadLock := fun _ => none
  stage := fun _ => .idle
  killed := fun _ => false
  reads := []
  raised := []

/-- The calls on the stores, each in one step. -/
def shared (s : Publishers ι) : SharedStores := ⟨s.disk.file, s.stores, s.reads, s.raised⟩

variable [DecidableEq ι] (inst : ι → Nat) (timeoutSeconds : ι → Rat)

/-- An event of the thread's own lock. The thread lock is given back before it. -/
def LockAllowed (s : Publishers ι) (i : ι) (event : LockEvent ι) : Bool :=
  !s.killed (inst i) && match event with
    | .release j => j = i && s.threadLock (inst i) ≠ some i
    | .acquire j _ | .openFile j _ | .tryLock j _ | .close j | .checkDeadline j _ | .wake j
    | .unlock j _ => j = i
    | .kill _ => false

/-- The thread lock is free for the call, or the call does not take it. -/
def CallAllowed (s : Publishers ι) (n : Nat) (op : JsonStoreOp) : Bool :=
  !s.killed n && (s.threadLock n = none || op = .readLatestSeqFromDisk)

/-- The thread holds the locks of its store, and is not in `persist`. -/
def Holds (s : Publishers ι) (i : ι) : Bool :=
  !s.killed (inst i) && s.threadLock (inst i) = some i && s.stage i = .idle

/-- A call of the stores in one step, with the file as it is at that moment. -/
def callShared (s : Publishers ι) (op : SharedStoresOp) : Publishers ι :=
  let shared := s.shared.step op
  { s with stores := shared.stores, reads := shared.reads, raised := shared.raised }

def setStage (s : Publishers ι) (i : ι) (stage : PersistStage) : Publishers ι :=
  { s with stage := Function.update s.stage i stage }

/-- What is to be written by the `persist` of a store, if it writes. -/
def planText (s : Publishers ι) (n : Nat) : Option Bytes :=
  match s.stores[n]? with
  | none => none
  | some ⟨_, store⟩ =>
    match store.planPersist s.disk.file with
    | .publish store => some store.publishedText
    | _ => none

def step (s : Publishers ι) : PublisherOp ι → Publishers ι
  | .lock i event =>
    if s.LockAllowed inst i event then { s with locks := s.locks.step timeoutSeconds event } else s
  | .create cfg => s.callShared (.create cfg)
  | .lockThread i =>
    match s.locks.phase i, s.threadLock (inst i) with
    | .acquired _, none =>
      if s.killed (inst i) then s
      else { s with threadLock := Function.update s.threadLock (inst i) (some i) }
    | _, _ => s
  | .unlockThread i =>
    if s.Holds inst i then { s with threadLock := Function.update s.threadLock (inst i) none }
    else s
  | .call n op => if s.CallAllowed n op then s.callShared (.call n op) else s
  | .callLocked i op => if s.Holds inst i then s.callShared (.call (inst i) op) else s
  | .compare i =>
    if s.Holds inst i then
      let after := s.callShared (.persist (inst i) true)
      match s.planText (inst i) with
      | none => after
      | some text => after.setStage i (.opening text)
    else s
  | .openTemp i raises =>
    match s.stage i with
    | .opening text =>
      if raises then s.setStage i .idle
      else { s.setStage i (.writing text) with disk := s.disk.step (.openTemp text) }
    | _ => s
  | .write i count raises =>
    match s.stage i with
    | .writing _ =>
      if raises then { s.setStage i .idle with disk := s.disk.step .abandon }
      else { s with disk := s.disk.step (.write count) }
    | _ => s
  | .replace i raises =>
    match s.stage i, s.disk.save with
    | .writing _, some ⟨_, []⟩ =>
      if raises then { s.setStage i .idle with disk := s.disk.step .abandon }
      else { s.setStage i .idle with disk := s.disk.step .replace }
    | _, _ => s
  | .kill dies =>
    { s with
      locks := s.locks.killThreads fun i => dies (inst i)
      threadLock := fun n => if dies n then none else s.threadLock n
      stage := fun i => if dies (inst i) then .idle else s.stage i
      killed := fun n => s.killed n || dies n }

/-- The calls in one step that a step stands for. The comparison of a `persist` has changed the
store of the thread, which others may see before the file is written, so it is a call of its own,
one that fails. The rename is another call, one that writes: it finds the store as the first call
has left it. A `persist` that adopts the tip of the file, raises or is killed stands for the first
call alone. -/
def linearize (s : Publishers ι) : PublisherOp ι → List SharedStoresOp
  | .create cfg => [.create cfg]
  | .call n op => if s.CallAllowed n op then [.call n op] else []
  | .callLocked i op => if s.Holds inst i then [.call (inst i) op] else []
  | .compare i => if s.Holds inst i then [.persist (inst i) true] else []
  | .replace i false =>
    match s.stage i, s.disk.save with
    | .writing _, some ⟨_, []⟩ => [.persist (inst i) false]
    | _, _ => []
  | _ => []

end Publishers

end Leviathan

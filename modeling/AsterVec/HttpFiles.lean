import AsterVec.Programs
import AsterVec.StoreFiles
import Mathlib.Algebra.GroupWithZero.Nat
import Mathlib.Data.List.Sort

/-!
The files under a data directory, and what the databases an HTTP server opens on it do to
them: the operation log, the checkpoint that `WriteScope` makes, the metadata file.  Files
that are open are reached by number and stay so when their name is gone.
-/

namespace AsterVec.HttpFiles

open AsterVec.Programs
open AsterVec.StoreFiles (MetaName)

/-- The names that are made under `data_dir`; the graph library and the payload store
number their own. -/
inductive Name where
  | bootstrap
  | logFile
  | creatingMarker
  | metadata (name : MetaName)
  | vectorCount
  | vectorCountTmp
  | vectorLog
  | deleteFile
  | oplogDir
  | segment (firstLsn : Nat)
  | graphFile (number : Nat)
  | payloadDir
  | payloadFile (number : Nat)
deriving DecidableEq, Repr

/-- The directory a name is in, when that is not `data_dir` itself. -/
def Name.dir : Name → Option Name
  | .segment _ => some .oplogDir
  | .payloadFile _ => some .payloadDir
  | _ => none

/-- A file: the indexes it has been a file of, and the databases that created or changed
it when the index was no longer theirs. -/
structure File where
  indexes : List Nat
  strays : List Nat
deriving DecidableEq, Repr

structure Disk where
  entries : List (Name × Nat)
  files : List File
deriving DecidableEq, Repr

namespace Disk

/-- A directory with a file of its own for each name. -/
def fromNames (names : List Name) : Disk :=
  ⟨names.zipIdx, names.map fun _ => ⟨[], []⟩⟩

def find (d : Disk) (name : Name) : Option Nat := d.entries.lookup name

def names (d : Disk) : List Name := d.entries.map Prod.fst

def unlink (d : Disk) (name : Name) : Disk :=
  { d with entries := d.entries.filter fun entry => entry.1 ≠ name }

/-- Database `writer` changes a file while the directory is that of `index`. -/
def change (d : Disk) (writer : Nat) (index : Option Nat) (file : Nat) : Disk :=
  if index = some writer then d
  else { d with files := d.files.modify file fun f => { f with strays := writer :: f.strays } }

/-- Open for writing from the start, with `O_CREAT | O_TRUNC`. -/
def create (d : Disk) (writer : Nat) (index : Option Nat) (name : Name) :
    Option Nat × Disk :=
  if ∀ dir ∈ name.dir, (d.find dir).isSome then
    match d.find name with
    | some file => (some file, d.change writer index file)
    | none =>
        let made : Disk := ⟨(name, d.files.length) :: d.entries,
          d.files ++ [⟨index.toList, []⟩]⟩
        (some d.files.length, made.change writer index d.files.length)
  else (none, d)

def remove (d : Disk) (writer : Nat) (index : Option Nat) (name : Name) : Disk :=
  match d.find name with
  | some file => (d.unlink name).change writer index file
  | none => d

/-- The file under the new name is replaced. -/
def rename (d : Disk) (writer : Nat) (index : Option Nat) (source target : Name) :
    Bool × Disk :=
  match d.find source with
  | some file =>
      let replaced := (d.remove writer index target).unlink source
      (true, { replaced with entries := (target, file) :: replaced.entries }.change
        writer index file)
  | none => (false, d)

/-- Fails when the new name is taken. -/
def link (d : Disk) (writer : Nat) (index : Option Nat) (source target : Name) :
    Bool × Disk :=
  match d.find source, d.find target with
  | some file, none =>
      (true, { d with entries := (target, file) :: d.entries }.change writer index file)
  | _, _ => (false, d)

/-- `listSegments`: the first lsns of the segments, in order. -/
def segments (d : Disk) : List Nat :=
  (d.names.filterMap fun name =>
    match name with
    | .segment firstLsn => some firstLsn
    | _ => none).insertionSort (· ≤ ·)

/-- Every file that has a name becomes a file of the index. -/
def adopt (d : Disk) (index : Nat) : Disk :=
  { d with files := d.files.mapIdx fun number f =>
      if number ∈ d.entries.map Prod.snd then { f with indexes := index :: f.indexes }
      else f }

end Disk

/-- What a database keeps in memory of its files, its log and its checkpoints; `segment`
is `fd_` of the log, and `none` when that is -1. -/
structure Db where
  vectorFile : Nat
  enableOplog : Bool
  segmentBytes : Nat
  checkpointIntervalOps : Nat
  segment : Option Nat
  nextLsn : Nat
  offset : Nat
  broken : Bool
  opsSinceCheckpoint : Nat
  writesSinceCheckpoint : Nat
  checkpointDue : Bool
  checkpointLsn : Nat
  mainCheckpointLsn : Nat
deriving DecidableEq, Repr

inductive Call where
  | fileExists (name : Name)
  | create (name : Name)
  | write (file : Nat)
  | remove (name : Name)
  | rename (source target : Name)
  | link (source target : Name)
  | listSegments
  | memory
  | setMemory (db : Db)

abbrev Reply : Call → Type
  | .fileExists _ => Bool
  | .create _ => Option Nat
  | .rename _ _ => Bool
  | .link _ _ => Bool
  | .listSegments => List Nat
  | .memory => Db
  | _ => Unit

/-- What a call of database `writer` does while the directory is that of `index`. -/
def exec (writer : Nat) (index : Option Nat) : (c : Call) → Db × Disk → Reply c × (Db × Disk)
  | .fileExists name, (db, d) => ((d.find name).isSome, (db, d))
  | .create name, (db, d) =>
      ((d.create writer index name).1, (db, (d.create writer index name).2))
  | .write file, (db, d) => ((), (db, d.change writer index file))
  | .remove name, (db, d) => ((), (db, d.remove writer index name))
  | .rename source target, (db, d) =>
      ((d.rename writer index source target).1, (db, (d.rename writer index source target).2))
  | .link source target, (db, d) =>
      ((d.link writer index source target).1, (db, (d.link writer index source target).2))
  | .listSegments, (db, d) => (d.segments, (db, d))
  | .memory, (db, d) => (db, (db, d))
  | .setMemory db, (_, d) => ((), (db, d))

abbrev Prog (α : Type) := Program Call Reply α

def does (c : Call) : Prog (Reply c) := Program.perform c

/-! The operation log -/

/-- `kFixedBody` and `kPrefixBytes` around a record with so many bytes of its own. -/
def fixedBody : Nat := 8 + 1 + 1 + 8 + 8 + 8 + 4 + 4 + 4

def prefixBytes : Nat := 8

def maxBodyBytes : Nat := 64 * 2 ^ 20

def openSegmentLocked : Prog Bool := do
  let db ← does .memory
  let file ← does (.create (.segment db.nextLsn))
  if file.isSome then do
    does (.setMemory { db with segment := file, offset := 0 })
    pure true
  else do
    does (.setMemory { db with segment := none })
    pure false

/-- A write to a log without a segment fails, and so does cutting it off. -/
def appendRecord (bytes : Nat) : Prog Bool := do
  let db ← does .memory
  match db.segment with
  | some file => do
      does (.write file)
      does (.setMemory { db with offset := db.offset + bytes, nextLsn := db.nextLsn + 1 })
      pure true
  | none => do
      does (.setMemory { db with broken := true })
      pure false

/-- `OpLog::Append`. -/
def append (recordBytes : Nat) : Prog Bool :=
  if maxBodyBytes < fixedBody + recordBytes then pure false
  else do
    let db ← does .memory
    if db.broken then pure false
    else if db.segmentBytes ≤ db.offset then do
      let opened ← openSegmentLocked
      if opened then appendRecord (prefixBytes + fixedBody + recordBytes)
      else do
        let db ← does .memory
        does (.setMemory { db with broken := true })
        pure false
    else appendRecord (prefixBytes + fixedBody + recordBytes)

/-- Remove segments while the one after them starts no later than `lsn`. -/
def removeBelow (lsn : Nat) : List Nat → Prog Unit
  | first :: next :: rest =>
      if lsn < next then pure ()
      else do
        does (.remove (.segment first))
        removeBelow lsn (next :: rest)
  | _ => pure ()

def truncateBelow (lsn : Nat) : Prog Unit := do
  let firstLsns ← does .listSegments
  removeBelow lsn firstLsns

/-! Checkpoints -/

def writeMetadataFile : Prog Bool := do
  let tmp ← does (.create (.metadata .tmp))
  match tmp with
  | none => pure false
  | some file => do
      does (.write file)
      let there ← does (.fileExists (.metadata .main))
      if there then do
        does (.remove (.metadata .prev))
        let kept ← does (.link (.metadata .main) (.metadata .prev))
        if kept then does (.rename (.metadata .tmp) (.metadata .main)) else pure false
      else does (.rename (.metadata .tmp) (.metadata .main))

def persistCount : Prog Unit := do
  let tmp ← does (.create .vectorCountTmp)
  match tmp with
  | none => pure ()
  | some file => do
      does (.write file)
      let _ ← does (.rename .vectorCountTmp .vectorCount)
      pure ()

/-- What the graph library and the payload store do to files of theirs. -/
inductive StorageCall where
  | graph (number : Nat)
  | payload (number : Nat)
  | write (file : Nat)
  | removeGraph (number : Nat)
  | removePayload (number : Nat)
deriving DecidableEq, Repr

def StorageCall.call : StorageCall → Call
  | .graph number => .create (.graphFile number)
  | .payload number => .create (.payloadFile number)
  | .write file => .write file
  | .removeGraph number => .remove (.graphFile number)
  | .removePayload number => .remove (.payloadFile number)

def performs : List StorageCall → Prog Unit
  | [] => pure ()
  | c :: cs => Program.call c.call fun _ => performs cs

/-- `syncData` of the paged store: the file of delete flags is synced by its name. -/
def syncData : Prog Bool := do
  let db ← does .memory
  does (.write db.vectorFile)
  does (.fileExists .deleteFile)

/-- `checkpointLocked` once it has something to write; `syncing` is what `syncGraph` and
`SyncWAL` do. -/
def writeCheckpoint (syncing : List StorageCall) : Prog Bool := do
  let synced ← syncData
  if synced then do
    performs syncing
    let db ← does .memory
    does (.setMemory { db with
      checkpointLsn := if db.enableOplog then db.nextLsn - 1 else db.checkpointLsn })
    let written ← writeMetadataFile
    if written then do
      persistCount
      let db ← does .memory
      does (.setMemory { db with writesSinceCheckpoint := 0, opsSinceCheckpoint := 0 })
      if db.enableOplog then truncateBelow (db.mainCheckpointLsn + 1) else pure ()
      let db ← does .memory
      does (.setMemory { db with mainCheckpointLsn := db.checkpointLsn })
      pure true
    else pure false
  else pure false

def checkpointLocked (syncing : List StorageCall) : Prog Bool := do
  let db ← does .memory
  let there ← does (.fileExists (.metadata .main))
  if db.writesSinceCheckpoint = 0 ∧ there then pure true else writeCheckpoint syncing

/-! Calls of a database -/

def logOp (recordBytes : Nat) : Prog Bool := do
  let db ← does .memory
  does (.setMemory (if 0 < db.checkpointIntervalOps then
    { db with
      opsSinceCheckpoint := db.opsSinceCheckpoint + 1,
      checkpointDue := db.checkpointDue ||
        decide (db.checkpointIntervalOps ≤ db.opsSinceCheckpoint + 1) } else db))
  if db.enableOplog then append recordBytes else pure true

/-- A write inside a `WriteScope`, whose end checkpoints when that is due. -/
def writeScope (body : Prog Unit) (syncing : List StorageCall) : Prog Unit := do
  let db ← does .memory
  does (.setMemory { db with writesSinceCheckpoint := db.writesSinceCheckpoint + 1 })
  body
  let db ← does .memory
  if db.checkpointDue then do
    does (.setMemory { db with checkpointDue := false })
    let _ ← checkpointLocked syncing
    pure ()
  else pure ()

/-- The calls handlers make: a write with the bytes of its log record, or none when it is
refused before it is logged; a bulk build, built or refused; a read. -/
inductive DbCall where
  | write (recordBytes : Option Nat) (storage syncing : List StorageCall)
  | bulkBuild (built : Bool) (storage syncing : List StorageCall)
  | read
deriving DecidableEq, Repr

def DbCall.program : DbCall → Prog Unit
  | .write recordBytes storage syncing =>
      writeScope (match recordBytes with
        | none => pure ()
        | some recordBytes => do
            let logged ← logOp recordBytes
            if logged then do
              let db ← does .memory
              does (.write db.vectorFile)
              performs storage
            else pure ()) syncing
  | .bulkBuild false _ _ => pure ()
  | .bulkBuild true storage syncing => do
      let db ← does .memory
      does (.write db.vectorFile)
      performs storage
      let db ← does .memory
      does (.setMemory { db with writesSinceCheckpoint := db.writesSinceCheckpoint + 1 })
      let _ ← checkpointLocked syncing
      pure ()
  | .read => pure ()

/-- A data request makes its calls one after the other. -/
def handler : List DbCall → Prog Unit
  | [] => pure ()
  | c :: cs => do
      c.program
      handler cs

/-- The destructor: the vector buffers are flushed, and the libraries close. -/
def destructor (closing : List StorageCall) : Prog Unit := do
  let db ← does .memory
  does (.write db.vectorFile)
  performs closing

end AsterVec.HttpFiles

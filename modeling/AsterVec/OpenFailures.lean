import Mathlib.Tactic.ByContra
import Mathlib.Tactic.SplitIfs

/-!
`AsterVecDB::Open` with the calls that may fail.  It fills its output in the middle, and
what matters is which of the later errors empty it again.
-/

namespace AsterVec.OpenFailures

inductive Status where
  | ok
  | notFound
  | invalidArgument (text : String)
  | notSupported (text : String)
  | ioError (text : String)
  | corruption (text : String)
  deriving DecidableEq, Repr

inductive IdMode where
  | kAuto
  | kDense
  | kKeyed
  deriving DecidableEq, Repr

inductive DistanceMetric where
  | kL2
  | kCosine
  | other
  deriving DecidableEq, Repr

structure Options where
  path : String
  dim : Int
  metric : DistanceMetric
  reinit : Bool
  idMode : IdMode
  enableOplog : Bool

/-- What an open reads of an index once it is loaded. -/
structure Index where
  checkpointLsn : Nat
  checkpointLiveCount : Int
  idMode : Nat
  deriving DecidableEq, Repr

/-- A database that is being opened. -/
structure Db where
  graphEncoding : Nat
  index : Index
  mainCheckpointLsn : Nat
  keyed : Bool
  metadataStore : Bool
  nextDenseId : Nat
  liveCount : Int
  oplog : Bool
  deriving DecidableEq, Repr

/-- How the calls of `writeMetadataFile` go. -/
structure MetadataWrite where
  tmpOpens : Bool
  serialized : Status
  flushed : Bool
  tmpSynced : Bool
  mainExists : Bool
  linked : Bool
  renamed : Bool
  dirSynced : Bool

/-- How the calls of `checkpointLocked` go. -/
structure Checkpointing where
  dataSynced : Bool
  graphSynced : Status
  walSynced : Status
  write : MetadataWrite

/-- What the files are, and how every call on them goes; `describe` is the text of a
status. -/
structure Storage where
  describe : Status → String
  logOpens : Bool
  mainReadable : Bool
  staged : Bool
  backupReadable : Bool
  restored : Bool
  peekMain : Except Status Nat
  prevThere : Bool
  peekPrev : Except Status Nat
  marker : Option Nat
  currentReadable : Bool
  defaultEncoding : Nat
  markerWritten : Bool
  markerSynced : Bool
  constructed : Bool
  mainExists : Bool
  deserializeMain : Index → Status × Index
  prevExists : Bool
  deserializePrev : Index → Status × Index
  firstWrite : MetadataWrite
  metadataStore : Status
  maxMappedId : Except Status (Option Nat)
  loadedCount : Int
  logThere : Bool
  scanned : Status
  replay : Db → Status × Db
  records : Nat
  lastLsn : Nat
  logStarted : Status
  restart : Checkpointing

/-- An open returns, or the constructor of the index throws. -/
inductive Ending where
  | returned (status : Status)
  | threw
  deriving DecidableEq, Repr

/-! ## The open -/

def kMetadataFileName : String := "lsm_vec_db.meta"

def kCreatingMarkerName : String := "lsm_vec_db.creating"

def Options.metadataPath (opts : Options) : String := opts.path ++ "/" ++ kMetadataFileName

def Options.creatingMarker (opts : Options) : String := opts.path ++ "/" ++ kCreatingMarkerName

/-- `PeekGraphEncoding`, of the previous metadata file when that of the main one fails. -/
def peek (opts : Options) (storage : Storage) : Except Status Nat :=
  match storage.peekMain with
  | .ok encoding => .ok encoding
  | .error status =>
      if opts.reinit = false ∧ storage.prevThere then
        match storage.peekPrev with
        | .ok encoding => .ok encoding
        | .error _ => .error status
      else .error status

def missingMetadata : Status :=
  .corruption ("graph data exists but lsm_vec_db.meta is missing; the " ++
    "adjacency encoding cannot be determined — refusing to " ++
    "guess. Rebuild the store (reinit) to recover.")

/-- The encoding of the graph, whether there is no metadata, and whether to write the
marker of a create. -/
def resolveEncoding (opts : Options) (storage : Storage) : Except Status (Nat × Bool × Bool) :=
  match peek opts storage with
  | .ok encoding => .ok (encoding, false, false)
  | .error .notFound =>
      let interrupted := if opts.reinit then none else storage.marker
      if opts.reinit = false ∧ interrupted = none ∧ storage.currentReadable then
        .error missingMetadata
      else
        match interrupted with
        | some encoding => .ok (encoding, true, false)
        | none => .ok (storage.defaultEncoding, true, !opts.reinit)
  | .error status => .error status

/-- Up to the construction of the index: the encoding, and whether there is no metadata. -/
def prepare (opts : Options) (storage : Storage) : Except Status (Nat × Bool) :=
  if opts.dim ≤ 0 then .error (.invalidArgument "vector dimension must be positive")
  else if opts.metric = .other then .error (.notSupported "unsupported distance metric")
  else if storage.logOpens = false then .error (.ioError "failed to open log file")
  else if opts.reinit ∧ storage.mainReadable ∧ storage.staged = false then
    .error (.ioError "failed to stage metadata for reinit")
  else if opts.reinit = false ∧ storage.mainReadable = false ∧ storage.backupReadable ∧
      storage.restored = false then
    .error (.ioError "failed to restore metadata backup from a failed reinit")
  else
    match resolveEncoding opts storage with
    | .error status => .error status
    | .ok (encoding, fresh, marks) =>
        if marks ∧ storage.markerWritten = false then 
          .error (.ioError ("failed to write " ++ opts.creatingMarker))
        else if marks ∧ storage.markerSynced = false then
          .error (.ioError ("failed to sync " ++ opts.creatingMarker))
        else .ok (encoding, fresh)

/-- An index as it is constructed. -/
def emptyIndex : Index := ⟨0, -1, 0⟩

def construct (encoding : Nat) : Db :=
  { graphEncoding := encoding, index := emptyIndex, mainCheckpointLsn := 0, keyed := false,
    metadataStore := false, nextDenseId := 0, liveCount := 0, oplog := false }

/-- The main metadata file, if it is there. -/
def loadMain (storage : Storage) (index : Index) : Status × Index :=
  if storage.mainExists then storage.deserializeMain index else (.ok, index)

/-- Load the main metadata file, or the previous one if that one is missing or damaged. -/
def loadCheckpoint (opts : Options) (storage : Storage) (db : Db) : Status × Db :=
  if opts.reinit then (.ok, db)
  else
    let main := loadMain storage db.index
    if (storage.mainExists = false ∨ main.1 ≠ .ok) ∧ storage.prevExists then
      let prev := storage.deserializePrev main.2
      if prev.1 ≠ .ok then
        (if storage.mainExists then
          .corruption ("both " ++ opts.metadataPath ++ " (" ++ storage.describe main.1 ++
            ") and " ++ opts.metadataPath ++ ".prev (" ++ storage.describe prev.1 ++
            ") are unusable") else prev.1,
          { db with index := prev.2 })
      else (.ok, { db with index := prev.2, mainCheckpointLsn := prev.2.checkpointLsn })
    else if main.1 ≠ .ok then (main.1, { db with index := main.2 })
    else (.ok, { db with index := main.2, mainCheckpointLsn := main.2.checkpointLsn })

def storedMode (index : Index) : IdMode := if index.idMode = 1 then .kKeyed else .kDense

/-- The mode of a new store is the one that is asked for; a store that is there must have
it. -/
def chooseIdMode (opts : Options) (fresh : Bool) (db : Db) : Except Status Db :=
  if fresh then
    let mode := if opts.idMode = .kKeyed then 1 else 0
    .ok { db with index := { db.index with idMode := mode }, keyed := mode = 1 }
  else if opts.idMode ≠ .kAuto ∧ opts.idMode ≠ storedMode db.index then
    .error (.invalidArgument (if storedMode db.index = .kKeyed then
      "store was created with id_mode keyed" else "store was created with id_mode dense"))
  else .ok { db with keyed := db.index.idMode = 1 }

def writeMetadataFile (opts : Options) (write : MetadataWrite) : Status :=
  if write.tmpOpens = false then .ioError ("failed to open " ++ opts.metadataPath ++ ".tmp")
  else if write.serialized ≠ .ok then write.serialized
  else if write.flushed = false then
    .ioError ("failed to write " ++ opts.metadataPath ++ ".tmp")
  else if write.tmpSynced = false then
    .ioError ("failed to fsync " ++ opts.metadataPath ++ ".tmp")
  else if write.mainExists ∧ write.linked = false then
    .ioError ("failed to keep previous checkpoint " ++ opts.metadataPath ++ ".prev")
  else if write.renamed = false then .ioError ("failed to install " ++ opts.metadataPath)
  else if write.dirSynced = false then .ioError ("failed to fsync " ++ opts.path)
  else .ok

/-- The first metadata file of a new store. -/
def firstMetadata (opts : Options) (storage : Storage) (fresh : Bool) : Status :=
  if fresh then writeMetadataFile opts storage.firstWrite else .ok

def openMetadataStore (storage : Storage) (db : Db) : Except Status Db :=
  if storage.metadataStore ≠ .ok then .error storage.metadataStore
  else if db.keyed then
    match storage.maxMappedId with
    | .error status => .error status
    | .ok id => .ok { db with metadataStore := true, nextDenseId := id.elim 0 (· + 1) }
  else .ok { db with metadataStore := true }

def loadCount (storage : Storage) (db : Db) : Db :=
  { db with liveCount :=
      if 0 ≤ db.index.checkpointLiveCount then db.index.checkpointLiveCount
      else storage.loadedCount }

def checkpointLocked (opts : Options) (checkpointing : Checkpointing) : Status :=
  if checkpointing.dataSynced = false then .ioError "failed to sync vector data"
  else if checkpointing.graphSynced ≠ .ok then checkpointing.graphSynced
  else if checkpointing.walSynced ≠ .ok then checkpointing.walSynced
  else writeMetadataFile opts checkpointing.write

/-- Find the aborted operations of the log, and replay the others. -/
def replayLog (storage : Storage) (db : Db) : Status × Db :=
  if storage.logThere = false then (.ok, db)
  else if storage.scanned ≠ .ok then (storage.scanned, db)
  else storage.replay db

/-- Replay the log, start it, and make what was replayed the restart point. -/
def recoverFromOpLog (opts : Options) (storage : Storage) (db : Db) : Status × Db :=
  let fromLsn := db.index.checkpointLsn + 1
  let replayed := replayLog storage db
  if replayed.1 ≠ .ok then replayed
  else
    let nextLsn :=
      if storage.logThere ∧ 0 < storage.records then storage.lastLsn + 1 else fromLsn
    if opts.enableOplog ∧ storage.logStarted ≠ .ok then (storage.logStarted, replayed.2)
    else
      let db := { replayed.2 with oplog := opts.enableOplog }
      if nextLsn ≠ fromLsn then
        let index := { db.index with
          checkpointLsn := nextLsn - 1, checkpointLiveCount := db.liveCount }
        if checkpointLocked opts storage.restart ≠ .ok then
          (checkpointLocked opts storage.restart, { db with index := index })
        else (.ok, { db with index := index, mainCheckpointLsn := index.checkpointLsn })
      else (.ok, db)

/-- An open from the payload store on; its errors reset the database. -/
def finishOpen (opts : Options) (storage : Storage) (db : Db) : Ending × Option Db :=
  match openMetadataStore storage db with
  | .error status => (.returned status, none)
  | .ok opened =>
      let recovered := recoverFromOpLog opts storage (loadCount storage opened)
      if recovered.1 ≠ .ok then (.returned recovered.1, none)
      else (.returned .ok, some recovered.2)

/-- `Open`, and what `*db` is then. -/
def openDb (opts : Options) (storage : Storage) (db : Option Db) : Ending × Option Db :=
  match prepare opts storage with
  | .error status => (.returned status, db)
  | .ok (encoding, fresh) =>
      if storage.constructed = false then (.threw, db)
      else
        let loaded := loadCheckpoint opts storage (construct encoding)
        if loaded.1 ≠ .ok then (.returned loaded.1, some loaded.2)
        else
          match chooseIdMode opts fresh loaded.2 with
          | .error status => (.returned status, none)
          | .ok chosen =>
              if firstMetadata opts storage fresh ≠ .ok then
                (.returned (firstMetadata opts storage fresh), some chosen)
              else
                finishOpen opts storage chosen

/-! ## When the output is left filled -/

/-- Nothing goes wrong before the output is filled. -/
structure Reaches (opts : Options) (storage : Storage) : Prop where
  dim_pos : 0 < opts.dim
  metric : opts.metric ≠ .other
  log : storage.logOpens = true
  staged : opts.reinit = true → storage.mainReadable = true → storage.staged = true
  restored : opts.reinit = false → storage.mainReadable = false →
    storage.backupReadable = true → storage.restored = true
  peeked : ∀ status, peek opts storage = .error status → status = .notFound
  refused : peek opts storage = .error .notFound → opts.reinit = false →
    storage.currentReadable = true → storage.marker ≠ none
  marked : peek opts storage = .error .notFound → opts.reinit = false →
    storage.marker = none → storage.markerWritten = true ∧ storage.markerSynced = true
  constructed : storage.constructed = true

/-- The main metadata file cannot be loaded, or is missing, and the previous one cannot be
loaded either; or there is no previous one, and the main one cannot be loaded. -/
def LoadFails (opts : Options) (storage : Storage) : Prop :=
  opts.reinit = false ∧
    if (storage.mainExists = false ∨ (loadMain storage emptyIndex).1 ≠ .ok) ∧
        storage.prevExists = true then
      (storage.deserializePrev (loadMain storage emptyIndex).2).1 ≠ .ok
    else (loadMain storage emptyIndex).1 ≠ .ok

/-- The metadata file reaches its place and the disk. -/
structure MetadataWrite.Succeeds (write : MetadataWrite) : Prop where
  tmpOpens : write.tmpOpens = true
  serialized : write.serialized = .ok
  flushed : write.flushed = true
  tmpSynced : write.tmpSynced = true
  linked : write.mainExists = true → write.linked = true
  renamed : write.renamed = true
  dirSynced : write.dirSynced = true

theorem writeMetadataFile_eq_ok_iff (opts : Options) (write : MetadataWrite) :
    writeMetadataFile opts write = .ok ↔ write.Succeeds := by
  unfold writeMetadataFile
  constructor
  · intro hok
    split_ifs at hok with hopens hserialized hflushed hsynced hlinked hrenamed hdir
    · exact absurd hok hserialized
    · refine ⟨Bool.not_eq_false _ ▸ hopens, not_not.mp hserialized, Bool.not_eq_false _ ▸ hflushed,
        Bool.not_eq_false _ ▸ hsynced, fun hmain => ?_, Bool.not_eq_false _ ▸ hrenamed,
        Bool.not_eq_false _ ▸ hdir⟩
      by_contra hnot
      exact hlinked ⟨hmain, Bool.not_eq_true _ ▸ hnot⟩
  · rintro ⟨hopens, hserialized, hflushed, hsynced, hlinked, hrenamed, hdir⟩
    have hkept : ¬ (write.mainExists = true ∧ write.linked = false) := by
      rintro ⟨hmain, hnot⟩
      rw [hlinked hmain] at hnot
      cases hnot
    simp [hopens, hserialized, hflushed, hsynced, hkept, hrenamed, hdir]

theorem firstMetadata_eq_ok_iff (opts : Options) (storage : Storage) (fresh : Bool) :
    firstMetadata opts storage fresh = .ok ↔ (fresh = true → storage.firstWrite.Succeeds) := by
  unfold firstMetadata
  cases fresh with
  | false => simp
  | true => simp [writeMetadataFile_eq_ok_iff]

theorem loadCheckpoint_fails_iff (opts : Options) (storage : Storage) (encoding : Nat) :
    (loadCheckpoint opts storage (construct encoding)).1 ≠ .ok ↔ LoadFails opts storage := by
  have hindex : (construct encoding).index = emptyIndex := rfl
  unfold loadCheckpoint LoadFails
  rw [hindex]
  generalize loadMain storage emptyIndex = main
  cases hreinit : opts.reinit with
  | true => simp
  | false =>
      rw [if_neg Bool.false_ne_true, and_iff_right rfl]
      simp only
      by_cases hprev : (storage.mainExists = false ∨ main.1 ≠ .ok) ∧ storage.prevExists = true
      · rw [if_pos hprev, if_pos hprev]
        by_cases hdamaged : (storage.deserializePrev main.2).1 = .ok
        · simp [hdamaged]
        · rw [if_pos hdamaged]
          refine iff_of_true ?_ hdamaged
          change (if storage.mainExists then _ else _) ≠ _
          split
          · rintro ⟨⟩
          · exact hdamaged
      · rw [if_neg hprev, if_neg hprev]
        by_cases hmain : main.1 = .ok
        · simp [hmain]
        · rw [if_pos hmain]

/-- What the encoding is resolved from. -/
theorem resolveEncoding_eq_ok {opts : Options} {storage : Storage} {encoding : Nat}
    {fresh marks : Bool} (hresolved : resolveEncoding opts storage = .ok (encoding, fresh, marks)) :
    (fresh = true ↔ peek opts storage = .error .notFound) ∧
      (marks = true ↔ peek opts storage = .error .notFound ∧ opts.reinit = false ∧
        storage.marker = none) := by
  unfold resolveEncoding at hresolved
  split at hresolved
  · rename_i hpeek
    cases hresolved
    rw [hpeek]
    simp
  · rename_i hpeek
    rw [hpeek]
    cases hreinit : opts.reinit with
    | true =>
        simp only [hreinit, if_true, Bool.true_eq_false, false_and, if_false] at hresolved
        cases hresolved
        simp
    | false =>
        simp only [hreinit, Bool.false_eq_true, if_false, true_and] at hresolved
        split at hresolved
        · cases hresolved
        · cases hmarker : storage.marker with
          | none =>
              rw [hmarker] at hresolved
              cases hresolved
              simp
          | some found =>
              rw [hmarker] at hresolved
              cases hresolved
              simp
  · cases hresolved

theorem exists_resolveEncoding_iff (opts : Options) (storage : Storage) :
    (∃ resolved, resolveEncoding opts storage = .ok resolved) ↔
      (∀ status, peek opts storage = .error status → status = .notFound) ∧
        (peek opts storage = .error .notFound → opts.reinit = false →
          storage.currentReadable = true → storage.marker ≠ none) := by
  unfold resolveEncoding
  split
  · rename_i encoding hpeek
    simp [hpeek]
  · rename_i hpeek
    cases hreinit : opts.reinit with
    | true => simp [hpeek]
    | false =>
        cases hmarker : storage.marker with
        | none =>
            cases hcurrent : storage.currentReadable with
            | true => simp [hpeek]
            | false => simp [hpeek]
        | some encoding => simp [hpeek]
  · rename_i status hother hpeek
    refine iff_of_false ?_ fun hpeeked => hother (hpeeked.1 status hpeek)
    rintro ⟨_, ⟨⟩⟩

/-- The output is filled when nothing goes wrong before. -/
theorem reaches_iff (opts : Options) (storage : Storage) :
    Reaches opts storage ↔
      (∃ prepared, prepare opts storage = .ok prepared) ∧ storage.constructed = true := by
  constructor
  · intro hreaches
    refine ⟨?_, hreaches.constructed⟩
    obtain ⟨⟨encoding, fresh, marks⟩, hresolved⟩ :=
      (exists_resolveEncoding_iff opts storage).mpr ⟨hreaches.peeked, hreaches.refused⟩
    have hmarks := (resolveEncoding_eq_ok hresolved).2
    have hwritten : marks = true →
        storage.markerWritten = true ∧ storage.markerSynced = true := by
      intro hmarked
      obtain ⟨hpeek, hreinit, hmarker⟩ := hmarks.mp hmarked
      exact hreaches.marked hpeek hreinit hmarker
    refine ⟨(encoding, fresh), ?_⟩
    unfold prepare
    rw [hresolved, if_neg (by have := hreaches.dim_pos; omega), if_neg hreaches.metric,
      if_neg (by simp [hreaches.log]), if_neg, if_neg]
    · simp only
      rw [if_neg, if_neg]
      · rintro ⟨hmarked, hnot⟩
        rw [(hwritten hmarked).2] at hnot
        cases hnot
      · rintro ⟨hmarked, hnot⟩
        rw [(hwritten hmarked).1] at hnot
        cases hnot
    · rintro ⟨hreinit, hmissing, hbackup, hnot⟩
      rw [hreaches.restored hreinit hmissing hbackup] at hnot
      cases hnot
    · rintro ⟨hreinit, hreadable, hnot⟩
      rw [hreaches.staged hreinit hreadable] at hnot
      cases hnot
  · rintro ⟨⟨prepared, hprepared⟩, hconstructed⟩
    unfold prepare at hprepared
    split_ifs at hprepared with hdim hmetric hlog hstage hrestore
    split at hprepared
    · cases hprepared
    · rename_i encoding fresh marks hresolved
      split_ifs at hprepared with hwritten hsynced
      obtain ⟨hpeeked, hrefused⟩ :=
        (exists_resolveEncoding_iff opts storage).mp ⟨_, hresolved⟩
      have hmarks := (resolveEncoding_eq_ok hresolved).2
      refine ⟨by omega, hmetric, Bool.not_eq_false _ ▸ hlog, fun hreinit hreadable => ?_,
        fun hreinit hmissing hbackup => ?_, hpeeked, hrefused,
        fun hpeek hreinit hmarker => ⟨?_, ?_⟩, hconstructed⟩
      · by_contra hnot
        exact hstage ⟨hreinit, hreadable, Bool.not_eq_true _ ▸ hnot⟩
      · by_contra hnot
        exact hrestore ⟨hreinit, hmissing, hbackup, Bool.not_eq_true _ ▸ hnot⟩
      · by_contra hnot
        exact hwritten ⟨hmarks.mpr ⟨hpeek, hreinit, hmarker⟩, Bool.not_eq_true _ ▸ hnot⟩
      · by_contra hnot
        exact hsynced ⟨hmarks.mpr ⟨hpeek, hreinit, hmarker⟩, Bool.not_eq_true _ ▸ hnot⟩

theorem prepare_fresh {opts : Options} {storage : Storage} {encoding : Nat} {fresh : Bool}
    (hprepared : prepare opts storage = .ok (encoding, fresh)) :
    fresh = true ↔ peek opts storage = .error .notFound := by
  unfold prepare at hprepared
  split_ifs at hprepared
  split at hprepared
  · cases hprepared
  · rename_i hresolved
    split_ifs at hprepared
    cases hprepared
    exact (resolveEncoding_eq_ok hresolved).1

/-- A new store takes every mode. -/
theorem chooseIdMode_fresh (opts : Options) (db : Db) :
    ∃ chosen, chooseIdMode opts true db = .ok chosen :=
  ⟨_, if_pos rfl⟩

theorem finishOpen_null (opts : Options) (storage : Storage) (db : Db) :
    ∀ status, (finishOpen opts storage db).1 = .returned status → status ≠ .ok →
      (finishOpen opts storage db).2 = none := by
  unfold finishOpen
  cases openMetadataStore storage db with
  | error failed => exact fun _ _ _ => rfl
  | ok opened =>
      simp only
      split_ifs with hrecovered
      · exact fun _ _ _ => rfl
      · rintro status hreturned hstatus
        cases hreturned
        exact absurd rfl hstatus

/-- An open that fails leaves its output empty, unless it has filled it and then cannot load
the metadata or cannot write the first metadata file of a new store. -/
theorem openDb_null_iff (opts : Options) (storage : Storage) :
    (∀ status, (openDb opts storage none).1 = .returned status → status ≠ .ok →
        (openDb opts storage none).2 = none) ↔
      (Reaches opts storage → ¬ LoadFails opts storage ∧
        (peek opts storage = .error .notFound → storage.firstWrite.Succeeds)) := by
  rw [reaches_iff]
  unfold openDb
  cases hprepared : prepare opts storage with
  | error status => simp
  | ok prepared =>
      obtain ⟨encoding, fresh⟩ := prepared
      have hfresh := prepare_fresh hprepared
      cases hconstructed : storage.constructed with
      | false => simp
      | true =>
          simp only [Except.ok.injEq, exists_eq', true_and, forall_const, Bool.true_eq_false,
            if_false]
          rw [← loadCheckpoint_fails_iff opts storage encoding, ← hfresh, ←
            firstMetadata_eq_ok_iff opts storage fresh]
          by_cases hloaded : (loadCheckpoint opts storage (construct encoding)).1 = .ok
          · rw [if_neg (not_not.mpr hloaded)]
            refine Iff.trans ?_ (and_iff_right (not_not.mpr hloaded)).symm
            cases hchosen : chooseIdMode opts fresh
                (loadCheckpoint opts storage (construct encoding)).2 with
            | error status =>
                have hold : fresh = false := by
                  by_contra hnew
                  obtain ⟨chosen, hok⟩ := chooseIdMode_fresh opts
                    (loadCheckpoint opts storage (construct encoding)).2
                  rw [(Bool.not_eq_false fresh).mp hnew, hok] at hchosen
                  cases hchosen
                simp [hold, firstMetadata]
            | ok chosen =>
                simp only
                by_cases hwritten : firstMetadata opts storage fresh = .ok
                · rw [if_neg (not_not.mpr hwritten)]
                  exact iff_of_true (finishOpen_null opts storage chosen) hwritten
                · rw [if_pos hwritten]
                  simp [hwritten]
          · rw [if_pos hloaded]
            simp [hloaded]

/-- A store whose metadata file has a good header over a damaged payload, and no previous
file; every call goes well. -/
def damagedMain : Storage where
  describe _ := ""
  logOpens := true
  mainReadable := true
  staged := true
  backupReadable := false
  restored := true
  peekMain := .ok 1
  prevThere := false
  peekPrev := .error .notFound
  marker := none
  currentReadable := true
  defaultEncoding := 1
  markerWritten := true
  markerSynced := true
  constructed := true
  mainExists := true
  deserializeMain index :=
    (.corruption "metadata payload CRC mismatch — file is damaged", index)
  prevExists := false
  deserializePrev index := (.corruption "metadata file truncated", index)
  firstWrite := ⟨true, .ok, true, true, true, true, true, true⟩
  metadataStore := .ok
  maxMappedId := .ok none
  loadedCount := 0
  logThere := false
  scanned := .ok
  replay db := (.ok, db)
  records := 0
  lastLsn := 0
  logStarted := .ok
  restart := ⟨true, .ok, .ok, ⟨true, .ok, true, true, true, true, true, true⟩⟩

def plainOptions : Options := ⟨"db", 4, .kL2, false, .kAuto, true⟩

/-- The error is returned with a database in the output that has loaded nothing. -/
theorem damagedMain_halfOpen :
    openDb plainOptions damagedMain none =
        (.returned (.corruption "metadata payload CRC mismatch — file is damaged"),
          some (construct 1)) ∧
      ¬ ∀ status, (openDb plainOptions damagedMain none).1 = .returned status →
        status ≠ .ok → (openDb plainOptions damagedMain none).2 = none := by
  have hopen : openDb plainOptions damagedMain none =
      (.returned (.corruption "metadata payload CRC mismatch — file is damaged"),
        some (construct 1)) := rfl
  refine ⟨hopen, fun hclaim => ?_⟩
  have hnull := hclaim _ (congrArg Prod.fst hopen) (by rintro ⟨⟩)
  rw [hopen] at hnull
  cases hnull

end AsterVec.OpenFailures

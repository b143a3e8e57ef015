import AsterVec.HttpRoutes
import AsterVec.PayloadRuns

/-!
The batch insert of the HTTP server over the write calls of the database: all items are
checked, and then they are inserted one after the other.
-/

namespace AsterVec.HttpInsertBatch

open AsterVec.HttpRequests (Json HttpError)
open AsterVec.HttpRoutes (Item readItem parseBody kMaxBatchItems kMaxBatchBytes)
open AsterVec.IdTypes (kMaxRealId)
open AsterVec.PayloadWrites
open AsterVec.PointIds (PointId)

variable {F Doc : Type}

/-- The server takes integer ids only. -/
def buildOptions (settings : Engine F Doc) : Engine F Doc := { settings with keyed := false }

def statusFromDb : PayloadWrites.Status → Nat
  | .ok => 200
  | .notFound _ => 404
  | .invalidArgument _ | .notSupported _ => 400
  | _ => 503

def statusText : PayloadWrites.Status → String
  | .ok => "OK"
  | .notFound text => "NotFound: " ++ text
  | .invalidArgument text => "Invalid argument: " ++ text
  | .notSupported text => "Not implemented: " ++ text
  | .ioError text => "IO error: " ++ text
  | .corruption text => "Corruption: " ++ text

/-- The payload of an item; no payload is an empty text. -/
def metadataText (item : Item F) : Text := (item.metadata.getD "").toUTF8.toList

def pointId (item : Item F) : PointId := .int (.ofNat item.id)

/-- Read and check every item. -/
def preflight (lib : HttpRequests.JsonLibrary F) (toFloat : Json F → Option F)
    (engine : Engine F Doc) : Nat → List (Json F) → Except HttpError (List (Item F))
  | _, [] => .ok []
  | k, field :: fields => do
      let place := "item " ++ toString k ++ ": "
      let item ← readItem lib toFloat engine.cfg.dim place field
      let status := validateInsert engine (pointId item) item.vector (metadataText item)
      if status ≠ .ok then
        .error ⟨statusFromDb status, "bad_item", place ++ statusText status⟩
      else
        let items ← preflight lib toFloat engine (k + 1) fields
        pure (item :: items)

/-- The items of a body. -/
def readBatch (lib : HttpRequests.JsonLibrary F) (toFloat : Json F → Option F)
    (engine : Engine F Doc) (body : List UInt8) : Except HttpError (List (Item F)) :=
  if kMaxBatchBytes < body.length then
    .error ⟨413, "batch_too_large", "body exceeds " ++ toString kMaxBatchBytes ++ " bytes"⟩
  else do
    match (← parseBody lib body).find? "items" with
    | some (.array []) => .error ⟨400, "empty_batch", "items must be non-empty"⟩
    | some (.array fields) =>
        if kMaxBatchItems < fields.length then
          .error ⟨413, "batch_too_large", "batch has " ++ toString fields.length ++
            " items, max is " ++ toString kMaxBatchItems⟩
        else preflight lib toFloat engine 0 fields
    | _ => .error ⟨400, "missing_field", "items array is required"⟩

inductive Answer where
  | refused (error : HttpError)
  | inserted (count : Nat)
  | stopped (status : PayloadWrites.Status) (failedIndex : Nat)

def Answer.code : Answer → Nat
  | refused error => error.status
  | inserted _ => 201
  | stopped status _ => statusFromDb status

/-- Insert the items up to the first one that fails. -/
def insertAll (engine : Engine F Doc) (faults : Nat → Faults) :
    Nat → List (Item F) → Store → Answer × Store
  | k, [], s => (.inserted k, s)
  | k, item :: items, s =>
      match insert engine (faults k) (pointId item) item.vector (metadataText item) s with
      | (.ok, s) => insertAll engine faults (k + 1) items s
      | (status, s) => (.stopped status k, s)

def handleInsertBatch (lib : HttpRequests.JsonLibrary F) (toFloat : Json F → Option F)
    (settings : Engine F Doc) (faults : Nat → Faults) (body : List UInt8) (s : Store) :
    Answer × Store :=
  match readBatch lib toFloat (buildOptions settings) body with
  | .error error => (.refused error, s)
  | .ok items => insertAll (buildOptions settings) faults 0 items s

/-! Failures -/

/-- The codes of arguments that are refused. -/
def refuses : PayloadWrites.Status → Bool
  | .invalidArgument _ | .notSupported _ => true
  | _ => false

/-- The graph and the payload store fail in other ways. -/
structure NeverRefuse (faults : Faults) : Prop where
  insertNode : refuses faults.insertNode = false
  put : refuses faults.put = false
  delete : refuses faults.delete = false

/-- The log, the graph or the payload store has failed. -/
def StoreFailure (faults : Faults) (status : PayloadWrites.Status) : Prop :=
  (∃ text, status = .ioError text) ∨ status = faults.insertNode ∨ status = faults.put ∨
    status = faults.delete

/-- A call ends well or with the failure of a store. -/
def Ends (faults : Faults) (status : PayloadWrites.Status) : Prop :=
  status = .ok ∨ StoreFailure faults status

theorem StoreFailure.not_refused {faults : Faults} {status : PayloadWrites.Status}
    (hstores : NeverRefuse faults) (hfailure : StoreFailure faults status) :
    refuses status = false := by
  rcases hfailure with ⟨text, rfl⟩ | rfl | rfl | rfl
  · rfl
  · exact hstores.insertNode
  · exact hstores.put
  · exact hstores.delete

theorem append_error {fault : Option OpLog.Fault} {rec : OpLog.OpRecord} {log : OpLog.Log}
    {segs : List OpLog.Segment} {status : AsterVec.Status}
    (hbody : rec.bodyLength ≤ OpLog.kMaxBodyBytes)
    (hfailed : (OpLog.append fault rec log segs).1 = .error status) :
    ∃ text, status = .ioError text := by
  unfold OpLog.append at hfailed
  rw [if_neg (Nat.not_lt.mpr hbody)] at hfailed
  split at hfailed
  · cases hfailed
    exact ⟨_, rfl⟩
  · split at hfailed
    · unfold OpLog.writeRecord at hfailed
      split at hfailed
      · split at hfailed
        · cases hfailed
          exact ⟨_, rfl⟩
        · cases hfailed
          exact ⟨_, rfl⟩
      · cases hfailed
    · rename_i hopened hrotate
      cases hfailed
      unfold OpLog.rotate OpLog.openSegmentLocked at hrotate
      split at hrotate
      · split at hrotate
        · cases hrotate
          exact ⟨_, rfl⟩
        · split at hrotate
          · cases hrotate
            exact ⟨_, rfl⟩
          · cases hrotate
            exact absurd rfl hopened
      · cases hrotate
        exact absurd rfl hopened

/-- A record that fits fails for the log's own reasons only. -/
theorem logOp_error {fault : Option OpLog.Fault} {rec : OpLog.OpRecord} {s s' : Store}
    {status : PayloadWrites.Status} (hbody : rec.bodyLength ≤ OpLog.kMaxBodyBytes)
    (hfailed : logOp fault rec s = (.error status, s')) : ∃ text, status = .ioError text := by
  unfold logOp at hfailed
  split at hfailed
  · cases hfailed
  · rename_i log _
    simp only at hfailed
    split at hfailed
    · cases hfailed
    · rename_i appended
      cases hfailed
      obtain ⟨text, rfl⟩ := append_error hbody appended
      exact ⟨text, rfl⟩

/-! Records -/

variable {engine : Engine F Doc} {faults : Faults} {s : Store} {r : Nat} {vec : List F}
  {metadata : Text}

/-- Arguments that are accepted: a vector of the dimension, and a payload that is an object of
64 KiB at most. -/
structure Accepted (engine : Engine F Doc) (vec : List F) (metadata : Text) : Prop where
  validated : validateInsertArgs engine vec metadata = .ok
  length_vec : vec.length = engine.cfg.dim
  length_metadata : metadata.length ≤ kMaxMetadataJsonBytes
  vector : validateVector engine vec = .ok
  payload : validateMetadata engine metadata = .ok

theorem accepted_of_validateInsertArgs
    (hvalid : validateInsertArgs engine vec metadata = .ok) : Accepted engine vec metadata := by
  have hargs := hvalid
  unfold validateInsertArgs at hargs
  split at hargs
  · contradiction
  · split at hargs
    · contradiction
    · rename_i hvector
      have hvector := not_not.mp hvector
      refine ⟨hvalid, ?_, ?_, hvector, hargs⟩
      · unfold validateVector at hvector
        split at hvector
        · cases hvector
        · rename_i hlength
          exact not_not.mp hlength
      · rcases eq_or_ne metadata [] with rfl | hsome
        · exact Nat.zero_le _
        · exact (admissible_of_validate hsome hargs).1

/-- The record of an accepted write fits in the log. -/
theorem Accepted.bodyLength_le (haccepted : Accepted engine vec metadata) (op : OpLog.OpType)
    (real internal aux : Nat) :
    (writeRecord engine op real internal aux vec metadata []).bodyLength ≤
      OpLog.kMaxBodyBytes := by
  have hrecord := engine.length_encodeRecord vec haccepted.length_vec
  have hpage := engine.cfg.fits
  have hpayload := haccepted.length_metadata
  unfold PagedVectorStorage.Config.recordSize at hrecord
  unfold kMaxMetadataJsonBytes at hpayload
  unfold PagedVectorStorage.kPageSize at hpage
  simp only [OpLog.OpRecord.bodyLength, writeRecord, hrecord, List.length_nil,
    OpLog.kFixedBody, OpLog.kMaxBodyBytes]
  omega

/-! Inserts -/

theorem migrateMetadata_ends (faults : Faults) (old new : Nat) (metadata : Text) (s : Store) :
    (migrateMetadata faults old new metadata s).1 = .ok ∨
      (migrateMetadata faults old new metadata s).1 = faults.put := by
  unfold migrateMetadata
  split
  · split
    · exact .inr rfl
    · exact .inl rfl
  · split
    · exact .inl rfl
    · split
      · exact .inr rfl
      · exact .inl rfl

theorem updateAlive_ends (haccepted : Accepted engine vec metadata) :
    Ends faults (updateAlive engine faults r vec metadata [] s).1 := by
  unfold updateAlive
  simp only
  split
  · rename_i hfailed
    exact .inr (.inl (logOp_error (haccepted.bodyLength_le ..) hfailed))
  · rename_i logged _
    split
    · exact .inr (.inr (.inl rfl))
    · have hmigrated := migrateMetadata_ends faults (s.resolveInternal r) s.nextUpdateId
        metadata (((logged.storeVector s.nextUpdateId).recordUpdateMapping r
          s.nextUpdateId).tombstone (s.resolveInternal r))
      split
      · split
        · exact .inl rfl
        · exact .inl rfl
        · exact .inr (.inr (.inr (.inr rfl)))
      · rename_i hmigrate
        rw [hmigrate] at hmigrated
        exact hmigrated.imp id fun hput => .inr (.inr (.inl hput))

theorem insertNew_ends (haccepted : Accepted engine vec metadata) :
    Ends faults (insertNew engine faults r vec metadata [] s).1 := by
  unfold insertNew
  simp only
  split
  · rename_i hfailed
    exact .inr (.inl (logOp_error (haccepted.bodyLength_le ..) hfailed))
  · split
    · exact .inr (.inr (.inl rfl))
    · split
      · exact .inl rfl
      · split
        · exact .inr (.inr (.inr (.inl rfl)))
        · exact .inl rfl

/-- An accepted vector is inserted, updated or inserted again, or a store fails. -/
theorem insertDense_ends (haccepted : Accepted engine vec metadata) (hr : r ≤ kMaxRealId) :
    Ends faults (insertDense engine faults r vec metadata [] s).1 := by
  unfold insertDense
  rw [if_neg (not_not.mpr haccepted.validated)]
  split
  · rw [if_neg (Nat.not_lt.mpr hr), if_neg (not_not.mpr haccepted.vector),
      if_neg (not_not.mpr haccepted.payload)]
    exact updateAlive_ends haccepted
  · exact insertNew_ends haccepted

/-- What is checked is what the insert checks, whatever is stored. -/
theorem insert_ends (faults : Faults) (s : Store) {settings : Engine F Doc} {id : PointId}
    (hvalid : validateInsert (buildOptions settings) id vec metadata = .ok) :
    Ends faults (insert (buildOptions settings) faults id vec metadata s).1 := by
  unfold PayloadWrites.insert
  rw [if_neg (not_not.mpr hvalid)]
  unfold validateInsert at hvalid
  split at hvalid
  · contradiction
  · rename_i hchecked
    have hid := not_not.mp hchecked
    unfold resolveId
    rw [if_neg hchecked, if_pos (show (buildOptions settings).keyed = false from rfl)]
    refine insertDense_ends (accepted_of_validateInsertArgs hvalid) ?_
    cases id with
    | str text => cases hid
    | int value =>
        unfold checkId at hid
        simp only at hid
        split at hid
        · cases hid
        · rename_i hsmall
          exact Nat.not_lt.mp fun hlarge => hsmall ⟨rfl, hlarge⟩

/-! Batches -/

theorem read_bind {α β : Type} {read : Except HttpError α} {follow : α → Except HttpError β}
    {value : β} (hread : read >>= follow = .ok value) :
    ∃ a, read = .ok a ∧ follow a = .ok value := by
  cases read with
  | error error => cases hread
  | ok a => exact ⟨a, rfl, hread⟩

/-- The checks of every item of a batch. -/
def Checked (engine : Engine F Doc) (items : List (Item F)) : Prop :=
  ∀ item ∈ items, validateInsert engine (pointId item) item.vector (metadataText item) = .ok

variable {lib : HttpRequests.JsonLibrary F} {toFloat : Json F → Option F}

theorem checked_of_preflight {k : Nat} {fields : List (Json F)} {items : List (Item F)}
    (hread : preflight lib toFloat engine k fields = .ok items) : Checked engine items := by
  induction fields generalizing k items with
  | nil =>
      cases hread
      exact fun item hitem => by cases hitem
  | cons field fields ih =>
      unfold preflight at hread
      obtain ⟨item, -, hread⟩ := read_bind hread
      simp only at hread
      split at hread
      · cases hread
      · rename_i hvalid
        obtain ⟨rest, hrest, hread⟩ := read_bind hread
        cases hread
        exact List.forall_mem_cons.mpr ⟨not_not.mp hvalid, ih hrest⟩

theorem preflight_cons {k : Nat} {field : Json F} {fields : List (Json F)} {item : Item F}
    (hitem : readItem lib toFloat engine.cfg.dim ("item " ++ toString k ++ ": ") field =
      .ok item)
    (hvalid : validateInsert engine (pointId item) item.vector (metadataText item) = .ok) :
    preflight lib toFloat engine k (field :: fields) =
      (preflight lib toFloat engine (k + 1) fields).map (item :: ·) := by
  rw [preflight]
  simp only [hitem, hvalid, bind, Except.bind, ne_eq, not_true_eq_false, if_false]
  rfl

/-- A batch that is read has passed every check. -/
theorem checked_of_readBatch {body : List UInt8} {items : List (Item F)}
    (hread : readBatch lib toFloat engine body = .ok items) : Checked engine items := by
  unfold readBatch at hread
  split at hread
  · cases hread
  · obtain ⟨value, -, hread⟩ := read_bind hread
    split at hread
    · cases hread
    · split at hread
      · cases hread
      · exact checked_of_preflight hread
    · cases hread

/-- A batch is inserted up to an item at which a store has failed. -/
theorem insertAll_ends (faults : Nat → Faults) {settings : Engine F Doc} {items : List (Item F)}
    (hchecked : Checked (buildOptions settings) items) (k : Nat) (s : Store) :
    (insertAll (buildOptions settings) faults k items s).1 = .inserted (k + items.length) ∨
      ∃ status failed,
        (insertAll (buildOptions settings) faults k items s).1 = .stopped status failed ∧
        failed < k + items.length ∧ status ≠ .ok ∧ StoreFailure (faults failed) status := by
  induction items generalizing k s with
  | nil => exact .inl rfl
  | cons item items ih =>
      obtain ⟨hvalid, hrest⟩ := List.forall_mem_cons.mp hchecked
      have hends := insert_ends (faults k) s hvalid
      unfold insertAll
      split
      · rename_i next _
        have hlength : k + 1 + items.length = k + (item :: items).length := by
          rw [List.length_cons]
          omega
        rw [← hlength]
        exact ih hrest (k + 1) next
      · rename_i status next hfailed hinsert
        rw [hinsert] at hends
        have hne : status ≠ .ok := fun hok => hfailed hok
        exact .inr ⟨status, k, rfl, by simp, hne, hends.resolve_left hne⟩

/-- A body whose items pass the checks is inserted, or it stops at an item for which the log,
the graph or the payload store has failed, and never with a code of the checks. -/
theorem handleInsertBatch_ends (lib : HttpRequests.JsonLibrary F) (toFloat : Json F → Option F)
    (settings : Engine F Doc) (faults : Nat → Faults) (hstores : ∀ k, NeverRefuse (faults k))
    (body : List UInt8) (s : Store) :
    (∃ error, readBatch lib toFloat (buildOptions settings) body = .error error ∧
      handleInsertBatch lib toFloat settings faults body s = (.refused error, s)) ∨
    ∃ items, readBatch lib toFloat (buildOptions settings) body = .ok items ∧
      ((handleInsertBatch lib toFloat settings faults body s).1 = .inserted items.length ∨
        ∃ status failed,
          (handleInsertBatch lib toFloat settings faults body s).1 = .stopped status failed ∧
          failed < items.length ∧ status ≠ .ok ∧ StoreFailure (faults failed) status ∧
          (∀ text, status ≠ .invalidArgument text ∧ status ≠ .notSupported text)) := by
  unfold handleInsertBatch
  cases hread : readBatch lib toFloat (buildOptions settings) body with
  | error error => exact .inl ⟨error, rfl, rfl⟩
  | ok items =>
      have hends := insertAll_ends faults (checked_of_readBatch hread) 0 s
      rw [Nat.zero_add] at hends
      refine .inr ⟨items, rfl, hends.imp id ?_⟩
      rintro ⟨status, failed, hstopped, hlt, hne, hfailure⟩
      refine ⟨status, failed, hstopped, hlt, hne, hfailure, fun text => ?_⟩
      have hcode := hfailure.not_refused (hstores failed)
      constructor
      · rintro rfl
        cases hcode
      · rintro rfl
        cases hcode

/-- The text `{"items":[{"id":1,"vector":[0]},{"id":1,"vector":[0]}]}`. -/
def twiceBody : List UInt8 :=
  [0x7B, 0x22, 0x69, 0x74, 0x65, 0x6D, 0x73, 0x22, 0x3A, 0x5B,
    0x7B, 0x22, 0x69, 0x64, 0x22, 0x3A, 0x31, 0x2C, 0x22, 0x76, 0x65, 0x63, 0x74, 0x6F, 0x72,
    0x22, 0x3A, 0x5B, 0x30, 0x5D, 0x7D, 0x2C,
    0x7B, 0x22, 0x69, 0x64, 0x22, 0x3A, 0x31, 0x2C, 0x22, 0x76, 0x65, 0x63, 0x74, 0x6F, 0x72,
    0x22, 0x3A, 0x5B, 0x30, 0x5D, 0x7D, 0x5D, 0x7D]

/-- A library that knows this text. -/
def twiceLibrary : HttpRequests.JsonLibrary Nat where
  parse text :=
    if text = twiceBody then
      .ok (.object [("items", .array (List.replicate 2
        (.object [("id", .unsigned 1), ("vector", .array [.unsigned 0])])))])
    else .error "not the text"
  dump _ := "null"

def unsignedToFloat : Json Nat → Option Nat
  | .unsigned value => some value
  | _ => none

/-- The graph fails at the second item. -/
def secondFails (k : Nat) : Faults :=
  if k = 1 then { Faults.none with insertNode := .ioError "disk full" } else Faults.none

theorem secondFails_neverRefuse (k : Nat) : NeverRefuse (secondFails k) := by
  unfold secondFails
  split
  · exact ⟨rfl, rfl, rfl⟩
  · exact ⟨rfl, rfl, rfl⟩

theorem metadataText_none (id : Nat) (vector : List F) :
    metadataText (⟨id, vector, none⟩ : Item F) = [] := by
  simp [metadataText]

theorem read_twice : readBatch twiceLibrary unsignedToFloat (buildOptions (tinyEngine 0))
    twiceBody = .ok [⟨1, [0], none⟩, ⟨1, [0], none⟩] := by
  change preflight twiceLibrary unsignedToFloat (buildOptions (tinyEngine 0)) 0
    (List.replicate 2 (.object [("id", .unsigned 1), ("vector", .array [.unsigned 0])])) = _
  have hitem : ∀ place, readItem twiceLibrary unsignedToFloat (1 : Nat) place
      (.object [("id", .unsigned 1), ("vector", .array [.unsigned 0])]) =
        .ok ⟨1, [0], none⟩ := fun place => rfl
  have hvalid : validateInsert (buildOptions (tinyEngine 0)) (.int 1) [0] [] = .ok := rfl
  simp only [List.replicate]
  rw [preflight_cons (hitem _) (by rw [metadataText_none]; exact hvalid),
    preflight_cons (hitem _) (by rw [metadataText_none]; exact hvalid)]
  rfl

/-- The first item is inserted and the second one is not: the status is the graph's. -/
theorem twice_stops :
    (handleInsertBatch twiceLibrary unsignedToFloat (tinyEngine 0) secondFails twiceBody
        emptyStore).1 = .stopped (.ioError "disk full") 1 ∧
      StoreFailure (secondFails 1) (.ioError "disk full") := by
  have hstopped : (handleInsertBatch twiceLibrary unsignedToFloat (tinyEngine 0) secondFails
      twiceBody emptyStore).1 = .stopped (.ioError "disk full") 1 := by
    unfold handleInsertBatch
    rw [read_twice]
    simp only [insertAll, metadataText_none]
    rfl
  rcases handleInsertBatch_ends twiceLibrary unsignedToFloat (tinyEngine 0) secondFails
    secondFails_neverRefuse twiceBody emptyStore with ⟨error, hrefused, -⟩ | ⟨items, -, hends⟩
  · rw [read_twice] at hrefused
    cases hrefused
  · rw [hstopped] at hends
    rcases hends with hinserted | ⟨status, failed, hsame, -, -, hfailure, -⟩
    · cases hinserted
    · cases hsame
      exact ⟨hstopped, hfailure⟩

end AsterVec.HttpInsertBatch

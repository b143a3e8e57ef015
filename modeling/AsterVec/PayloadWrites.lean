import AsterVec.IdTypes
import AsterVec.OpLog
import AsterVec.PagedVectorStorage
import AsterVec.PointIds

/-!
The write calls of the database with the statuses they return: the checks of ids, vectors
and payload texts, the log, the index and the payload store.
-/

namespace AsterVec.PayloadWrites

open AsterVec.IdTypes (kMaxRealId kFirstUpdateId)
open AsterVec.PagedVectorStorage (Config)
open AsterVec.PointIds (PointId)

inductive Status where
  | ok
  | notFound (text : String)
  | invalidArgument (text : String)
  | notSupported (text : String)
  | ioError (text : String)
  | corruption (text : String)
  deriving DecidableEq, Repr

/-- A status of the operation log. -/
def Status.ofLog : AsterVec.Status → Status
  | .ok => .ok
  | .notFound text => .notFound text
  | .invalidArgument text => .invalidArgument text
  | .ioError text => .ioError text
  | .corruption text => .corruption text

abbrev Text := List UInt8

/-- The text `{}`. -/
def emptyText : Text := [0x7B, 0x7D]

/-- A JSON library.  What it writes for an object it reads as an object again, and patching
with an object or erasing a key of one leaves an object. -/
structure JsonLibrary (Doc : Type) where
  parse : Text → Except String Doc
  dump : Doc → Text
  isObject : Doc → Bool
  object : Doc
  mergePatch : Doc → Doc → Doc
  erase : Doc → Text → Doc
  parse_dump : ∀ doc, isObject doc = true →
    ∃ again, parse (dump doc) = .ok again ∧ isObject again = true
  parse_empty : ∃ doc, parse emptyText = .ok doc ∧ isObject doc = true
  isObject_object : isObject object = true
  isObject_mergePatch : ∀ doc patch, isObject patch = true →
    isObject (mergePatch doc patch) = true
  isObject_erase : ∀ doc key, isObject doc = true → isObject (erase doc key) = true

/-- The settings of a database, with the code it calls outside. -/
structure Engine (F Doc : Type) where
  cfg : Config
  metricSupported : Bool
  keyed : Bool
  json : JsonLibrary Doc
  encodeRecord : List F → List UInt8
  encodingTag : Nat
  length_encodeRecord : ∀ vec, vec.length = cfg.dim →
    (encodeRecord vec).length = cfg.recordSize

/-- What the calls read and write. -/
structure Store where
  keyIds : List UInt8 → Option Nat
  nextDenseId : Nat
  located : Nat → Bool
  tombstoned : Nat → Bool
  updated : Nat → Option Nat
  nextUpdateId : Nat
  rows : Nat → Option Text
  log : Option OpLog.Log
  segments : List OpLog.Segment

/-- How the calls on files go.  A lookup or a read that goes well answers from the store. -/
structure Faults where
  lookupKey : Status
  putKey : Status
  append : Option OpLog.Fault
  abort : Option OpLog.Fault
  insertNode : Status
  put : Status
  get : Status
  delete : Status

def Faults.none : Faults := ⟨.ok, .ok, .none, .none, .ok, .ok, .ok, .ok⟩

namespace Store

def resolveInternal (s : Store) (r : Nat) : Nat := (s.updated r).getD r

def isAlive (s : Store) (r : Nat) : Bool :=
  !s.tombstoned (s.resolveInternal r) && s.located (s.resolveInternal r)

def setRow (s : Store) (i : Nat) (row : Option Text) : Store :=
  { s with rows := Function.update s.rows i row }

def storeVector (s : Store) (i : Nat) : Store :=
  { s with located := Function.update s.located i true }

def tombstone (s : Store) (i : Nat) : Store :=
  { s with tombstoned := Function.update s.tombstoned i true }

def recordUpdateMapping (s : Store) (r i : Nat) : Store :=
  { s with updated := Function.update s.updated r (some i) }

def forgetUpdateMapping (s : Store) (r : Nat) : Store :=
  { s with updated := Function.update s.updated r .none }

end Store

/-! ## Checks -/

def kMaxMetadataJsonBytes : Nat := 64 * 1024

def kMaxStringBytes : Nat := 1024

variable {F Doc : Type} (engine : Engine F Doc)

def parseMetadataObject (json : JsonLibrary Doc) (text : Text) : Except Status Doc :=
  if kMaxMetadataJsonBytes < text.length then
    .error (.invalidArgument "metadata JSON exceeds 65536 bytes")
  else
    match json.parse text with
    | .error what => .error (.invalidArgument ("metadata parse error: " ++ what))
    | .ok doc =>
        if json.isObject doc then .ok doc
        else .error (.invalidArgument "metadata must be a JSON object")

def ensureMetricSupported : Status :=
  if engine.metricSupported then .ok else .notSupported "unsupported distance metric"

def validateVector (vec : List F) : Status :=
  if vec.length ≠ engine.cfg.dim then .invalidArgument "vector dimension mismatch" else .ok

/-- An empty text is no payload. -/
def validateMetadata (metadata : Text) : Status :=
  if metadata = [] then .ok
  else
    match parseMetadataObject engine.json metadata with
    | .error status => status
    | .ok _ => .ok

def validateInsertArgs (vec : List F) (metadata : Text) : Status :=
  if ensureMetricSupported engine ≠ .ok then ensureMetricSupported engine
  else if validateVector engine vec ≠ .ok then validateVector engine vec
  else validateMetadata engine metadata

/-- The ids a store takes. -/
def checkId (id : PointId) : Status :=
  match id with
  | .str text =>
      if engine.keyed then
        if kMaxStringBytes < text.length then
          .invalidArgument "string id longer than 1024 bytes"
        else .ok
      else .invalidArgument "string ids need a store created with id_mode keyed"
  | .int value =>
      if engine.keyed = false ∧ kMaxRealId < value.toNat then
        .invalidArgument "real_id must fit in 63 bits"
      else .ok

def validateInsert (id : PointId) (vec : List F) (metadata : Text) : Status :=
  if checkId engine id ≠ .ok then checkId engine id else validateInsertArgs engine vec metadata

/-! ## Ids -/

/-- The dense id of an integer, and its key. -/
def denseOf : PointId → Nat
  | .int value => value.toNat
  | .str _ => 0

/-- An id that is resolved: its dense id and its key. -/
abbrev Resolved := Nat × List UInt8

/-- A key without a dense id gets the next one when `create` is set. -/
def resolveId (faults : Faults) (id : PointId) (create : Bool) (s : Store) :
    Except Status Resolved × Store :=
  if checkId engine id ≠ .ok then (.error (checkId engine id), s)
  else if engine.keyed = false then (.ok (denseOf id, []), s)
  else
    let key := PointIds.encode id
    if faults.lookupKey ≠ .ok then (.error faults.lookupKey, s)
    else
      match s.keyIds key with
      | some dense => (.ok (dense, key), s)
      | none =>
          if create = false then (.error (.notFound ""), s)
          else
            let next := s.nextDenseId
            let s := { s with nextDenseId := (next + 1) % 2 ^ 64 }
            if kMaxRealId < next then (.error (.invalidArgument "id space exhausted"), s)
            else if faults.putKey ≠ .ok then (.error faults.putKey, s)
            else (.ok (next, key), { s with keyIds := Function.update s.keyIds key (some next) })

/-! ## The log -/

/-- A record is appended when there is a log. -/
def logOp (fault : Option OpLog.Fault) (rec : OpLog.OpRecord) (s : Store) :
    Except Status Nat × Store :=
  match s.log with
  | none => (.ok 0, s)
  | some log =>
      let appended := OpLog.append fault rec log s.segments
      let s := { s with log := some appended.2.1, segments := appended.2.2 }
      match appended.1 with
      | .ok lsn => (.ok lsn, s)
      | .error status => (.error (.ofLog status), s)

def writeRecord (op : OpLog.OpType) (real internal aux : Nat) (vec : List F) (payload : Text)
    (key : List UInt8) : OpLog.OpRecord :=
  { lsn := 0, op := op, encoding := engine.encodingTag, realId := real, internalId := internal,
    aux := aux, record := engine.encodeRecord vec, key := key, payload := payload }

/-- A record without a vector. -/
def bareRecord (op : OpLog.OpType) (real internal aux : Nat) : OpLog.OpRecord :=
  { lsn := 0, op := op, encoding := 0, realId := real, internalId := internal, aux := aux,
    record := [], key := [], payload := [] }

/-- An operation that failed after it was logged is marked in the log. -/
def logAbort (fault : Option OpLog.Fault) (lsn : Nat) (s : Store) : Store :=
  if lsn = 0 then s
  else
    (logOp fault (bareRecord .kAbort 0 0 lsn) s).2

/-! ## Writes of vectors -/

/-- A payload goes to a new version, or that of the old version does. -/
def migrateMetadata (faults : Faults) (oldInternal newInternal : Nat) (metadata : Text)
    (s : Store) : Status × Store :=
  if metadata ≠ [] then
    if faults.put ≠ .ok then (faults.put, s) else (.ok, s.setRow newInternal (some metadata))
  else
    match if faults.get = .ok then s.rows oldInternal else none with
    | none => (.ok, s)
    | some oldMeta =>
        if faults.put ≠ .ok then (faults.put, s) else (.ok, s.setRow newInternal (some oldMeta))

/-- A new version of a vector that is alive. -/
def updateAlive (faults : Faults) (r : Nat) (vec : List F) (metadata : Text)
    (key : List UInt8) (s : Store) : Status × Store :=
  let oldInternal := s.resolveInternal r
  let newInternal := s.nextUpdateId
  let s := { s with nextUpdateId := newInternal + 1 }
  match logOp faults.append
      (writeRecord engine .kUpdate r newInternal oldInternal vec metadata key) s with
  | (.error status, s) => (status, s)
  | (.ok lsn, s) =>
      if faults.insertNode ≠ .ok then (faults.insertNode, logAbort faults.abort lsn s)
      else
        let s := ((s.storeVector newInternal).recordUpdateMapping r newInternal).tombstone
          oldInternal
        match migrateMetadata faults oldInternal newInternal metadata s with
        | (.ok, s) =>
            match faults.delete with
            | .ok | .notFound _ => (.ok, s.setRow oldInternal none)
            | status => (status, s)
        | (status, s) => (status, s)

/-- A vector that is not alive, under its own id or, once deleted, under a new one. -/
def insertNew (faults : Faults) (r : Nat) (vec : List F) (metadata : Text) (key : List UInt8)
    (s : Store) : Status × Store :=
  let reinsert := s.tombstoned r
  let target := if reinsert then s.nextUpdateId else r
  let s := if reinsert then { s with nextUpdateId := s.nextUpdateId + 1 } else s
  match logOp faults.append (writeRecord engine .kInsert r target 0 vec metadata key) s with
  | (.error status, s) => (status, s)
  | (.ok lsn, s) =>
      let s := if reinsert then s.recordUpdateMapping r target else s
      if faults.insertNode ≠ .ok then (faults.insertNode, logAbort faults.abort lsn s)
      else
        let s := s.storeVector target
        if metadata = [] then (.ok, s)
        else if faults.put ≠ .ok then (faults.put, s)
        else (.ok, s.setRow target (some metadata))

/-- An insert of a vector that is alive is an update of it. -/
def insertDense (faults : Faults) (r : Nat) (vec : List F) (metadata : Text)
    (key : List UInt8) (s : Store) : Status × Store :=
  if validateInsertArgs engine vec metadata ≠ .ok then
    (validateInsertArgs engine vec metadata, s)
  else if s.isAlive r then
    if kMaxRealId < r then (.invalidArgument "real_id must fit in 63 bits", s)
    else if validateVector engine vec ≠ .ok then (validateVector engine vec, s)
    else if validateMetadata engine metadata ≠ .ok then (validateMetadata engine metadata, s)
    else updateAlive engine faults r vec metadata key s
  else insertNew engine faults r vec metadata key s

/-- An update of a vector that is not alive is an insert of it. -/
def updateDense (faults : Faults) (r : Nat) (vec : List F) (metadata : Text)
    (key : List UInt8) (s : Store) : Status × Store :=
  if kMaxRealId < r then (.invalidArgument "real_id must fit in 63 bits", s)
  else if validateVector engine vec ≠ .ok then (validateVector engine vec, s)
  else if validateMetadata engine metadata ≠ .ok then (validateMetadata engine metadata, s)
  else if s.isAlive r = false then insertDense engine faults r vec metadata key s
  else updateAlive engine faults r vec metadata key s

def insert (faults : Faults) (id : PointId) (vec : List F) (metadata : Text) (s : Store) :
    Status × Store :=
  if validateInsert engine id vec metadata ≠ .ok then (validateInsert engine id vec metadata, s)
  else
    match resolveId engine faults id true s with
    | (.error status, s) => (status, s)
    | (.ok (r, key), s) => insertDense engine faults r vec metadata key s

def update (faults : Faults) (id : PointId) (vec : List F) (s : Store) : Status × Store :=
  if validateInsert engine id vec [] ≠ .ok then (validateInsert engine id vec [], s)
  else
    match resolveId engine faults id true s with
    | (.error status, s) => (status, s)
    | (.ok (r, key), s) => updateDense engine faults r vec [] key s

/-! ## Payload calls -/

def deleteDense (faults : Faults) (r : Nat) (s : Store) : Status × Store :=
  let i := s.resolveInternal r
  if s.located i = false then (.ok, s)
  else
    match logOp faults.append (bareRecord .kDelete r i 0) s with
    | (.error status, s) => (status, s)
    | (.ok _, s) =>
        let s := s.tombstone i
        match faults.delete with
        | .ok | .notFound _ => (.ok, (s.setRow i none).forgetUpdateMapping r)
        | status => (status, s)

/-- `SetPayload` of an id that is resolved. -/
def setPayloadDense (faults : Faults) (r : Nat) (metadata : Text) (s : Store) :
    Status × Store :=
  if s.isAlive r = false then (.notFound "vector not found for id", s)
  else
    match parseMetadataObject engine.json metadata with
    | .error status => (status, s)
    | .ok _ =>
        if faults.put ≠ .ok then (faults.put, s)
        else (.ok, s.setRow (s.resolveInternal r) (some metadata))

/-- The document of a row; no row is an empty object. -/
def readDocument (faults : Faults) (i : Nat) (s : Store) : Except Status (Option Doc) :=
  match faults.get with
  | .ok =>
      match s.rows i with
      | none => .ok none
      | some text =>
          match engine.json.parse text with
          | .error what => .error (.corruption ("metadata parse error: " ++ what))
          | .ok doc => .ok (some doc)
  | .notFound _ => .ok none
  | status => .error status

/-- `MetadataStore::Update`. -/
def updateRow (faults : Faults) (i : Nat) (patch : Doc) (s : Store) : Status × Store :=
  match readDocument engine faults i s with
  | .error status => (status, s)
  | .ok existing =>
      if faults.put ≠ .ok then (faults.put, s)
      else
        (.ok, s.setRow i (some (engine.json.dump
          (engine.json.mergePatch (existing.getD engine.json.object) patch))))

def updatePayloadDense (faults : Faults) (r : Nat) (patch : Text) (s : Store) :
    Status × Store :=
  if s.isAlive r = false then (.notFound "vector not found for id", s)
  else
    match parseMetadataObject engine.json patch with
    | .error status => (status, s)
    | .ok doc => updateRow engine faults (s.resolveInternal r) doc s

/-- `MetadataStore::DeleteKeys`. -/
def deleteKeys (faults : Faults) (i : Nat) (keys : List Text) (s : Store) : Status × Store :=
  match readDocument engine faults i s with
  | .error status => (status, s)
  | .ok none => (.notFound "", s)
  | .ok (some existing) =>
      if engine.json.isObject existing = false then
        (.invalidArgument "metadata is not an object", s)
      else if faults.put ≠ .ok then (faults.put, s)
      else (.ok, s.setRow i (some (engine.json.dump (keys.foldl engine.json.erase existing))))

/-- This call does not ask whether the id is alive. -/
def deletePayloadKeysDense (faults : Faults) (r : Nat) (keys : List Text) (s : Store) :
    Status × Store :=
  deleteKeys engine faults (s.resolveInternal r) keys s

/-- An id that is looked up; one that was never written is not found. -/
def lookedUp (faults : Faults) (id : PointId) (s : Store) : Except Status Nat :=
  match (resolveId engine faults id false s).1 with
  | .ok (r, _) => .ok r
  | .error (.notFound _) => .error (.notFound "vector not found for id")
  | .error status => .error status

def setPayload (faults : Faults) (id : PointId) (metadata : Text) (s : Store) :
    Status × Store :=
  match lookedUp engine faults id s with
  | .error status => (status, s)
  | .ok r => setPayloadDense engine faults r metadata s

def updatePayload (faults : Faults) (id : PointId) (patch : Text) (s : Store) :
    Status × Store :=
  match lookedUp engine faults id s with
  | .error status => (status, s)
  | .ok r => updatePayloadDense engine faults r patch s

def deletePayloadKeys (faults : Faults) (id : PointId) (keys : List Text) (s : Store) :
    Status × Store :=
  match lookedUp engine faults id s with
  | .error status => (status, s)
  | .ok r => deletePayloadKeysDense engine faults r keys s

/-- An id that was never written has nothing to delete. -/
def delete (faults : Faults) (id : PointId) (s : Store) : Status × Store :=
  match lookedUp engine faults id s with
  | .error (.notFound _) => (.ok, s)
  | .error status => (status, s)
  | .ok r => deleteDense faults r s

/-- An id in a message. -/
def describeId : PointId → String
  | .int value => toString value.toNat
  | .str text => String.ofList (text.map fun byte => Char.ofNat byte.toNat)

/-- Every item of a batch is checked before any row is written. -/
def checkItems (s : Store) : List (Faults × PointId × Text) → Except Status (List (Nat × Text))
  | [] => .ok []
  | (faults, id, metadata) :: items =>
      match lookedUp engine faults id s with
      | .error (.notFound text) => .error (.notFound (text ++ " " ++ describeId id))
      | .error status => .error status
      | .ok r =>
          if s.isAlive r = false then
            .error (.notFound ("vector not found for id " ++ describeId id))
          else
            match parseMetadataObject engine.json metadata with
            | .error status => .error status
            | .ok _ =>
                match checkItems s items with
                | .error status => .error status
                | .ok rest => .ok ((s.resolveInternal r, metadata) :: rest)

/-- The rows of a batch are written together. -/
def setPayloadBatch (faults : Faults) (items : List (Faults × PointId × Text)) (s : Store) :
    Status × Store :=
  match checkItems engine s items with
  | .error status => (status, s)
  | .ok rows =>
      if faults.put ≠ .ok then (faults.put, s)
      else (.ok, rows.foldl (fun s row => s.setRow row.1 (some row.2)) s)

/-- No row is the payload `{}`. -/
def getPayload (faults : Faults) (id : PointId) (s : Store) : Except Status Text :=
  match lookedUp engine faults id s with
  | .error (.notFound _) => .ok emptyText
  | .error status => .error status
  | .ok r =>
      match faults.get with
      | .ok => .ok ((s.rows (s.resolveInternal r)).getD emptyText)
      | .notFound _ => .ok emptyText
      | status => .error status

end AsterVec.PayloadWrites

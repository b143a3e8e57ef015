import AsterVec.IndexEnds
import AsterVec.PayloadWrites
import AsterVec.VectorStorages

/-!
Inserts and reads of the database over a vector storage of either kind.  Whether an id is
alive is the storage's answer, and an insert of an id that is alive becomes an update under
an id of the update namespace.
-/

namespace AsterVec.StorageInserts

open AsterVec.Dense (SearchEnd)
open AsterVec.IdTypes (kMaxRealId kFirstUpdateId)
open AsterVec.IndexGraph (GraphStore Index Space)
open AsterVec.PagedVectorStorage (NodeId Outcome)
open AsterVec.PayloadWrites (JsonLibrary Text parseMetadataObject)
open AsterVec.VectorStorages

/-- The settings of a database, with the code it calls outside.  `what` is the text of the
exceptions that are caught. -/
structure Setup (F D σ R Doc : Type) [LinearOrder D] where
  dim : Nat
  metricSupported : Bool
  json : JsonLibrary Doc
  storage : VectorStorage F σ R
  graph : IndexGraph.Config
  edges : GraphStore
  space : Space (List F) D
  what : String

/-- What the log and the payload store answer. -/
structure Answers where
  append : PayloadWrites.Status
  put : PayloadWrites.Status
  get : PayloadWrites.Status
  delete : PayloadWrites.Status

def Answers.fine : Answers := ⟨.ok, .ok, .ok, .ok⟩

structure Db (F σ : Type) where
  storage : σ
  index : Index (List F)
  tombstoned : Nat → Bool
  updated : Nat → Option Nat
  nextUpdateId : Nat
  liveCount : Int
  rows : Nat → Option Text

def Db.fresh {F σ : Type} (storage : σ) : Db F σ where
  storage := storage
  index := Index.empty (List F)
  tombstoned _ := false
  updated _ := none
  nextUpdateId := kFirstUpdateId
  liveCount := 0
  rows _ := none

/-- What one insert draws and meets on its way: the level of its node, the section its walk
comes by, and the ids whose vectors its searches and its shrinking fetch.  `fuel` bounds the
turns of each loop. -/
structure Draw where
  fuel : Nat
  level : Nat
  sectionKey : NodeId
  fetched : List Nat
  refetched : List Nat

structure Request (F : Type) where
  id : Nat
  vec : List F
  metadata : Text
  draw : Draw

variable {F D σ R Doc : Type} [LinearOrder D] (setup : Setup F D σ R Doc)

/-! ## The index over a storage -/

/-- The vector a storage has for an id. -/
def shown (st : σ) (id : Nat) : Option (List F) :=
  if setup.storage.hasLocation st id then
    match (setup.storage.readVectorFromDisk id st).1 with
    | .returned record => some (setup.storage.decodeRecord record)
    | _ => none
  else none

/-- The index with the vectors of the storage. -/
def seen (st : σ) (x : Index (List F)) : Index (List F) := { x with vectors := shown setup st }

/-- The storage after reads of some ids; what they return is in `shown`. -/
def fetch (ids : List Nat) (st : σ) : σ :=
  ids.foldl (fun st id => (setup.storage.readVectorFromDisk id st).2) st

/-- The descent and the selections of an insert: the neighbors on each layer. -/
def selectAll (draw : Draw) (vector : List F) (x : Index (List F)) (entryPoint : Nat) :
    SearchEnd ((Nat → List Nat) × List Nat) := do
  let observedMaxLayer := x.maxLayer.toNat
  let currentEntryPoint ← IndexGraph.descend setup.space vector x draw.fuel draw.level
    observedMaxLayer entryPoint
  let (currentEntryPoint, selectedPerLayer) ← IndexGraph.selectUpper setup.graph setup.space x
    vector draw.fuel (min observedMaxLayer draw.level) currentEntryPoint
  let (_, selectedLevel0) ← IndexGraph.selectAt setup.graph setup.space x vector draw.fuel 0
    currentEntryPoint
  .hits (selectedPerLayer, selectedLevel0)

/-- The links of a node whose vector is stored, the shrinking of its neighbors' lists, and its
promotion. -/
def linkAll (nodeId level : Nat) (selectedPerLayer : Nat → List Nat) (selectedLevel0 : List Nat)
    (x : Index (List F)) : SearchEnd (Index (List F)) := do
  let linked ← IndexGraph.linkUpper setup.graph setup.space nodeId selectedPerLayer
    (min x.maxLayer.toNat level)
    (IndexGraph.linkNeighborsAsterDB setup.edges nodeId selectedLevel0 x)
  let shrunk ← IndexGraph.shrink setup.graph setup.edges setup.space selectedLevel0 linked
  .hits (IndexGraph.promote nodeId level shrunk)

/-- Insert a node.  The first one is stored and becomes the entry point; a later one is
stored between the selection of its neighbors and their links.  An exception leaves what was
changed before it. -/
def insertNode (draw : Draw) (nodeId : Nat) (vector : List F) (encoded : R) (db : Db F σ) :
    Outcome Unit × Db F σ :=
  let db := { db with
    index := if 0 < draw.level then
        IndexGraph.publish nodeId (setup.space.quantized vector) db.index
      else db.index }
  match db.index.entryPoint with
  | none =>
      match setup.storage.storeEncoded nodeId encoded nodeId db.storage with
      | (.returned (), st) => (.returned (), { db with
          storage := st
          index := { db.index with entryPoint := some nodeId, maxLayer := draw.level } })
      | (outcome, st) => (outcome, { db with storage := st })
  | some entryPoint =>
      match selectAll setup draw vector (seen setup db.storage db.index) entryPoint with
      | .exhausted => (.undefined, db)
      | .hits (selectedPerLayer, selectedLevel0) =>
          match setup.storage.storeEncoded nodeId encoded draw.sectionKey
              (fetch setup draw.fetched db.storage) with
          | (.returned (), st) =>
              match linkAll setup nodeId draw.level selectedPerLayer selectedLevel0
                  (seen setup st db.index) with
              | .exhausted => (.undefined, { db with storage := st })
              | .hits index =>
                  (.returned (), { db with
                    storage := fetch setup draw.refetched st, index := index })
              | _ => (.threw, { db with storage := st })
          | (outcome, st) => (outcome, { db with storage := st })
      | _ => (.threw, db)

/-! ## Calls of the database -/

def resolveInternal (db : Db F σ) (r : Nat) : Nat := (db.updated r).getD r

def isAlive (db : Db F σ) (r : Nat) : Bool :=
  !db.tombstoned (resolveInternal db r) &&
    setup.storage.vectorExists db.storage (resolveInternal db r)

def validateVector (vec : List F) : PayloadWrites.Status :=
  if vec.length ≠ setup.dim then .invalidArgument "vector dimension mismatch" else .ok

/-- An empty text is no payload. -/
def validateMetadata (metadata : Text) : PayloadWrites.Status :=
  if metadata = [] then .ok
  else
    match parseMetadataObject setup.json metadata with
    | .error status => status
    | .ok _ => .ok

def validateInsertArgs (vec : List F) (metadata : Text) : PayloadWrites.Status :=
  if setup.metricSupported = false then .notSupported "unsupported distance metric"
  else if validateVector setup vec ≠ .ok then validateVector setup vec
  else validateMetadata setup metadata

/-- The status of a call whose insert of a node has ended; an exception becomes a status and
an insert that never ends has none. -/
def afterInsert (inserted : Outcome Unit × Db F σ)
    (follow : Db F σ → Option PayloadWrites.Status × Db F σ) :
    Option PayloadWrites.Status × Db F σ :=
  match inserted with
  | (.returned (), db) => follow db
  | (.threw, db) => (some (.ioError setup.what), db)
  | (.undefined, db) => (none, db)

/-- A payload goes to a new version, or that of the old version does. -/
def migrateMetadata (answers : Answers) (oldInternal newInternal : Nat) (metadata : Text)
    (db : Db F σ) : PayloadWrites.Status × Db F σ :=
  let moved := if metadata = [] then
      (if answers.get = .ok then db.rows oldInternal else none)
    else some metadata
  match moved with
  | none => (.ok, db)
  | some text =>
      if answers.put ≠ .ok then (answers.put, db)
      else (.ok, { db with rows := Function.update db.rows newInternal (some text) })

/-- A new version of a vector that is alive, under a fresh id of the update namespace. -/
def updateAlive (answers : Answers) (request : Request F) (db : Db F σ) :
    Option PayloadWrites.Status × Db F σ :=
  let oldInternal := resolveInternal db request.id
  let newInternal := db.nextUpdateId
  let db := { db with nextUpdateId := newInternal + 1 }
  if answers.append ≠ .ok then (some answers.append, db)
  else
    afterInsert setup (insertNode setup request.draw newInternal request.vec
      (setup.storage.encodeRecord request.vec) db) fun db =>
        let db := { db with
          updated := Function.update db.updated request.id (some newInternal)
          tombstoned := Function.update db.tombstoned oldInternal true }
        match migrateMetadata answers oldInternal newInternal request.metadata db with
        | (.ok, db) =>
            match answers.delete with
            | .ok | .notFound _ =>
                (some .ok, { db with rows := Function.update db.rows oldInternal none })
            | status => (some status, db)
        | (status, db) => (some status, db)

/-- A vector that is not alive, under its own id or, once deleted, under a fresh one. -/
def insertNew (answers : Answers) (request : Request F) (db : Db F σ) :
    Option PayloadWrites.Status × Db F σ :=
  let reinsert := db.tombstoned request.id
  let target := if reinsert then db.nextUpdateId else request.id
  let db := if reinsert then { db with nextUpdateId := db.nextUpdateId + 1 } else db
  if answers.append ≠ .ok then (some answers.append, db)
  else
    let db := if reinsert then
        { db with updated := Function.update db.updated request.id (some target) }
      else db
    afterInsert setup (insertNode setup request.draw target request.vec
      (setup.storage.encodeRecord request.vec) db) fun db =>
        let db := { db with liveCount := db.liveCount + 1 }
        if request.metadata = [] then (some .ok, db)
        else if answers.put ≠ .ok then (some answers.put, db)
        else (some .ok, { db with
          rows := Function.update db.rows target (some request.metadata) })

/-- An insert of a vector that is alive is an update of it. -/
def insertDense (answers : Answers) (request : Request F) (db : Db F σ) :
    Option PayloadWrites.Status × Db F σ :=
  if validateInsertArgs setup request.vec request.metadata ≠ .ok then
    (some (validateInsertArgs setup request.vec request.metadata), db)
  else if isAlive setup db request.id then
    if kMaxRealId < request.id then
      (some (.invalidArgument "real_id must fit in 63 bits"), db)
    else if validateVector setup request.vec ≠ .ok then
      (some (validateVector setup request.vec), db)
    else if validateMetadata setup request.metadata ≠ .ok then
      (some (validateMetadata setup request.metadata), db)
    else updateAlive setup answers request db
  else insertNew setup answers request db

/-- The vector of an id; `none` when the read is undefined. -/
def getDense (r : Nat) (db : Db F σ) :
    Option (Except PayloadWrites.Status (List F)) × Db F σ :=
  if isAlive setup db r = false then
    (some (.error (.notFound "vector deleted or missing")), db)
  else
    match setup.storage.readVectorFromDisk (resolveInternal db r) db.storage with
    | (.returned record, st) =>
        (some (.ok (setup.storage.decodeRecord record)), { db with storage := st })
    | (.threw, st) => (some (.error (.ioError setup.what)), { db with storage := st })
    | (.undefined, st) => (none, { db with storage := st })

def vectorCount (db : Db F σ) : Nat := db.liveCount.toNat

/-! ## Runs of inserts -/

/-- The statuses of the inserts of a sequence, and the database after them. -/
def insertAll (answers : Answers) :
    List (Request F) → Db F σ → List (Option PayloadWrites.Status) × Db F σ
  | [], db => ([], db)
  | request :: requests, db =>
      let inserted := insertDense setup answers request db
      let rest := insertAll answers requests inserted.2
      (inserted.1 :: rest.1, rest.2)

/-- Requests with ids of their own below the capacity, arguments that pass the checks, and
turns for as many nodes as there are requests. -/
structure WellFormed (capacity : Nat) (requests : List (Request F)) : Prop where
  distinct : (requests.map Request.id).Nodup
  below : ∀ request ∈ requests, request.id < capacity
  valid : ∀ request ∈ requests,
    validateInsertArgs setup request.vec request.metadata = .ok
  fuel : ∀ request ∈ requests, requests.length < request.draw.fuel

/-- How the storage takes the vector of a request under the id of the request. -/
def storing (request : Request F) (db : Db F σ) : Outcome Unit :=
  match db.index.entryPoint with
  | none => (setup.storage.storeEncoded request.id (setup.storage.encodeRecord request.vec)
      request.id db.storage).1
  | some _ => (setup.storage.storeEncoded request.id (setup.storage.encodeRecord request.vec)
      request.draw.sectionKey (fetch setup request.draw.fetched db.storage)).1

/-- No store of a request's vector fails, where it is made under an id of the request. -/
def NoFailingStore : List (Request F) → Db F σ → Prop
  | [], _ => True
  | request :: requests, db => storing setup request db = .returned () ∧
      NoFailingStore requests (insertDense setup .fine request db).2

/-- Every insert returns OK, all of them are counted, and every id below the capacity is
found with its vector, or not found if it was not inserted. -/
structure InsertsWork (capacity : Nat) (requests : List (Request F)) (db : Db F σ) : Prop where
  statuses : (insertAll setup .fine requests db).1 = requests.map fun _ => some .ok
  count : vectorCount (insertAll setup .fine requests db).2 = requests.length
  found : ∀ request ∈ requests,
    (getDense setup request.id (insertAll setup .fine requests db).2).1 =
      some (.ok (setup.storage.decodeRecord (setup.storage.encodeRecord request.vec)))
  missing : ∀ id < capacity, id ∉ requests.map Request.id →
    (getDense setup id (insertAll setup .fine requests db).2).1 =
      some (.error (.notFound "vector deleted or missing"))

end AsterVec.StorageInserts

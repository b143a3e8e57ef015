import AsterVec.DegreeBounds
import AsterVec.PayloadRuns
import AsterVec.StorageRuns

/-!
The two kinds of vector storage a database can be opened with.  Inserts work over the paged
one.  The plain one reports every id below its capacity as alive, so a first insert is routed
to an update, whose id lies beyond the capacity.
-/

namespace AsterVec.StorageInserts

open AsterVec.ByteBuffer
open AsterVec.IdTypes (kMaxRealId kFirstUpdateId)
open AsterVec.IndexGraph (GraphStore Space)
open AsterVec.PagedVectorStorage (Outcome kPageSize)
open AsterVec.PayloadWrites (JsonLibrary)
open AsterVec.VectorStorages

/-- The options a database is opened with.  The paged storage quantizes its vectors, the plain
one copies their bytes. -/
structure Options (F D Doc : Type) [LinearOrder D] where
  dim : Nat
  maxCachedPages : Nat
  writeBufCap : Nat
  metricSupported : Bool
  json : JsonLibrary Doc
  graph : IndexGraph.Config
  edges : GraphStore
  space : Space (List F) D
  what : String
  quantize : ∀ cfg : PagedVectorStorage.Config, List F → PagedVectorStorage.Record cfg
  dequantize : ∀ cfg : PagedVectorStorage.Config, PagedVectorStorage.Record cfg → List F
  toBytes : ∀ cfg : BasicVectorStorage.Config, List F → BasicVectorStorage.Record cfg
  ofBytes : ∀ cfg : BasicVectorStorage.Config, BasicVectorStorage.Record cfg → List F

variable {F D Doc : Type} [LinearOrder D]

def Options.setup {σ R : Type} (options : Options F D Doc) (storage : VectorStorage F σ R) :
    Setup F D σ R Doc where
  dim := options.dim
  metricSupported := options.metricSupported
  json := options.json
  storage := storage
  graph := options.graph
  edges := options.edges
  space := options.space
  what := options.what

def Options.pagedConfig (options : Options F D Doc)
    (hdim : 0 < options.dim ∧ options.dim + 8 ≤ kPageSize) : PagedVectorStorage.Config :=
  ⟨options.dim, options.maxCachedPages, options.writeBufCap, hdim.1, hdim.2⟩

/-- An open database: its settings and the vector storage it starts with. -/
structure Opened (F D Doc : Type) [LinearOrder D] where
  State : Type
  Record : Type
  setup : Setup F D State Record Doc
  initial : State

/-- Open a database over new files; `none` when its storage cannot be constructed. -/
def openStorage (options : Options F D Doc) (vectorStorageType : Int) (capacity : Nat) :
    Option (Opened F D Doc) :=
  if vectorStorageType = 1 then
    if hdim : 0 < options.dim ∧ options.dim + 8 ≤ kPageSize then
      (PagedVectorStorage.Store.construct (options.pagedConfig hdim) capacity ByteFile.empty
        fun _ => false).map fun st =>
          ⟨_, _, options.setup (pagedVectorStorage (options.quantize _) (options.dequantize _)),
            st⟩
    else none
  else
    if hdim : 0 < options.dim then
      (BasicVectorStorage.construct ⟨options.dim, hdim⟩ capacity ByteFile.empty
        fun _ => false).map fun st =>
          ⟨_, _, options.setup (basicVectorStorage (options.toBytes _) (options.ofBytes _)), st⟩
    else none

/-! ## The plain storage -/

theorem valid_parts {σ R : Type} {setup : Setup F D σ R Doc} {vec : List F}
    {metadata : PayloadWrites.Text} (hvalid : validateInsertArgs setup vec metadata = .ok) :
    validateVector setup vec = .ok ∧ validateMetadata setup metadata = .ok := by
  unfold validateInsertArgs at hvalid
  split at hvalid
  · cases hvalid
  · split at hvalid
    · rename_i hvector
      exact absurd hvalid hvector
    · rename_i hvector
      exact ⟨not_not.1 hvector, hvalid⟩

section Plain

variable {cfg : BasicVectorStorage.Config} {options : Options F D Doc}
  {toBytes : List F → BasicVectorStorage.Record cfg}
  {ofBytes : BasicVectorStorage.Record cfg → List F} {capacity : Nat}
  {fresh : BasicVectorStorage.Store cfg}

theorem plain_isAlive
    (hfresh : BasicVectorStorage.construct cfg capacity ByteFile.empty (fun _ => false) =
      some fresh) {id : Nat} (hid : id < capacity) :
    isAlive (options.setup (basicVectorStorage toBytes ofBytes)) (Db.fresh fresh) id = true :=
  ((fresh_basic hfresh).2.2 id hid).1

/-- The insert of an id below the capacity is logged as an update, and its store under the
first update id throws. -/
theorem plain_insertDense
    (hfresh : BasicVectorStorage.construct cfg capacity ByteFile.empty (fun _ => false) =
      some fresh) {request : Request F} (hid : request.id < capacity)
    (hvalid : validateInsertArgs (options.setup (basicVectorStorage toBytes ofBytes))
      request.vec request.metadata = .ok) :
    (insertDense (options.setup (basicVectorStorage toBytes ofBytes)) .fine request
      (Db.fresh fresh)).1 = some (.ioError options.what) := by
  obtain ⟨htotal, hcapacity, -⟩ := fresh_basic hfresh
  have halive : isAlive (options.setup (basicVectorStorage toBytes ofBytes)) (Db.fresh fresh)
      request.id = true := plain_isAlive hfresh hid
  obtain ⟨hvector, hmetadata⟩ := valid_parts hvalid
  have hreal : ¬ kMaxRealId < request.id := by
    change ¬ 2 ^ 63 - 1 < request.id
    omega
  have hthrows : ∀ encoded, BasicVectorStorage.storeEncoded kFirstUpdateId encoded
      kFirstUpdateId fresh = (.threw, fresh) := by
    intro encoded
    unfold BasicVectorStorage.storeEncoded
    rw [if_pos]
    change fresh.totalVectors ≤ 2 ^ 63
    omega
  have hinserted : ∃ db, insertNode (options.setup (basicVectorStorage toBytes ofBytes))
      request.draw kFirstUpdateId request.vec (toBytes request.vec)
      { (Db.fresh fresh : Db F _) with nextUpdateId := kFirstUpdateId + 1 } = (.threw, db) := by
    have hentry : ∀ index : IndexGraph.Index (List F), (if 0 < request.draw.level then
        IndexGraph.publish kFirstUpdateId (options.space.quantized request.vec) index
        else index).entryPoint = index.entryPoint := by
      intro index
      split <;> rfl
    have hthrown : (basicVectorStorage toBytes ofBytes).storeEncoded kFirstUpdateId
        (toBytes request.vec) kFirstUpdateId fresh = (.threw, fresh) := hthrows _
    unfold insertNode
    simp only [Options.setup, hentry, Db.fresh, IndexGraph.Index.empty, hthrown]
    exact ⟨_, rfl⟩
  obtain ⟨db, hinserted⟩ := hinserted
  unfold insertDense
  rw [if_neg (not_not.2 hvalid), if_pos halive, if_neg hreal, if_neg (not_not.2 hvector),
    if_neg (not_not.2 hmetadata)]
  unfold updateAlive
  rw [if_neg (by simp [Answers.fine])]
  change (afterInsert _ (insertNode (options.setup (basicVectorStorage toBytes ofBytes))
    request.draw kFirstUpdateId request.vec (toBytes request.vec)
    { (Db.fresh fresh : Db F _) with nextUpdateId := kFirstUpdateId + 1 }) _).1 = _
  rw [hinserted]
  rfl

/-- Before any insert an id below the capacity is found. -/
theorem plain_getDense
    (hfresh : BasicVectorStorage.construct cfg capacity ByteFile.empty (fun _ => false) =
      some fresh) {id : Nat} (hid : id < capacity) :
    ∃ vec, (getDense (options.setup (basicVectorStorage toBytes ofBytes)) id
      (Db.fresh fresh)).1 = some (.ok vec) := by
  have halive : isAlive (options.setup (basicVectorStorage toBytes ofBytes)) (Db.fresh fresh)
      id = true := plain_isAlive hfresh hid
  obtain ⟨record, hread⟩ := ((fresh_basic hfresh).2.2 id hid).2
  have hread' : (options.setup (basicVectorStorage toBytes ofBytes)).storage.readVectorFromDisk
      (resolveInternal (Db.fresh fresh : Db F _) id) (Db.fresh fresh : Db F _).storage =
        (.returned record, fresh) := hread
  refine ⟨ofBytes record, ?_⟩
  unfold getDense
  rw [if_neg (by rw [halive]; decide), hread']
  rfl

/-- Inserts work over no plain storage that has room for an id. -/
theorem plain_not_insertsWork
    (hfresh : BasicVectorStorage.construct cfg capacity ByteFile.empty (fun _ => false) =
      some fresh) (hcapacity : 0 < capacity) {requests : List (Request F)}
    (hrequests : WellFormed (options.setup (basicVectorStorage toBytes ofBytes)) capacity
      requests) :
    ¬InsertsWork (options.setup (basicVectorStorage toBytes ofBytes)) capacity requests
      (Db.fresh fresh) := by
  intro hwork
  cases requests with
  | nil =>
      obtain ⟨vec, hget⟩ : ∃ vec, (getDense (options.setup (basicVectorStorage toBytes ofBytes)) 0
        (Db.fresh fresh)).1 = some (.ok vec) := plain_getDense hfresh hcapacity
      have hmissing := hwork.missing 0 hcapacity (by simp)
      change (getDense _ 0 (Db.fresh fresh)).1 = _ at hmissing
      rw [hget] at hmissing
      cases hmissing
  | cons request requests =>
      have hfails : (insertDense (options.setup (basicVectorStorage toBytes ofBytes)) .fine
          request (Db.fresh fresh)).1 = some (.ioError options.what) :=
        plain_insertDense hfresh (hrequests.below request List.mem_cons_self)
          (hrequests.valid request List.mem_cons_self)
      have hok := (List.cons.inj hwork.statuses).1
      rw [hfails] at hok
      cases hok

end Plain

/-! ## Both kinds -/

/-- With no room for an id there is nothing to insert and nothing to find. -/
theorem insertsWork_of_no_room {σ R : Type} {setup : Setup F D σ R Doc} {db : Db F σ}
    (hcount : vectorCount db = 0) {requests : List (Request F)}
    (hrequests : WellFormed setup 0 requests) : InsertsWork setup 0 requests db := by
  cases requests with
  | nil => exact ⟨rfl, hcount, by simp, by simp⟩
  | cons request requests =>
      exact absurd (hrequests.below request List.mem_cons_self) (Nat.not_lt_zero _)

/-- Inserts of distinct ids work over the paged storage, and over the plain one only when it
has no room for any. -/
theorem insertsWork_iff (options : Options F D Doc) (vectorStorageType : Int) (capacity : Nat)
    {opened : Opened F D Doc}
    (hopened : openStorage options vectorStorageType capacity = some opened)
    {requests : List (Request F)} (hrequests : WellFormed opened.setup capacity requests)
    (hcalls : NoFailingStore opened.setup requests (Db.fresh opened.initial)) :
    InsertsWork opened.setup capacity requests (Db.fresh opened.initial) ↔
      vectorStorageType = 1 ∨ capacity = 0 := by
  unfold openStorage at hopened
  split at hopened
  · rename_i hpaged
    refine ⟨fun _ => .inl hpaged, fun _ => ?_⟩
    split at hopened
    · obtain ⟨fresh, hfresh, rfl⟩ := Option.map_eq_some_iff.1 hopened
      have hcapacity : capacity ≤ 2 ^ 64 := by
        unfold PagedVectorStorage.Store.construct at hfresh
        split at hfresh
        · cases hfresh
        · rename_i hfits
          change ¬ 2 ^ 61 - 1 < capacity at hfits
          omega
      exact insertsWork_of_contract (contract_paged hcapacity _ _) hcapacity
        (pagedKeeps_construct hfresh) hrequests hcalls
    · cases hopened
  · rename_i hplain
    split at hopened
    · obtain ⟨fresh, hfresh, rfl⟩ := Option.map_eq_some_iff.1 hopened
      rcases Nat.eq_zero_or_pos capacity with rfl | hroom
      · exact ⟨fun _ => .inr rfl, fun _ => insertsWork_of_no_room rfl hrequests⟩
      · refine ⟨fun hwork => ?_, ?_⟩
        · exact absurd hwork (plain_not_insertsWork hfresh hroom hrequests)
        · rintro (hpaged | rfl)
          · exact absurd hpaged hplain
          · exact absurd hroom (Nat.lt_irrefl 0)
    · cases hopened

/-! ## Vectors of one byte -/

/-- Vectors of bytes, by their first one. -/
def byFirst : Space (List UInt8) Nat where
  distance a b := Dense.onLine.distance (a.headD 0).toNat (b.headD 0).toNat
  sort := Dense.onLine.sort
  sort_perm := Dense.onLine.sort_perm
  sort_sorted := Dense.onLine.sort_sorted
  quantized := id
  zeros := [0]

def byteOptions : Options UInt8 Nat PayloadWrites.TwoMembers where
  dim := 1
  maxCachedPages := 0
  writeBufCap := 0
  metricSupported := true
  json := PayloadWrites.TwoMembers.library 0
  graph := IndexGraph.oneLink
  edges := .adjacency
  space := byFirst
  what := "Vector ID out of range."
  quantize cfg vec := ⟨slice (copyInto zeros 0 vec) 0 cfg.recordSize, slice_length _ _ _⟩
  dequantize cfg record := record.bytes.take cfg.dim
  toBytes cfg vec := ⟨slice (copyInto zeros 0 vec) 0 cfg.recordSize, slice_length _ _ _⟩
  ofBytes cfg record := record.bytes.take cfg.dim

def byteRequests : List (Request UInt8) :=
  [⟨1, [5], [], ⟨9, 1, 7, [], []⟩⟩, ⟨0, [8], [], ⟨9, 0, 7, [1], [1]⟩⟩]

def pagedBytes : Opened UInt8 Nat PayloadWrites.TwoMembers :=
  (openStorage byteOptions 1 4).get rfl

def plainBytes : Opened UInt8 Nat PayloadWrites.TwoMembers :=
  (openStorage byteOptions 0 4).get rfl

theorem pagedBytes_insertsWork :
    InsertsWork pagedBytes.setup 4 byteRequests (Db.fresh pagedBytes.initial) := by
  have hrequests : WellFormed pagedBytes.setup 4 byteRequests :=
    ⟨by decide, by decide, by decide, by decide⟩
  have hcalls : NoFailingStore pagedBytes.setup byteRequests (Db.fresh pagedBytes.initial) :=
    ⟨rfl, rfl, trivial⟩
  exact (insertsWork_iff byteOptions 1 4 (rfl : openStorage byteOptions 1 4 = some pagedBytes)
    hrequests hcalls).2 (.inl rfl)

/-- Over the plain storage neither insert succeeds, nothing is counted, and an id that was
never inserted is found. -/
theorem plainBytes_not_insertsWork :
    openStorage byteOptions 0 4 = some plainBytes ∧
      WellFormed plainBytes.setup 4 byteRequests ∧
      NoFailingStore plainBytes.setup byteRequests (Db.fresh plainBytes.initial) ∧
      (insertAll plainBytes.setup .fine byteRequests (Db.fresh plainBytes.initial)).1 =
        [some (.ioError "Vector ID out of range."), some (.ioError "Vector ID out of range.")] ∧
      vectorCount (insertAll plainBytes.setup .fine byteRequests
        (Db.fresh plainBytes.initial)).2 = 0 ∧
      (getDense plainBytes.setup 3 (insertAll plainBytes.setup .fine byteRequests
        (Db.fresh plainBytes.initial)).2).1 = some (.ok [0]) ∧
      ¬InsertsWork plainBytes.setup 4 byteRequests (Db.fresh plainBytes.initial) := by
  have hstatuses : (insertAll plainBytes.setup .fine byteRequests
      (Db.fresh plainBytes.initial)).1 =
        [some (.ioError "Vector ID out of range."), some (.ioError "Vector ID out of range.")] :=
    rfl
  refine ⟨rfl, ⟨by decide, by decide, by decide, by decide⟩, ⟨rfl, rfl, trivial⟩, hstatuses,
    rfl, rfl, fun hwork => ?_⟩
  have hok := hwork.statuses
  rw [hstatuses] at hok
  cases (List.cons.inj hok).1

end AsterVec.StorageInserts

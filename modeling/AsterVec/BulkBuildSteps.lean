import AsterVec.DenseFilter
import AsterVec.DenseStore
import AsterVec.KeyMap
import Mathlib.Data.List.Range

/-!
`BulkBuild` as the steps it takes in memory and in storage.  It publishes its nodes and
its entry point first; then it writes vertices, vectors, edges, keys and a checkpoint.
-/

namespace AsterVec.BulkBuild

open AsterVec.IdTypes
open AsterVec.KeyMap
open AsterVec.PointIds

/-- What the graph store makes of the list of one vertex: `AddVertex` adds no edge, and
`AddEdgeBatch` reads, merges and writes the list of each source. -/
structure GraphStore where
  addVertex : List Nat → List Nat
  merge : List Nat → List Nat → List Nat
  mem_addVertex : ∀ {list : List Nat} {v : Nat}, v ∈ addVertex list → v ∈ list
  mem_merge : ∀ {list targets : List Nat} {v : Nat}, v ∈ merge list targets →
    v ∈ list ∨ v ∈ targets

/-- The part of the index that a checkpoint has.  `nodes` gives the neighbors of a node,
layer by layer above layer 0; `vectors` those with a location. -/
structure Index (F : Type) where
  entryPoint : Option Nat
  maxLayer : Int
  nodes : Nat → Option (List (List Nat))
  vectors : Nat → Option (List F)

def Index.empty (F : Type) : Index F := ⟨none, -1, fun _ => none, fun _ => none⟩

/-- A count of `none` is the -1 of a store that was just created. -/
structure Checkpoint (F : Type) where
  index : Index F
  liveCount : Option Int

/-- What a kill leaves: the layer-0 graph, the id map, `lsm_vec_db.meta` with its `.tmp`
and `.prev`, and the file `vector_count`. -/
structure Disk (F : Type) where
  graph : Nat → List Nat
  ids : Entries
  main : Checkpoint F
  tmp : Option (Checkpoint F)
  prev : Option (Checkpoint F)
  vectorCount : Option Int

structure Store (F : Type) where
  index : Index F
  liveCount : Int
  nextDenseId : Nat
  disk : Disk F

variable {F : Type}

/-- A store that `Open` just created. -/
def Store.fresh (F : Type) : Store F :=
  ⟨.empty F, 0, 0, ⟨fun _ => [], [], ⟨.empty F, none⟩, none, none, none⟩⟩

/-- The steps of a build, in memory or in storage. -/
inductive Step (F : Type) where
  | publishNodes (nodes : Nat → Option (List (List Nat)))
  | storeMaxLayer (level : Nat)
  | storeEntryPoint (node : Nat)
  | addVertex (u : Nat)
  | storeVector (u : Nat) (vector : List F)
  | addEdgeBatch (edges : List (Nat × Nat))
  | storeLiveCount (n : Nat)
  | putKeys (items : List (Key × Nat))
  | storeNextDenseId (n : Nat)
  | syncData
  | syncGraph
  | syncWAL
  | serializeMetadata
  | fsyncTmp
  | linkPrev
  | rename
  | fsyncDir
  | persistCount

/-- The targets of the edges from `u`. -/
def targets (edges : List (Nat × Nat)) (u : Nat) : List Nat :=
  (edges.filter fun e => e.1 == u).map Prod.snd

namespace Step

def index : Step F → Index F → Index F
  | publishNodes nodes, x => { x with nodes := fun u => (nodes u).or (x.nodes u) }
  | storeMaxLayer level, x => { x with maxLayer := level }
  | storeEntryPoint node, x => { x with entryPoint := some node }
  | storeVector u vector, x =>
      { x with vectors := Function.update x.vectors u (some vector) }
  | _, x => x

/-- The list of vertex `u`. -/
def edgesAt (graph : GraphStore) (u : Nat) : Step F → List Nat → List Nat
  | addVertex w, list => if w = u then graph.addVertex list else list
  | addEdgeBatch edges, list =>
      if targets edges u = [] then list else graph.merge list (targets edges u)
  | _, list => list

def ids : Step F → Entries → Entries
  | .putKeys items, entries => KeyMap.putKeys items entries
  | _, entries => entries

def disk (graph : GraphStore) (step : Step F) (st : Store F) : Disk F :=
  let d := { st.disk with
    graph := fun u => step.edgesAt graph u (st.disk.graph u)
    ids := step.ids st.disk.ids }
  match step with
  | serializeMetadata => { d with tmp := some ⟨st.index, some st.liveCount⟩ }
  | linkPrev => { d with prev := some d.main }
  | rename => { d with main := d.tmp.getD d.main, tmp := none }
  | persistCount => { d with vectorCount := some st.liveCount }
  | _ => d

def exec (graph : GraphStore) (step : Step F) (st : Store F) : Store F where
  index := step.index st.index
  liveCount := match step with
    | storeLiveCount n => n
    | _ => st.liveCount
  nextDenseId := match step with
    | storeNextDenseId n => n
    | _ => st.nextDenseId
  disk := step.disk graph st

end Step

/-- What comes of the failure of a step.  A vector store that throws in a worker thread
terminates the process; `persistCount` does not tell; a step in memory cannot fail. -/
inductive OnFailure where
  | returns
  | terminates
  | ignored
  | never
deriving DecidableEq

def Step.onFailure (workers : Bool) : Step F → OnFailure
  | .publishNodes _ | .storeMaxLayer _ | .storeEntryPoint _ | .storeLiveCount _
  | .storeNextDenseId _ => .never
  | .storeVector _ _ => if workers then .terminates else .returns
  | .persistCount => .ignored
  | _ => .returns

/-- A storage call that fails, or a kill, at the step of that number; `applied` tells
whether the step took effect. -/
structure Fault where
  step : Nat
  kill : Bool
  applied : Bool

inductive Status where
  | ok
  | invalidArgument (text : String)
  | ioError
deriving DecidableEq

/-- How a call ends: it returns, or its process is gone. -/
inductive Ending (F : Type) where
  | returned (status : Status) (st : Store F)
  | killed (disk : Disk F)

/-- Take the steps in turn, up to the fault. -/
def run (graph : GraphStore) (workers : Bool) :
    List (Step F) → Option Fault → Store F → Ending F
  | [], _, st => .returned .ok st
  | step :: steps, none, st => run graph workers steps none (step.exec graph st)
  | step :: steps, some ⟨n + 1, kill, applied⟩, st =>
      run graph workers steps (some ⟨n, kill, applied⟩) (step.exec graph st)
  | step :: steps, some ⟨0, kill, applied⟩, st =>
      let left := if applied then step.exec graph st else st
      if kill then .killed left.disk
      else
        match step.onFailure workers with
        | .returns => .returned .ioError left
        | .terminates => .killed left.disk
        | .ignored => run graph workers steps none left
        | .never => run graph workers steps none (step.exec graph st)

/-! What a build computes -/

structure Config where
  dim : Nat
  keyed : Bool
  mMax : Nat

/-- The points of a build: as many as the caller says, or one for each id. -/
inductive Points where
  | counted (n : Int32)
  | named (ids : List PointId)

def Points.n : Points → Int
  | counted n => n.toInt
  | named ids => (Int32.ofNat ids.length).toInt

def Points.ids : Points → List PointId
  | counted n => (List.range n.toInt.toNat).map fun i => .int (UInt64.ofNat i)
  | named ids => ids

def Points.hasIds : Points → Bool
  | counted _ => false
  | named _ => true

structure Args (F : Type) where
  floats : List F
  points : Points

/-- The vectors are `n`. -/
def Args.n (args : Args F) : Nat := args.points.n.toNat

def Args.row (cfg : Config) (args : Args F) (u : Nat) : List F :=
  (args.floats.drop (u * cfg.dim)).take cfg.dim

/-- What a build draws and computes before its first storage call: the levels, the rows
of the RNN-Descent graph, the upper layers, an order by distance, and the order in which
the sections store their vectors. -/
structure Drawn (n : Nat) where
  levels : Nat → Nat
  knn : Nat → List Int
  links : Nat → List (List Nat)
  sorted : Nat → List Nat → List Nat
  order : List Nat
  workers : Bool
  knn_lt : ∀ u, ∀ v ∈ knn u, v < n
  links_lt : ∀ u, ∀ layer ∈ links u, ∀ v ∈ layer, v < n
  sorted_perm : ∀ v list, (sorted v list).Perm list
  order_perm : order.Perm (List.range n)

/-- The highest level and the first node of it. -/
def entryNode (levels : Nat → Nat) (n : Nat) : Nat × Nat :=
  (List.range n).foldl (fun best u =>
    if best.1 < levels u ∨ levels u = best.1 ∧ u < best.2 then (levels u, u) else best)
    (0, 0)

def outgoing (mMax : Nat) (knn : Nat → List Int) (u : Nat) : List Nat :=
  ((knn u).take mMax).filterMap fun v : Int =>
    if 0 ≤ v ∧ v ≠ (u : Int) then some v.toNat else none

/-- For every edge its reverse. -/
def symmetrize (n : Nat) (adj : Nat → List Nat) : Nat → List Nat :=
  (List.range n).foldl (fun adj u => (adj u).foldl (fun adj v =>
    if u ∈ adj v then adj else Function.update adj v (adj v ++ [u])) adj) adj

/-- Keep the closest when there are too many. -/
def capped (mMax : Nat) (sorted : Nat → List Nat → List Nat) (adj : Nat → List Nat)
    (v : Nat) : List Nat :=
  if (adj v).length ≤ mMax then adj v else (sorted v (adj v)).take mMax

def Drawn.adjacency (cfg : Config) {n : Nat} (drawn : Drawn n) : Nat → List Nat :=
  capped cfg.mMax drawn.sorted (symmetrize n (outgoing cfg.mMax drawn.knn))

def allEdges (n : Nat) (adj : Nat → List Nat) : List (Nat × Nat) :=
  (List.range n).flatMap fun u => (adj u).map fun v => (u, v)

def kEdgeChunk : Nat := 64 * 1024

def chunks (edges : List (Nat × Nat)) : List (List (Nat × Nat)) :=
  (List.range ((edges.length + kEdgeChunk - 1) / kEdgeChunk)).map fun i =>
    (edges.drop (i * kEdgeChunk)).take kEdgeChunk

section

variable {n : Nat}

theorem entryNode_lt (levels : Nat → Nat) (hn : 0 < n) : (entryNode levels n).2 < n := by
  refine List.foldlRecOn (List.range n) _ (motive := fun best : Nat × Nat => best.2 < n) hn ?_
  intro best hbest u hu
  split
  · exact List.mem_range.mp hu
  · exact hbest

theorem outgoing_lt {knn : Nat → List Int} (hknn : ∀ u, ∀ v ∈ knn u, v < n) {mMax u v : Nat}
    (hv : v ∈ outgoing mMax knn u) : v < n := by
  obtain ⟨w, hw, hvw⟩ := List.mem_filterMap.mp hv
  have hlt := hknn u w (List.mem_of_mem_take hw)
  split at hvw
  · rename_i hcond
    obtain rfl := Option.some.inj hvw
    omega
  · cases hvw

theorem symmetrize_lt {adj : Nat → List Nat} (hadj : ∀ u, ∀ v ∈ adj u, v < n) :
    ∀ u, ∀ v ∈ symmetrize n adj u, v < n := by
  refine List.foldlRecOn (List.range n) _
    (motive := fun adj : Nat → List Nat => ∀ u, ∀ v ∈ adj u, v < n) hadj ?_
  intro adj hadj u hu
  refine List.foldlRecOn (adj u) _
    (motive := fun adj : Nat → List Nat => ∀ u, ∀ v ∈ adj u, v < n) hadj ?_
  intro adj hadj v _
  split
  · exact hadj
  · intro w x hx
    rw [Function.update_apply] at hx
    split at hx
    · rcases List.mem_append.mp hx with hx | hx
      · exact hadj v x hx
      · rw [List.mem_singleton.mp hx]
        exact List.mem_range.mp hu
    · exact hadj w x hx

theorem capped_lt {knn : Nat → List Int} {sorted : Nat → List Nat → List Nat} {mMax : Nat}
    (hknn : ∀ u, ∀ v ∈ knn u, v < n) (hsorted : ∀ v list, (sorted v list).Perm list) (u : Nat) :
    ∀ v ∈ capped mMax sorted (symmetrize n (outgoing mMax knn)) u, v < n := by
  have hsymmetric : ∀ u, ∀ v ∈ symmetrize n (outgoing mMax knn) u, v < n :=
    symmetrize_lt fun _ _ => outgoing_lt hknn
  intro v hv
  rw [capped] at hv
  split at hv
  · exact hsymmetric u v hv
  · exact hsymmetric u v ((hsorted _ _).mem_iff.mp (List.mem_of_mem_take hv))

theorem mem_chunks {edges chunk : List (Nat × Nat)} (hchunk : chunk ∈ chunks edges)
    {e : Nat × Nat} (he : e ∈ chunk) : e ∈ edges := by
  obtain ⟨i, -, rfl⟩ := List.mem_map.mp hchunk
  exact List.mem_of_mem_drop (List.mem_of_mem_take he)

end

def bulkLoadLayer0 (cfg : Config) (args : Args F) (drawn : Drawn args.n) : List (Step F) :=
  (List.range args.n).map .addVertex ++
    (drawn.order.map fun u => .storeVector u (args.row cfg u)) ++
    (chunks (allEdges args.n (drawn.adjacency cfg))).map .addEdgeBatch

/-- The upper layers come in two steps: the nodes without their neighbors, and these. -/
def bulkBuild (cfg : Config) (args : Args F) (drawn : Drawn args.n) : List (Step F) :=
  let upper := fun links u => if u < args.n ∧ 1 ≤ drawn.levels u then some (links u) else none
  [.publishNodes (upper fun _ => []), .storeMaxLayer (entryNode drawn.levels args.n).1,
    .storeEntryPoint (entryNode drawn.levels args.n).2, .publishNodes (upper drawn.links)] ++
    bulkLoadLayer0 cfg args drawn

/-- The build was counted as a write, so the checkpoint is taken.  The log has no part in
it. -/
def checkpointLocked : List (Step F) :=
  [.syncData, .syncGraph, .syncWAL, .serializeMetadata, .fsyncTmp, .linkPrev, .rename,
    .fsyncDir, .persistCount]

def kMaxStringBytes : Nat := 1024

def tooLong : PointId → Bool
  | .int _ => false
  | .str s => decide (kMaxStringBytes < s.length)

/-- Encode the ids in turn. -/
def distinctKeys : List PointId → List Key → Except String (List Key)
  | [], seen => .ok seen.reverse
  | id :: ids, seen =>
      if tooLong id then .error "string id longer than 1024 bytes"
      else if encode id ∈ seen then .error "BulkBuild ids must be distinct"
      else distinctKeys ids (encode id :: seen)

/-- The checks, and the keys of the vectors. -/
def check (cfg : Config) (args : Args F) (st : Store F) :
    Except String (List (Key × Nat)) :=
  if args.points.n ≤ 0 then .error "n must be > 0"
  else if args.points.hasIds && !cfg.keyed then
    .error "BulkBuild with caller ids needs a store created with id_mode keyed"
  else if cfg.dim = 0 then .error "dim not set on db options"
  else if args.floats.length ≠ args.n * cfg.dim then
    .error "vectors.size() must equal n * dim"
  else if st.index.entryPoint.isSome || cfg.keyed && st.nextDenseId != 0 then
    .error ("BulkBuild requires an empty DB (entry_point already set). BulkBuild is " ++
      "initial-load-only; use Insert() for incremental updates on a non-empty DB.")
  else if cfg.keyed then do
    let keys ← distinctKeys (args.points.ids.take args.n) []
    .ok keys.zipIdx
  else .ok []

/-- The steps of a call that passed its checks. -/
def steps (cfg : Config) (args : Args F) (drawn : Drawn args.n) (keys : List (Key × Nat)) :
    List (Step F) :=
  bulkBuild cfg args drawn ++ [.storeLiveCount args.n] ++
    (if cfg.keyed then [.putKeys keys, .storeNextDenseId args.n] else []) ++
    checkpointLocked

/-- A call of `BulkBuild`. -/
def bulkBuildImpl (graph : GraphStore) (cfg : Config) (args : Args F) (drawn : Drawn args.n)
    (fault : Option Fault) (st : Store F) : Ending F :=
  match check cfg args st with
  | .error text => .returned (.invalidArgument text) st
  | .ok keys => run graph drawn.workers (steps cfg args drawn keys) fault st

/-! The store afterwards -/

/-- Open what a kill left; `none` for a damaged id map. -/
def reopen (cfg : Config) (d : Disk F) : Option (Store F) :=
  let opened := fun next => (⟨d.main.index, d.main.liveCount.getD (d.vectorCount.getD 0),
    next, { d with tmp := none }⟩ : Store F)
  if cfg.keyed then (maxMappedId d.ids).map fun found => opened (found.elim 0 (· + 1))
  else some (opened 0)

def afterwards (cfg : Config) : Ending F → Option (Store F)
  | .returned _ st => some st
  | .killed d => reopen cfg d

def vectorCount (st : Store F) : Nat := st.liveCount.toNat

/-- The store as the calls on dense ids see it. -/
def Store.dense {Row : Type} (rows : Nat → Option Row) (st : Store F) :
    Dense.State (List F) Row where
  tables := IdTables.empty
  vectors := st.index.vectors
  rows := rows
  edges := st.disk.graph
  entryPoint := st.index.entryPoint
  upper := fun u => (st.index.nodes u).isSome

inductive Resolution where
  | ok (dense : Nat)
  | notFound
  | invalidArgument (text : String)
  | corruption

/-- `resolveId` of a read. -/
def resolveId (cfg : Config) (st : Store F) (id : PointId) : Resolution :=
  if cfg.keyed then
    if tooLong id then .invalidArgument "string id longer than 1024 bytes"
    else
      match lookupKey st.disk.ids (encode id) with
      | .found dense => .ok dense
      | .notFound => .notFound
      | .corruption => .corruption
  else
    match id with
    | .str _ => .invalidArgument "string ids need a store created with id_mode keyed"
    | .int value =>
        if kMaxRealId < value.toNat then .invalidArgument "real_id must fit in 63 bits"
        else .ok value.toNat

end AsterVec.BulkBuild

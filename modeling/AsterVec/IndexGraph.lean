import AsterVec.BulkBuildSteps
import AsterVec.ExactSearch

/-!
The graph of the index.  Its upper layers are in memory and layer 0 is in the graph store.
An insert selects neighbors on each of its layers, links them both ways and shrinks the
lists that became too long.  The edge cache has no part here: for a coherent cache
`getEdgesCached` returns what the store has.
-/

namespace AsterVec.IndexGraph

open AsterVec.BulkBuild (entryNode outgoing symmetrize capped chunks)
open AsterVec.Dense

abbrev Edge := Nat × Nat

abbrev Graph := Nat → List Nat

/-- The graph store, with what its interface says of the two batches: directed edges of a
set are inserted and removed. -/
structure GraphStore where
  addEdgeBatch : List Edge → Graph → Graph
  deleteEdgeBatch : List Edge → Graph → Graph
  mem_add : ∀ edges graph v w,
    w ∈ addEdgeBatch edges graph v ↔ w ∈ graph v ∨ (v, w) ∈ edges
  mem_delete : ∀ edges graph v w,
    w ∈ deleteEdgeBatch edges graph v ↔ w ∈ graph v ∧ (v, w) ∉ edges
  nodup_add : ∀ edges graph, (∀ v, (graph v).Nodup) → ∀ v, (addEdgeBatch edges graph v).Nodup
  nodup_delete : ∀ edges graph, (∀ v, (graph v).Nodup) →
    ∀ v, (deleteEdgeBatch edges graph v).Nodup

/-- The store that keeps a list of targets for every source. -/
def GraphStore.adjacency : GraphStore where
  addEdgeBatch edges graph v := ((edges.filter fun e => e.1 == v).map Prod.snd) ∪ graph v
  deleteEdgeBatch edges graph v := (graph v).filter fun w => (v, w) ∉ edges
  mem_add edges graph v w := by
    rw [List.mem_union_iff, or_comm]
    simp
  mem_delete edges graph v w := by simp
  nodup_add edges graph hgraph v := (hgraph v).union _
  nodup_delete edges graph hgraph v := (hgraph v).filter _

/-- The vectors of the index: their metric, the vector that a quantized node stands for,
and the vector of zeros. -/
structure Space (V D : Type) [LinearOrder D] extends Metric V D where
  quantized : V → V
  zeros : V

structure Config where
  m : Nat
  mMax : Nat
  efConstruction : Int
  useHeuristicNeighborSelection : Bool
  enableBatchRead : Bool

/-- A node above layer 0, with its vector and the lists of its layers. -/
structure Node (V : Type) where
  point : V
  neighbors : Nat → Option (List Nat)

/-- `nodes` and `edges` are the graph above layer 0 and on it; `vectors` has the ids with a
location. -/
structure Index (V : Type) where
  nodes : Nat → Option (Node V)
  entryPoint : Option Nat
  maxLayer : Int
  edges : Graph
  vectors : Nat → Option V

def Index.empty (V : Type) : Index V := ⟨fun _ => none, none, -1, fun _ => [], fun _ => none⟩

instance : Monad SearchEnd where
  pure := .hits
  bind found follow :=
    match found with
    | .hits value => follow value
    | .invalidArgument => .invalidArgument
    | .threw => .threw
    | .exhausted => .exhausted

variable {V D : Type} [LinearOrder D]

namespace Index

/-- The vector that a layer has for a node; above layer 0 the disk stands in for a node
that is not in memory. -/
def pointAt (x : Index V) (layer id : Nat) : Option V :=
  if layer = 0 then x.vectors id
  else
    match x.nodes id with
    | some node => some node.point
    | none => x.vectors id

def neighborsAt (x : Index V) (layer id : Nat) : List Nat :=
  ((x.nodes id).bind fun node => node.neighbors layer).getD []

def getEdgesCached (x : Index V) (id : Nat) : List Nat :=
  (x.edges id).filter fun n => (x.vectors n).isSome

def setNeighbors (x : Index V) (id layer : Nat) (list : List Nat) : Index V :=
  { x with nodes := Function.update x.nodes id <| (x.nodes id).map fun node =>
      { node with neighbors := Function.update node.neighbors layer (some list) } }

end Index

/-! ## Search -/

/-- The reads of an upper layer, which asks for no location. -/
def upperLayer (V : Type) : LayerSearch.Reader (Nat → Option V) V where
  hasLocation _ _ := true
  readVector id points := (points id, points)
  readVectorsBatchFlat ids points := (ids.mapM points, points)

section

variable (cfg : Config) (space : Space V D) (query : V) (x : Index V)

def improve (best : D × Nat × Bool) (neighborId : Nat) : D × Nat × Bool :=
  match x.nodes neighborId with
  | none => best
  | some node =>
      let d := space.distance query node.point
      if d < best.1 then (d, neighborId, true) else best

def greedyLoop (layer : Nat) : Nat → D → Nat → SearchEnd Nat
  | 0, _, _ => .exhausted
  | fuel + 1, bestDist, current =>
      match (x.nodes current).bind fun node => node.neighbors layer with
      | none => .hits current
      | some snapshot =>
          let best := snapshot.foldl (improve space query x) (bestDist, current, false)
          if best.2.2 then greedyLoop layer fuel best.1 best.2.1 else .hits best.2.1

/-- The walk to a nearer neighbor until there is none. -/
def greedySearchUpperLayer (fuel entryPoint layer : Nat) : SearchEnd Nat :=
  match x.nodes entryPoint with
  | none => .hits entryPoint
  | some node =>
      greedyLoop space query x layer fuel (space.distance query node.point) entryPoint

/-- The walks from layer `top` down to the one above `bottom`. -/
def descend (fuel bottom : Nat) : Nat → Nat → SearchEnd Nat
  | 0, current => .hits current
  | l + 1, current =>
      if bottom < l + 1 then do
        let current ← greedySearchUpperLayer space query x fuel current (l + 1)
        descend fuel bottom l current
      else .hits current

def searchLayer (fuel entryPointId : Nat) (efSearch : Int) (layer : Nat) :
    SearchEnd (List (D × Nat)) :=
  if layer = 0 then
    (LayerSearch.searchLayer (LayerSearch.memory V) x.edges space.toMetric query
      cfg.enableBatchRead fuel entryPointId efSearch x.vectors).1
  else
    (LayerSearch.searchLayer (upperLayer V) (x.neighborsAt layer) space.toMetric query false
      fuel entryPointId efSearch (x.pointAt layer)).1

end

/-! ## Selection -/

/-- A read that throws when there is no vector. -/
def orThrow {α : Type} : Option α → SearchEnd α
  | none => .threw
  | some value => .hits value

/-- Keep a candidate to which no kept one is nearer than the query is. -/
def prune (apart : V → V → D) (maxNeighbors : Nat) :
    List (Nat × V) → List ((D × Nat) × V) → List (Nat × V)
  | selected, [] => selected
  | selected, (cand, vector) :: rest =>
      if maxNeighbors ≤ selected.length then selected
      else if selected.any fun kept => decide (apart kept.2 vector < cand.1) then
        prune apart maxNeighbors selected rest
      else prune apart maxNeighbors (selected ++ [(cand.2, vector)]) rest

/-- The entries of a queue from its top down. -/
def popAll : Nat → List (D × Nat) → List (D × Nat)
  | 0, _ => []
  | n + 1, queue =>
      match topOf farther queue with
      | none => []
      | some top => top :: popAll n (queue.erase top)

section

variable (cfg : Config) (space : Space V D) (x : Index V) (vector : V)

/-- The candidates with their distances. -/
def scored (candidateIds : List Nat) (layer : Nat) : SearchEnd (List (D × Nat)) :=
  orThrow <| candidateIds.mapM fun candidateId =>
    (x.pointAt layer candidateId).map fun point => (space.distance vector point, candidateId)

def selectNeighborsSimple (candidateIds : List Nat) (maxNeighbors layer : Nat) :
    SearchEnd (List Nat) :=
  if candidateIds.length ≤ maxNeighbors then .hits candidateIds
  else do
    let entries ← scored space x vector candidateIds layer
    let topCandidates := entries.foldl (fun queue entry => pushCapped maxNeighbors entry queue) []
    .hits ((popAll topCandidates.length topCandidates).map Prod.snd)

/-- The candidates sorted by their distance, with the vectors that `read` finds, pruned. -/
def diversify (read : List Nat → Option (List V)) (apart : V → V → D) (maxNeighbors : Nat)
    (candInfos : List (D × Nat)) : SearchEnd (List Nat) := do
  let sorted := space.sort candInfos
  let vectors ← orThrow (read (sorted.map Prod.snd))
  .hits ((prune apart maxNeighbors [] (sorted.zip vectors)).map Prod.fst)

def selectNeighborsHeuristic2 (candidateIds : List Nat) (maxNeighbors layer : Nat) :
    SearchEnd (List Nat) :=
  if candidateIds.length ≤ maxNeighbors then .hits candidateIds
  else do
    let candInfos ← scored space x vector candidateIds layer
    diversify space (fun ids => ids.mapM (x.pointAt layer)) space.distance maxNeighbors candInfos

def selectNeighbors (candidateIds : List Nat) (maxNeighbors layer : Nat) :
    SearchEnd (List Nat) :=
  if cfg.useHeuristicNeighborSelection then
    selectNeighborsHeuristic2 space x vector candidateIds maxNeighbors layer
  else selectNeighborsSimple space x vector candidateIds maxNeighbors layer

/-- The vectors of the candidates of a search: on layer 0 in one read, above it from
memory, with zeros for a node that is not there. -/
def candVecs (layer : Nat) (ids : List Nat) : Option (List V) :=
  if layer = 0 then ids.mapM x.vectors
  else some (ids.map fun id => ((x.nodes id).map Node.point).getD space.zeros)

/-- `selectNeighborsHeuristic2` of search results. -/
def selectResultsHeuristic2 (candidates : List (D × Nat)) (maxNeighbors layer : Nat) :
    SearchEnd (List Nat) :=
  if candidates.length ≤ maxNeighbors then .hits (candidates.map Prod.snd)
  else
    diversify space (candVecs space x layer) (fun kept cand => space.distance cand kept)
      maxNeighbors candidates

/-- `selectNeighbors` of search results. -/
def selectResults (candidates : List (D × Nat)) (maxNeighbors layer : Nat) :
    SearchEnd (List Nat) :=
  if cfg.useHeuristicNeighborSelection then
    selectResultsHeuristic2 space x candidates maxNeighbors layer
  else .hits (((space.sort candidates).take maxNeighbors).map Prod.snd)

end

/-! ## Links -/

section

variable (cfg : Config) (store : GraphStore) (space : Space V D)

/-- Search a layer and select from the results; the search of the next layer starts from
the nearest one. -/
def selectAt (x : Index V) (vector : V) (fuel layer currentEntryPoint : Nat) :
    SearchEnd (Nat × List Nat) := do
  let neighbors ← searchLayer cfg space vector x fuel currentEntryPoint cfg.efConstruction layer
  let selected ← selectResults cfg space x neighbors cfg.m layer
  .hits ((neighbors.head?.map Prod.snd).getD currentEntryPoint, selected)

/-- The selections of the layers from the given one down to layer 1. -/
def selectUpper (x : Index V) (vector : V) (fuel : Nat) :
    Nat → Nat → SearchEnd (Nat × (Nat → List Nat))
  | 0, currentEntryPoint => .hits (currentEntryPoint, fun _ => [])
  | l + 1, currentEntryPoint => do
      let (currentEntryPoint, selected) ← selectAt cfg space x vector fuel (l + 1) currentEntryPoint
      let (currentEntryPoint, selectedPerLayer) ← selectUpper x vector fuel l currentEntryPoint
      .hits (currentEntryPoint, Function.update selectedPerLayer (l + 1) selected)

/-- The backward link of a neighbor, which shrinks a list that is too long. -/
def linkBack (nodeId layer : Nat) (x : Index V) (neighbor : Nat) : SearchEnd (Index V) :=
  match x.nodes neighbor with
  | none => .hits x
  | some node =>
      let eConn := (node.neighbors layer).getD [] ++ [nodeId]
      if cfg.mMax < eConn.length then do
        let eNewConn ← selectNeighbors cfg space x node.point eConn cfg.mMax layer
        .hits (x.setNeighbors neighbor layer eNewConn)
      else .hits (x.setNeighbors neighbor layer eConn)

def linkBackAll (nodeId layer : Nat) : List Nat → Index V → SearchEnd (Index V)
  | [], x => .hits x
  | neighbor :: rest, x => do
      let x ← linkBack cfg space nodeId layer x neighbor
      linkBackAll nodeId layer rest x

/-- The links of a node from the given layer down to layer 1. -/
def linkUpper (nodeId : Nat) (selectedPerLayer : Nat → List Nat) :
    Nat → Index V → SearchEnd (Index V)
  | 0, x => .hits x
  | l + 1, x => do
      let x ← linkBackAll cfg space nodeId (l + 1) (selectedPerLayer (l + 1))
        (x.setNeighbors nodeId (l + 1) (selectedPerLayer (l + 1)))
      linkUpper nodeId selectedPerLayer l x

/-- Both directions of the edges of a new node. -/
def linkEdges (nodeId : Nat) (neighborIds : List Nat) (edges : Graph) : Graph :=
  if neighborIds = [] then edges
  else
    store.addEdgeBatch (neighborIds.flatMap fun neighborId =>
      [(nodeId, neighborId), (neighborId, nodeId)]) edges

def linkNeighborsAsterDB (nodeId : Nat) (neighborIds : List Nat) (x : Index V) : Index V :=
  { x with edges := linkEdges store nodeId neighborIds x.edges }

/-- The edges that a neighbor with too many gives up. -/
def surplus (x : Index V) (neighbor : Nat) : SearchEnd (List Edge) :=
  let eConns := x.getEdgesCached neighbor
  if cfg.mMax < eConns.length then do
    let neighborVector ← orThrow (x.vectors neighbor)
    let eNewConn ← selectNeighbors cfg space x neighborVector eConns cfg.mMax 0
    .hits ((eConns.filter fun node => node ∉ eNewConn).map fun node => (neighbor, node))
  else .hits []

def edgesToDelete (x : Index V) : List Nat → SearchEnd (List Edge)
  | [] => .hits []
  | neighbor :: rest => do
      let dropped ← surplus cfg space x neighbor
      let more ← edgesToDelete x rest
      .hits (dropped ++ more)

def deleteEdges (dropped : List Edge) (edges : Graph) : Graph :=
  if dropped = [] then edges else store.deleteEdgeBatch dropped edges

def shrink (selectedLevel0 : List Nat) (x : Index V) : SearchEnd (Index V) := do
  let dropped ← edgesToDelete cfg space x selectedLevel0
  .hits { x with edges := deleteEdges store dropped x.edges }

def publish (nodeId : Nat) (point : V) (x : Index V) : Index V :=
  { x with nodes := Function.update x.nodes nodeId (some ⟨point, fun _ => none⟩) }

def storeVector (nodeId : Nat) (vector : V) (x : Index V) : Index V :=
  { x with vectors := Function.update x.vectors nodeId (some vector) }

def promote (nodeId highestLayer : Nat) (x : Index V) : Index V :=
  if x.maxLayer < highestLayer then
    { x with maxLayer := highestLayer, entryPoint := some nodeId }
  else x

/-- Insert a node whose level was drawn as `highestLayer`. -/
def insertNode (fuel nodeId : Nat) (vector : V) (highestLayer : Nat) (x : Index V) :
    SearchEnd (Index V) := do
  let x := if 0 < highestLayer then publish nodeId (space.quantized vector) x else x
  match x.entryPoint with
  | none =>
      .hits { storeVector nodeId vector (linkNeighborsAsterDB store nodeId [] x) with
        entryPoint := some nodeId, maxLayer := highestLayer }
  | some entryPoint =>
      let observedMaxLayer := x.maxLayer.toNat
      let currentEntryPoint ← descend space vector x fuel highestLayer observedMaxLayer entryPoint
      let minLayer := min observedMaxLayer highestLayer
      let (currentEntryPoint, selectedPerLayer) ←
        selectUpper cfg space x vector fuel minLayer currentEntryPoint
      let (_, selectedLevel0) ← selectAt cfg space x vector fuel 0 currentEntryPoint
      let x := linkNeighborsAsterDB store nodeId selectedLevel0 (storeVector nodeId vector x)
      let x ← linkUpper cfg space nodeId selectedPerLayer minLayer x
      let x ← shrink cfg store space selectedLevel0 x
      .hits (promote nodeId highestLayer x)

/-! ## Bulk build -/

/-- What a bulk build is given and draws: the rows and levels of `n` nodes, the lists of
the nearest-neighbor descent, and an order for the candidates of a node. -/
structure Batch (V : Type) where
  n : Nat
  rows : Nat → V
  levels : Nat → Nat
  knn : Nat → List Int
  sorted : Nat → List Nat → List Nat
  knn_lt : ∀ u, ∀ v ∈ knn u, v < n
  sorted_perm : ∀ v list, (sorted v list).Perm list

/-- The layers above 0 of one node of the batch. -/
def addPointUpperLayersOnly (fuel nodeId : Nat) (vector : V) (presetLevel : Nat)
    (x : Index V) : SearchEnd (Index V) :=
  if presetLevel < 1 then .hits x
  else
    match x.entryPoint with
    | none => .hits x
    | some entryPoint => do
        let observedMaxLayer := x.maxLayer.toNat
        let currentEntryPoint ← descend space vector x fuel presetLevel observedMaxLayer entryPoint
        let minLayer := min observedMaxLayer presetLevel
        let (_, selectedPerLayer) ← selectUpper cfg space x vector fuel minLayer currentEntryPoint
        match x.nodes nodeId with
        | none => .hits x
        | some _ => linkUpper cfg space nodeId selectedPerLayer minLayer x

def addPoints (fuel : Nat) (batch : Batch V) : List Nat → Index V → SearchEnd (Index V)
  | [], x => .hits x
  | u :: rest, x => do
      let x ← addPointUpperLayersOnly cfg space fuel u (batch.rows u) (batch.levels u) x
      addPoints fuel batch rest x

/-- The nodes above layer 0 but the entry node, from the highest level down. -/
def Batch.byLevel (batch : Batch V) : List Nat :=
  let entry := entryNode batch.levels batch.n
  ((List.range' 1 entry.1).reverse.flatMap fun level =>
    (List.range batch.n).filter fun u => batch.levels u == level).filter (· != entry.2)

def Batch.publishAll (batch : Batch V) (x : Index V) : Index V :=
  { x with
    nodes := fun u =>
      if u < batch.n ∧ 1 ≤ batch.levels u then some ⟨batch.rows u, fun _ => none⟩
      else x.nodes u
    maxLayer := (entryNode batch.levels batch.n).1
    entryPoint := some (entryNode batch.levels batch.n).2 }

def Batch.adjacency (batch : Batch V) : Graph :=
  capped cfg.mMax batch.sorted (symmetrize batch.n (outgoing cfg.mMax batch.knn))

/-- The vectors and the edges of layer 0. -/
def bulkLoadLayer0 (batch : Batch V) (x : Index V) : Index V :=
  { x with
    vectors := fun u => if u < batch.n then some (batch.rows u) else x.vectors u
    edges := (chunks (BulkBuild.allEdges batch.n (batch.adjacency cfg))).foldl
      (fun graph chunk => store.addEdgeBatch chunk graph) x.edges }

/-- A build of an index that is not empty is refused. -/
def bulkBuild (fuel : Nat) (batch : Batch V) (x : Index V) : SearchEnd (Index V) :=
  if batch.n = 0 then .hits x
  else if x.entryPoint.isSome then .invalidArgument
  else do
    let x ← addPoints cfg space fuel batch batch.byLevel (batch.publishAll x)
    .hits (bulkLoadLayer0 cfg store batch x)

/-! ## Queries -/

/-- `descend` to layer 0, a search there, and the first `k` that are not tombstoned. -/
def knnSearchK (x : Index V) (query : V) (fuel : Nat) (tombstoned : Nat → Bool)
    (k efSearch : Int) : SearchEnd (List (D × Nat)) :=
  match x.entryPoint with
  | none => .hits []
  | some ep =>
      if k ≤ 0 then .hits []
      else do
        let currentEntryPoint ← descend space query x fuel 0 x.maxLayer.toNat ep
        let neighbors ← searchLayer cfg space query x fuel currentEntryPoint (max efSearch k) 0
        .hits (LayerSearch.takeLive tombstoned k.toNat [] neighbors)

end

section

variable {Row : Type} (space : Space V D) (query : V) (k : Nat) (filter : Dense.Filter Row)
  (x : Index V) (rows : Nat → Option Row)

def scanNeighbors : List Nat → ScanState D → SearchEnd (ScanState D)
  | [], state => .hits state
  | nb :: neighbors, state =>
      if state.visited.contains nb then scanNeighbors neighbors state
      else do
        let vector ← orThrow (x.vectors nb)
        scanNeighbors neighbors
          (visitNeighbor space.toMetric query k filter state nb vector (rows nb))

def scanLoop (maxScan : Nat) : Nat → ScanState D → SearchEnd (Scan D)
  | 0, _ => .exhausted
  | fuel + 1, state =>
      match topOf nearer state.candidates with
      | none => .hits ⟨state.results, false⟩
      | some current =>
          let state := { state with candidates := state.candidates.erase current }
          if decide (k ≤ state.results.length) &&
              (topOf farther state.results).any (fun worst => decide (worst.1 < current.1)) then
            .hits ⟨state.results, false⟩
          else if maxScan ≤ state.scanned then .hits ⟨state.results, true⟩
          else do
            let state ← scanNeighbors space query k filter x rows (x.getEdgesCached current.2) state
            scanLoop maxScan fuel state

/-- The filtered `searchLayer`. -/
def searchLayerFiltered (maxScanCandidates : Int) (fuel entryPointId : Nat) :
    SearchEnd (Scan D) := do
  let vector ← orThrow (x.vectors entryPointId)
  let d := space.distance query vector
  let scan ← scanLoop space query k filter x rows (scanCap k maxScanCandidates) fuel
    { visited := [entryPointId]
      candidates := [(d, entryPointId)]
      results := if filter.matchesRow (rows entryPointId) then [(d, entryPointId)] else []
      scanned := 0 }
  .hits { scan with results := space.sort scan.results }

def knnSearchKFiltered (maxScanCandidates : Int) (fuel : Nat) : SearchEnd (Scan D) :=
  match x.entryPoint with
  | none => .hits ⟨[], false⟩
  | some ep =>
      if k = 0 then .hits ⟨[], false⟩
      else do
        let currentEntryPoint ← descend space query x fuel 0 x.maxLayer.toNat ep
        searchLayerFiltered space query k filter x rows maxScanCandidates fuel currentEntryPoint

end

end AsterVec.IndexGraph

import AsterVec.Programs
import AsterVec.UpdateMapping

/-!
The calls on a dense store as programs over its shared parts: the id tables, the
vector storage, the payload rows and the layer-0 graph.  Each call of a program is
one critical section or one storage operation.
-/

namespace AsterVec.Dense

open AsterVec.IdTypes
open AsterVec.Programs

/-- The shared state.  `vectors` gives the vectors whose locations are published,
`upper` the nodes other nodes link to above layer 0. -/
structure State (V Row : Type) where
  tables : IdTables
  vectors : Nat → Option V
  rows : Nat → Option Row
  edges : Nat → List Nat
  entryPoint : Option Nat
  upper : Nat → Bool

namespace State

def empty (V Row : Type) : State V Row where
  tables := IdTables.empty
  vectors := fun _ => none
  rows := fun _ => none
  edges := fun _ => []
  entryPoint := none
  upper := fun _ => false

end State

inductive Call (V Row : Type) where
  | resolveInternal (r : Nat)
  | resolveReal (i : Nat)
  | isTombstoned (i : Nat)
  | vectorExists (i : Nat)
  | allocateUpdateId
  | recordUpdateMapping (r i : Nat)
  | forgetUpdateMapping (r : Nat)
  | tombstone (i : Nat)
  | storeVector (i : Nat) (vector : V)
  | readVector (i : Nat)
  | getRow (i : Nat)
  | putRow (i : Nat) (row : Row)
  | putRows (items : List (Nat × Row))
  | deleteRow (i : Nat)
  | loadEntryPoint
  | casEntryPoint (i : Nat)
  | promote (i : Nat)
  | linkUpper (i : Nat)
  | getEdges (i : Nat)
  | addEdges (i : Nat) (neighbors : List Nat)
  | deleteEdges (pairs : List (Nat × Nat))

def Reply {V Row : Type} : Call V Row → Type
  | .resolveInternal _ | .resolveReal _ | .allocateUpdateId => Nat
  | .isTombstoned _ | .vectorExists _ | .casEntryPoint _ => Bool
  | .readVector _ => Option V
  | .getRow _ => Option Row
  | .loadEntryPoint => Option Nat
  | .getEdges _ => List Nat
  | _ => Unit

variable {V Row : Type}

def addEdge (edges : Nat → List Nat) (a b : Nat) : Nat → List Nat :=
  Function.update edges a (edges a ++ [b])

def deleteEdge (edges : Nat → List Nat) (a b : Nat) : Nat → List Nat :=
  Function.update edges a ((edges a).filter (· ≠ b))

/-- The effect of one call. -/
def exec : (c : Call V Row) → State V Row → Reply c × State V Row
  | .resolveInternal r, st => (st.tables.resolveInternal r, st)
  | .resolveReal i, st => (st.tables.resolveReal i, st)
  | .isTombstoned i, st => (st.tables.isTombstoned i, st)
  | .vectorExists i, st => ((st.vectors i).isSome, st)
  | .allocateUpdateId, st =>
      (st.tables.allocateUpdateId.1, { st with tables := st.tables.allocateUpdateId.2 })
  | .recordUpdateMapping r i, st =>
      ((), { st with tables := st.tables.recordUpdateMapping r i })
  | .forgetUpdateMapping r, st =>
      ((), { st with tables := st.tables.forgetUpdateMapping r })
  | .tombstone i, st => ((), { st with tables := st.tables.tombstone i })
  | .storeVector i vector, st =>
      ((), { st with vectors := Function.update st.vectors i (some vector) })
  | .readVector i, st => (st.vectors i, st)
  | .getRow i, st => (st.rows i, st)
  | .putRow i row, st => ((), { st with rows := Function.update st.rows i (some row) })
  | .putRows items, st =>
      ((), { st with
        rows := items.foldl (fun rows item => Function.update rows item.1 (some item.2))
          st.rows })
  | .deleteRow i, st => ((), { st with rows := Function.update st.rows i none })
  | .loadEntryPoint, st => (st.entryPoint, st)
  | .casEntryPoint i, st =>
      (st.entryPoint.isNone, { st with entryPoint := some (st.entryPoint.getD i) })
  | .promote i, st => ((), { st with entryPoint := some i })
  | .linkUpper i, st => ((), { st with upper := Function.update st.upper i true })
  | .getEdges i, st => (st.edges i, st)
  | .addEdges i neighbors, st =>
      ((), { st with
        edges := neighbors.foldl (fun edges n => addEdge (addEdge edges i n) n i)
          st.edges })
  | .deleteEdges pairs, st =>
      ((), { st with
        edges := pairs.foldl (fun edges pair =>
          deleteEdge (deleteEdge edges pair.1 pair.2) pair.2 pair.1) st.edges })

abbrev Prog (V Row : Type) := Program (Call V Row) Reply

def perform (c : Call V Row) : Prog V Row (Reply c) := Program.perform c

namespace Prog

def resolveInternal (r : Nat) : Prog V Row Nat := perform (.resolveInternal r)

def resolveReal (i : Nat) : Prog V Row Nat := perform (.resolveReal i)

def isTombstoned (i : Nat) : Prog V Row Bool := perform (.isTombstoned i)

def vectorExists (i : Nat) : Prog V Row Bool := perform (.vectorExists i)

def allocateUpdateId : Prog V Row Nat := perform .allocateUpdateId

def recordUpdateMapping (r i : Nat) : Prog V Row Unit :=
  perform (.recordUpdateMapping r i)

def forgetUpdateMapping (r : Nat) : Prog V Row Unit :=
  perform (.forgetUpdateMapping r)

def tombstone (i : Nat) : Prog V Row Unit := perform (.tombstone i)

def storeVector (i : Nat) (vector : V) : Prog V Row Unit :=
  perform (.storeVector i vector)

def readVector (i : Nat) : Prog V Row (Option V) := perform (.readVector i)

def getRow (i : Nat) : Prog V Row (Option Row) := perform (.getRow i)

def putRow (i : Nat) (row : Row) : Prog V Row Unit := perform (.putRow i row)

def putRows (items : List (Nat × Row)) : Prog V Row Unit := perform (.putRows items)

def deleteRow (i : Nat) : Prog V Row Unit := perform (.deleteRow i)

def loadEntryPoint : Prog V Row (Option Nat) := perform .loadEntryPoint

def casEntryPoint (i : Nat) : Prog V Row Bool := perform (.casEntryPoint i)

def promote (i : Nat) : Prog V Row Unit := perform (.promote i)

def linkUpper (i : Nat) : Prog V Row Unit := perform (.linkUpper i)

def getEdges (i : Nat) : Prog V Row (List Nat) := perform (.getEdges i)

def addEdges (i : Nat) (neighbors : List Nat) : Prog V Row Unit :=
  perform (.addEdges i neighbors)

def deleteEdges (pairs : List (Nat × Nat)) : Prog V Row Unit :=
  perform (.deleteEdges pairs)

end Prog

open Prog

def isAlive (r : Nat) : Prog V Row Bool := do
  let i ← resolveInternal r
  let dead ← isTombstoned i
  bif dead then pure false else vectorExists i

/-- What the searches of `insertNode` and the random level decide: the neighbors at
layer 0, the layer-0 edges its shrinking drops, whether other nodes link to the node
above layer 0 and whether it becomes the entry point. -/
structure Plan where
  selected : List Nat
  dropped : List (Nat × Nat)
  upper : Bool
  promoted : Bool

/-- Publish the edges of a stored node: layer 0 first, then the upper layers, the
shrunk lists of its neighbors, and last the entry point. -/
def linkNode (nodeId : Nat) (plan : Plan) : Prog V Row Unit := do
  addEdges nodeId plan.selected
  bif plan.upper then linkUpper nodeId else pure ()
  deleteEdges plan.dropped
  bif plan.promoted then promote nodeId else pure ()

def insertNode (nodeId : Nat) (vector : V) (plan : Plan) : Prog V Row Unit := do
  match ← loadEntryPoint with
  | none =>
      -- The first node has no neighbors to link.
      storeVector nodeId vector
      let first ← casEntryPoint nodeId
      bif first then pure () else linkNode nodeId plan
  | some _ =>
      storeVector nodeId vector
      linkNode nodeId plan

/-- A write of one id.  `metadata` is the payload field, `none` when absent. -/
structure Write (V Row : Type) where
  r : Nat
  vector : V
  metadata : Option Row
  plan : Plan

def putMetadata (i : Nat) : Option Row → Prog V Row Unit
  | some row => putRow i row
  | none => pure ()

/-- The part of an insert for an id that is not alive. -/
def insertDead (write : Write V Row) : Prog V Row Unit := do
  let reinsert ← isTombstoned write.r
  let targetInternal ← bif reinsert then allocateUpdateId else pure write.r
  bif reinsert then recordUpdateMapping write.r targetInternal else pure ()
  insertNode targetInternal write.vector write.plan
  putMetadata targetInternal write.metadata

/-- The payload of the new version: the one given, or else the old one. -/
def migrateMetadata (oldInternal newInternal : Nat) : Option Row → Prog V Row Unit
  | some row => putRow newInternal row
  | none => do
      let oldMeta ← getRow oldInternal
      putMetadata newInternal oldMeta

/-- The part of an update for an id that is alive. -/
def updateAlive (write : Write V Row) : Prog V Row Unit := do
  let oldInternal ← resolveInternal write.r
  let newInternal ← allocateUpdateId
  insertNode newInternal write.vector write.plan
  recordUpdateMapping write.r newInternal
  tombstone oldInternal
  migrateMetadata oldInternal newInternal write.metadata
  deleteRow oldInternal

inductive Kind where
  | insert
  | update

/-- `insertDense` and `updateDense` hand the write to each other by the liveness of
the id.  `false` tells that they did so `fuel` times. -/
def writeDense : Nat → Kind → Write V Row → Prog V Row Bool
  | 0, _, _ => pure false
  | fuel + 1, .insert, write => do
      let alive ← isAlive write.r
      bif alive then writeDense fuel .update write
      else do
        insertDead write
        pure true
  | fuel + 1, .update, write => do
      let alive ← isAlive write.r
      bif alive then do
        updateAlive write
        pure true
      else writeDense fuel .insert write

def insertDense (write : Write V Row) : Prog V Row Bool := writeDense 2 .insert write

def updateDense (write : Write V Row) : Prog V Row Bool := writeDense 2 .update write

def deleteDense (r : Nat) : Prog V Row Bool := do
  let _ ← isAlive r
  let i ← resolveInternal r
  let present ← vectorExists i
  bif present then do
    tombstone i
    deleteRow i
    forgetUpdateMapping r
    pure true
  else pure true

inductive GetResult (V : Type) where
  | notFound
  | ioError
  | ok (vector : V)
deriving DecidableEq

def getDense (r : Nat) : Prog V Row (GetResult V) := do
  let alive ← isAlive r
  bif alive then do
    let i ← resolveInternal r
    let vector ← readVector i
    pure (vector.elim .ioError .ok)
  else pure .notFound

end AsterVec.Dense

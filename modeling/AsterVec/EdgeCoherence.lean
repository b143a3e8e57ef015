import AsterVec.EdgeLists
import AsterVec.Machines
import AsterVec.Programs

/-!
The edge cache beside the graph store, under concurrent inserts and searches.  A miss reads
the graph and fills the cache in two steps; a writer changes the graph and invalidates in
two steps.
-/

namespace AsterVec.EdgeCoherence

open AsterVec.EdgeLists
open AsterVec.Machines
open AsterVec.Programs

abbrev Graph := NodeId → List NodeId

abbrev Edge := NodeId × NodeId

/-- The graph store, with what its interface says of the two batches: a list changes only
for a vertex that the batch names. -/
structure GraphStore where
  addEdgeBatch : List Edge → Graph → Graph
  deleteEdgeBatch : List Edge → Graph → Graph
  add_frame : ∀ edges g v, (∀ e ∈ edges, e.1 ≠ v) → addEdgeBatch edges g v = g v
  delete_frame : ∀ edges g v, (∀ e ∈ edges, e.1 ≠ v ∧ e.2 ≠ v) →
    deleteEdgeBatch edges g v = g v

/-- The atomic calls of the level-0 code. -/
inductive Call where
  | get (id : NodeId)
  | getOutEdges (id : NodeId)
  | put (id : NodeId) (neighbors : List NodeId)
  | hasLocation (id : NodeId)
  | storeVector (id : NodeId)
  | addEdgeBatch (nodeId : NodeId) (neighborIds : List NodeId)
  | deleteEdgeBatch (edges : List Edge)
  | erase (id : NodeId)

def Reply : Call → Type
  | .get _ => Option (List NodeId)
  | .getOutEdges _ => List NodeId
  | .hasLocation _ => Bool
  | _ => Unit

abbrev Prog (α : Type) := Program Call Reply α

def perform (c : Call) : Prog (Reply c) := Program.perform c

def get (id : NodeId) : Prog (Option (List NodeId)) := perform (.get id)

def getOutEdges (id : NodeId) : Prog (List NodeId) := perform (.getOutEdges id)

def hasLocation (id : NodeId) : Prog Bool := perform (.hasLocation id)

/-- The graph, the ids with a vector location, and the cache. -/
structure Shared where
  graph : Graph
  located : NodeId → Bool
  cache : EdgeLRUCache

/-- Both directions of the edges of a new node. -/
def allEdges (nodeId : NodeId) (neighborIds : List NodeId) : List Edge :=
  neighborIds.flatMap fun neighborId => [(nodeId, neighborId), (neighborId, nodeId)]

/-- The effect of one call. -/
def exec (store : GraphStore) : (c : Call) → Shared → Reply c × Shared
  | .get id, x => (x.cache.get id, x)
  | .getOutEdges id, x => (x.graph id, x)
  | .put id neighbors, x => ((), { x with cache := x.cache.put id neighbors })
  | .hasLocation id, x => (x.located id, x)
  | .storeVector id, x => ((), { x with located := Function.update x.located id true })
  | .addEdgeBatch nodeId neighborIds, x =>
      ((), { x with graph := store.addEdgeBatch (allEdges nodeId neighborIds) x.graph })
  | .deleteEdgeBatch edges, x =>
      ((), { x with graph := store.deleteEdgeBatch edges x.graph })
  | .erase id, x => ((), { x with cache := x.cache.erase id })

/-- Drop the ids without a location. -/
def dropUnlocatable : List NodeId → Prog (List NodeId)
  | [] => pure []
  | id :: ids => do
      let located ← hasLocation id
      let rest ← dropUnlocatable ids
      pure (if located then id :: rest else rest)

def getEdgesCached (id : NodeId) : Prog (List NodeId) := do
  match ← get id with
  | some neighbors => dropUnlocatable neighbors
  | none => do
      let result ← getOutEdges id
      perform (.put id result)
      dropUnlocatable result

/-- The lookups of a search: which list it reads next depends on those it has read. -/
inductive Lookups (α : Type) where
  | done (value : α)
  | look (id : NodeId) (next : List NodeId → Lookups α)

def Lookups.program {α : Type} : Lookups α → Prog α
  | done value => pure value
  | look id next => do
      let neighbors ← getEdgesCached id
      (next neighbors).program

def eraseAll : List NodeId → Prog Unit
  | [] => pure ()
  | id :: ids => do
      perform (.erase id)
      eraseAll ids

def linkNeighborsAsterDB (nodeId : NodeId) (neighborIds : List NodeId) : Prog Unit :=
  if neighborIds = [] then pure ()
  else do
    perform (.addEdgeBatch nodeId neighborIds)
    eraseAll neighborIds

/-- The edges the layer-0 shrink takes from the neighbors with too many; `select` is the
choice made by `selectNeighbors` for a neighbor. -/
def edgesToDelete (select : NodeId → List NodeId → List NodeId) (mMax : Nat) :
    List NodeId → Prog (List Edge)
  | [] => pure []
  | neighbor :: rest => do
      let eConns ← getEdgesCached neighbor
      let dropped :=
        if mMax < eConns.length then
          (eConns.filter fun node => node ∉ select neighbor eConns).map fun node =>
            (neighbor, node)
        else []
      let more ← edgesToDelete select mMax rest
      pure (dropped ++ more)

def shrink (select : NodeId → List NodeId → List NodeId) (mMax : Nat)
    (selectedLevel0 : List NodeId) : Prog Unit := do
  let edges ← edgesToDelete select mMax selectedLevel0
  if edges = [] then pure ()
  else do
    perform (.deleteEdgeBatch edges)
    eraseAll (edges.flatMap fun e => [e.1, e.2])

/-- The two kinds of calls.  An insert is given with its search for neighbors. -/
inductive Operation where
  | search (lookups : Lookups Unit)
  | insertNode (nodeId : NodeId) (lookups : Lookups (List NodeId))
      (select : NodeId → List NodeId → List NodeId) (mMax : Nat)

def Operation.program : Operation → Prog Unit
  | search lookups => lookups.program
  | insertNode nodeId lookups select mMax => do
      let selectedLevel0 ← lookups.program
      perform (.storeVector nodeId)
      linkNeighborsAsterDB nodeId selectedLevel0
      shrink select mMax selectedLevel0

structure System (κ : Type) extends Shared where
  calls : κ → Option (Prog Unit)

/-- A call begins, or takes its next step. -/
inductive Label (κ : Type) where
  | start (k : κ) (operation : Operation)
  | advance (k : κ)

section Steps

variable {κ : Type} [DecidableEq κ]

def step (store : GraphStore) (x : System κ) : Label κ → Option (System κ)
  | .start k operation =>
      if (x.calls k).isNone then
        some { x with calls := Function.update x.calls k (some operation.program) }
      else none
  | .advance k =>
      match x.calls k with
      | none => none
      | some (.done _) => some { x with calls := Function.update x.calls k none }
      | some (.call c next) =>
          let r := exec store c x.toShared
          some { toShared := r.2, calls := Function.update x.calls k (some (next r.1)) }

end Steps

/-- The ids a program erases before it does anything else. -/
def owes {α : Type} : Prog α → List NodeId
  | .call (.erase id) next => id :: owes (next ())
  | .call _ _ => []
  | .done _ => []

/-- The ids to erase after a call; after the edges of a new node, only its neighbors. -/
def mustErase : Call → List NodeId
  | .addEdgeBatch _ neighborIds => neighborIds
  | .deleteEdgeBatch edges => edges.flatMap fun e => [e.1, e.2]
  | _ => []

/-- After each batch a program erases the ids it must. -/
def Covered {α : Type} : Prog α → Prop
  | .done _ => True
  | .call c next => ∀ reply, (∀ id ∈ mustErase c, id ∈ owes (next reply)) ∧ Covered (next reply)

/-- A call under way still has to erase `id`. -/
def Owed {κ : Type} (x : System κ) (id : NodeId) : Prop :=
  ∃ k, ∃ p ∈ x.calls k, id ∈ owes p

/-- Every list held is what the graph store returns. -/
def Coherent {κ : Type} (x : System κ) : Prop :=
  ∀ id l, x.cache.Holds id l → l = x.graph id

/-- A list is put when it still is what the graph has, or will be erased; the edges of a new
node are added when no list is held for it. -/
def Timely {κ : Type} (x : System κ) : Label κ → Prop
  | .start _ _ => True
  | .advance k =>
      match x.calls k with
      | some (.call (.put id neighbors) _) => neighbors = x.graph id ∨ Owed x id
      | some (.call (.addEdgeBatch nodeId _) _) => ∀ l, ¬ x.cache.Holds nodeId l
      | _ => True

/-- All calls have returned. -/
def Quiet {κ : Type} (x : System κ) : Prop := ∀ k, x.calls k = none

section Covering

variable {α β : Type}

theorem covered_pure (value : α) : Covered (pure value : Prog α) := trivial

theorem mem_owes_bind {id : NodeId} {p : Prog α} {follow : α → Prog β} (hid : id ∈ owes p) :
    id ∈ owes (p >>= follow) := by
  induction p with
  | done value => exact absurd hid List.not_mem_nil
  | call c next ih =>
      cases c with
      | erase j =>
          rcases List.mem_cons.mp hid with rfl | hrest
          · exact List.mem_cons_self
          · exact List.mem_cons_of_mem _ (ih () hrest)
      | _ => exact absurd hid List.not_mem_nil

theorem covered_bind {p : Prog α} {follow : α → Prog β} (hp : Covered p)
    (hfollow : ∀ value, Covered (follow value)) : Covered (p >>= follow) := by
  induction p with
  | done value => exact hfollow value
  | call c next ih =>
      exact fun reply => ⟨fun id hid => mem_owes_bind ((hp reply).1 id hid),
        ih reply (hp reply).2⟩

theorem covered_perform {c : Call} (hc : mustErase c = []) : Covered (perform c) := by
  intro reply
  refine ⟨fun id hid => ?_, trivial⟩
  rw [hc] at hid
  exact absurd hid List.not_mem_nil

theorem covered_dropUnlocatable (ids : List NodeId) : Covered (dropUnlocatable ids) := by
  induction ids with
  | nil => trivial
  | cons id ids ih =>
      exact covered_bind (covered_perform rfl) fun _ => covered_bind ih fun _ => trivial

theorem covered_getEdgesCached (id : NodeId) : Covered (getEdgesCached id) := by
  refine covered_bind (covered_perform rfl) fun cached => ?_
  cases cached with
  | some neighbors => exact covered_dropUnlocatable neighbors
  | none =>
      exact covered_bind (covered_perform rfl) fun result =>
        covered_bind (covered_perform rfl) fun _ => covered_dropUnlocatable result

theorem covered_lookups (lookups : Lookups α) : Covered lookups.program := by
  induction lookups with
  | done value => trivial
  | look id next ih => exact covered_bind (covered_getEdgesCached id) fun neighbors => ih neighbors

theorem covered_eraseAll (ids : List NodeId) : Covered (eraseAll ids) := by
  induction ids with
  | nil => trivial
  | cons id ids ih => exact covered_bind (covered_perform rfl) fun _ => ih

theorem owes_eraseAll (ids : List NodeId) : owes (eraseAll ids) = ids := by
  induction ids with
  | nil => rfl
  | cons id ids ih => exact congrArg (id :: ·) ih

/-- A batch and the erasures it asks for. -/
theorem covered_batch {c : Call} {ids : List NodeId} (hids : mustErase c = ids) :
    Covered (perform c >>= fun _ => eraseAll ids) := by
  intro reply
  change (∀ id ∈ mustErase c, id ∈ owes (eraseAll ids)) ∧ Covered (eraseAll ids)
  rw [owes_eraseAll, hids]
  exact ⟨fun _ hid => hid, covered_eraseAll ids⟩

theorem covered_linkNeighborsAsterDB (nodeId : NodeId) (neighborIds : List NodeId) :
    Covered (linkNeighborsAsterDB nodeId neighborIds) := by
  unfold linkNeighborsAsterDB
  split
  · exact covered_pure ()
  · exact covered_batch rfl

theorem covered_shrink (select : NodeId → List NodeId → List NodeId) (mMax : Nat)
    (selectedLevel0 : List NodeId) : Covered (shrink select mMax selectedLevel0) := by
  have hedges : Covered (edgesToDelete select mMax selectedLevel0) := by
    induction selectedLevel0 with
    | nil => trivial
    | cons neighbor rest ih =>
        exact covered_bind (covered_getEdgesCached neighbor) fun _ =>
          covered_bind ih fun _ => trivial
  refine covered_bind hedges fun edges => ?_
  split
  · exact covered_pure ()
  · exact covered_batch rfl

theorem Operation.covered (operation : Operation) : Covered operation.program := by
  cases operation with
  | search lookups => exact covered_lookups lookups
  | insertNode nodeId lookups select mMax =>
      exact covered_bind (covered_lookups lookups) fun selectedLevel0 =>
        covered_bind (covered_perform rfl) fun _ =>
          covered_bind (covered_linkNeighborsAsterDB nodeId selectedLevel0) fun _ =>
            covered_shrink select mMax selectedLevel0

end Covering

section Kept

variable {κ : Type}

/-- What every timely step keeps. -/
structure Kept (x : System κ) : Prop where
  placed : x.cache.Placed
  held : ∀ id l, x.cache.Holds id l → l = x.graph id ∨ Owed x id
  covered : ∀ k, ∀ p ∈ x.calls k, Covered p

theorem Coherent.kept {x : System κ} (hx : Coherent x) (hplaced : x.cache.Placed)
    (hquiet : Quiet x) : Kept x :=
  ⟨hplaced, fun id l hl => .inl (hx id l hl), fun k p hp => by rw [hquiet k] at hp; cases hp⟩

theorem Kept.coherent {x : System κ} (hx : Kept x) (hquiet : Quiet x) : Coherent x := by
  intro id l hl
  rcases hx.held id l hl with heq | ⟨k, p, hp, -⟩
  · exact heq
  · rw [hquiet k] at hp
    cases hp

variable [DecidableEq κ] {x : System κ} {k : κ} {p : Prog Unit}

/-- What a call owes, it or another call still owes after a step of its own. -/
theorem Owed.after {id : NodeId} {s : Shared} {o : Option (Prog Unit)} (hid : Owed x id)
    (hk : x.calls k = some p) (hown : id ∈ owes p → ∃ p' ∈ o, id ∈ owes p') :
    Owed { toShared := s, calls := Function.update x.calls k o : System κ } id := by
  rcases hid with ⟨j, q, hq, hid⟩
  by_cases hj : j = k
  · subst hj
    obtain rfl : p = q := Option.some.inj (hk.symm.trans hq)
    rcases hown hid with ⟨p', hp', hid'⟩
    exact ⟨j, p', (Function.update_self j o x.calls).trans hp', hid'⟩
  · exact ⟨j, q, (Function.update_of_ne hj o x.calls).trans hq, hid⟩

theorem Kept.moved (hx : Kept x) {s : Shared} {o : Option (Prog Unit)}
    (ho : ∀ p ∈ o, Covered p) (hplaced : s.cache.Placed)
    (hheld : ∀ id l, s.cache.Holds id l → l = s.graph id ∨
      Owed { toShared := s, calls := Function.update x.calls k o : System κ } id) :
    Kept { toShared := s, calls := Function.update x.calls k o : System κ } := by
  refine ⟨hplaced, hheld, fun j q hq => ?_⟩
  change q ∈ Function.update x.calls k o j at hq
  by_cases hj : j = k
  · subst hj
    rw [Function.update_self] at hq
    exact ho q hq
  · rw [Function.update_of_ne hj] at hq
    exact hx.covered j q hq

/-- A call that changes neither the graph nor the cache. -/
theorem Kept.read (hx : Kept x) (hk : x.calls k = some p) {s : Shared}
    {o : Option (Prog Unit)} (howes : owes p = []) (ho : ∀ p ∈ o, Covered p)
    (hgraph : s.graph = x.graph) (hcache : s.cache = x.cache) :
    Kept { toShared := s, calls := Function.update x.calls k o : System κ } := by
  refine hx.moved ho (hcache ▸ hx.placed) fun id l hl => ?_
  rw [hcache] at hl
  rw [hgraph]
  refine (hx.held id l hl).imp_right fun hid => hid.after hk fun hown => ?_
  rw [howes] at hown
  exact absurd hown List.not_mem_nil

/-- A batch: the lists it changes are not held, or are erased next. -/
theorem Kept.batch (hx : Kept x) (hk : x.calls k = some p) (howes : owes p = [])
    {p' : Prog Unit} (hp' : Covered p') {g : Graph}
    (hframe : ∀ id l, x.cache.Holds id l → g id = x.graph id ∨ id ∈ owes p') :
    Kept (⟨{ x.toShared with graph := g }, Function.update x.calls k (some p')⟩ : System κ) := by
  refine hx.moved (fun q hq => Option.some.inj hq ▸ hp') hx.placed fun id l hl => ?_
  have hself : id ∈ owes p' → Owed
      (⟨{ x.toShared with graph := g }, Function.update x.calls k (some p')⟩ : System κ) id :=
    fun hid => ⟨k, p', Function.update_self .., hid⟩
  rcases hframe id l hl with hsame | hid
  · refine (hx.held id l hl).imp (fun heq => heq.trans hsame.symm) fun hid => hid.after hk ?_
    intro hown
    rw [howes] at hown
    exact absurd hown List.not_mem_nil
  · exact .inr (hself hid)

theorem mem_allEdges_fst {nodeId : NodeId} {neighborIds : List NodeId} {e : Edge}
    (he : e ∈ allEdges nodeId neighborIds) : e.1 = nodeId ∨ e.1 ∈ neighborIds := by
  rcases List.mem_flatMap.mp he with ⟨neighborId, hneighbor, he⟩
  rcases List.mem_cons.mp he with rfl | he
  · exact .inl rfl
  · obtain rfl := List.mem_singleton.mp he
    exact .inr hneighbor

theorem Kept.step {store : GraphStore} {l : Label κ} {y : System κ} (hx : Kept x)
    (htimely : Timely x l) (hstep : step store x l = some y) : Kept y := by
  cases l with
  | start k operation =>
      simp only [EdgeCoherence.step, Option.ite_none_right_eq_some, Option.some.injEq] at hstep
      rcases hstep with ⟨hfree, rfl⟩
      refine hx.moved (fun q hq => Option.some.inj hq ▸ operation.covered) hx.placed ?_
      refine fun id m hm => (hx.held id m hm).imp_right ?_
      rintro ⟨j, q, hq, hid⟩
      have hj : j ≠ k := by
        rintro rfl
        rw [Option.isNone_iff_eq_none.mp hfree] at hq
        cases hq
      exact ⟨j, q, (Function.update_of_ne hj ..).trans hq, hid⟩
  | advance k =>
      cases hk : x.calls k with
      | none =>
          rw [EdgeCoherence.step, hk] at hstep
          cases hstep
      | some p =>
          have hcovered := hx.covered k p hk
          cases p with
          | done value =>
              rw [EdgeCoherence.step, hk] at hstep
              obtain rfl := Option.some.inj hstep
              exact hx.read hk rfl (fun q hq => by cases hq) rfl rfl
          | call c next =>
              rw [EdgeCoherence.step, hk] at hstep
              obtain rfl := Option.some.inj hstep
              have hnext : ∀ reply, ∀ q ∈ some (next reply), Covered q :=
                fun reply q hq => Option.some.inj hq ▸ (hcovered reply).2
              rw [Timely, hk] at htimely
              cases c with
              | get id => exact hx.read hk rfl (hnext _) rfl rfl
              | getOutEdges id => exact hx.read hk rfl (hnext _) rfl rfl
              | hasLocation id => exact hx.read hk rfl (hnext _) rfl rfl
              | storeVector id => exact hx.read hk rfl (hnext _) rfl rfl
              | put id neighbors =>
                  refine hx.moved (hnext ()) hx.placed.put fun j m hm => ?_
                  rcases EdgeLRUCache.holds_put hx.placed hm with ⟨rfl, rfl⟩ | ⟨-, hold⟩
                  · exact htimely.imp_right fun hid =>
                      hid.after hk fun hown => absurd hown List.not_mem_nil
                  · exact (hx.held j m hold).imp_right fun hid =>
                      hid.after hk fun hown => absurd hown List.not_mem_nil
              | erase id =>
                  refine hx.moved (hnext ()) hx.placed.erase fun j m hm => ?_
                  rcases EdgeLRUCache.holds_erase hx.placed hm with ⟨hne, hold⟩
                  refine (hx.held j m hold).imp_right fun hid => hid.after hk fun hown => ?_
                  exact ⟨next (), rfl, (List.mem_cons.mp hown).resolve_left hne⟩
              | addEdgeBatch nodeId neighborIds =>
                  refine hx.batch hk rfl (hcovered ()).2 fun j m hm => ?_
                  by_cases hj : j ∈ neighborIds
                  · exact .inr ((hcovered ()).1 j hj)
                  · refine .inl (store.add_frame _ _ _ fun e he heq => ?_)
                    rcases mem_allEdges_fst he with hfst | hfst
                    · exact htimely m (hfst ▸ heq ▸ hm)
                    · exact hj (heq ▸ hfst)
              | deleteEdgeBatch edges =>
                  refine hx.batch hk rfl (hcovered ()).2 fun j m hm => ?_
                  by_cases hj : j ∈ mustErase (.deleteEdgeBatch edges)
                  · exact .inr ((hcovered ()).1 j hj)
                  · refine .inl (store.delete_frame _ _ _ fun e he => ⟨?_, ?_⟩)
                    · rintro rfl
                      exact hj (List.mem_flatMap.mpr ⟨e, he, List.mem_cons_self⟩)
                    · rintro rfl
                      exact hj (List.mem_flatMap.mpr ⟨e, he, by simp⟩)

end Kept

/-- Adjacency lists: an edge is added at the end of the list of its source. -/
def GraphStore.adjacency : GraphStore where
  addEdgeBatch edges g v := g v ++ (edges.filter (·.1 = v)).map Prod.snd
  deleteEdgeBatch edges g v := (g v).filter fun w => (v, w) ∉ edges
  add_frame := by
    intro edges g v hframe
    have hnone : edges.filter (fun e => e.1 = v) = [] := by
      simpa [List.filter_eq_nil_iff] using hframe
    simp only [hnone, List.map_nil, List.append_nil]
  delete_frame := by
    intro edges g v hframe
    refine List.filter_eq_self.mpr fun w _ => ?_
    simpa using fun h => (hframe (v, w) h).1 rfl

/-- A graph of one vertex with a location, and a cache without lists. -/
def System.initial : System Bool :=
  { graph := fun _ => [], located := fun id => id = 1, cache := .init true 64,
    calls := fun _ => none }

theorem coherent_initial : Coherent System.initial := by
  rintro id l ⟨s, slot, hslot, -⟩
  exact absurd hslot List.not_mem_nil

/-- A search that reads the list of vertex 1. -/
def lookup : Operation := .search (.look 1 fun _ => .done ())

/-- The insert of vertex 2 beside vertex 1. -/
def insertion : Operation := .insertNode 2 (.done [1]) (fun _ candidates => candidates) 16

end AsterVec.EdgeCoherence

import AsterVec.DegreeBounds

/-!
Runs of the index with checkpoints and reopens.  A reopen takes what a checkpoint has and
finds any graph on layer 0, one with later edges as well.
-/

namespace AsterVec.IndexGraph

open AsterVec.Dense
open AsterVec.LayerSearch (Safe Distinct)

variable {V D : Type} [LinearOrder D] {cfg : Config} {store : GraphStore} {space : Space V D}

/-- The part of the index that a checkpoint has. -/
structure Checkpoint (V : Type) where
  nodes : Nat → Option (Node V)
  entryPoint : Option Nat
  maxLayer : Int
  located : Nat → Bool

def Index.serializeMetadata (x : Index V) : Checkpoint V :=
  ⟨x.nodes, x.entryPoint, x.maxLayer, fun id => (x.vectors id).isSome⟩

/-- The index of a checkpoint, over the graph and the vectors that are there. -/
def Checkpoint.deserializeMetadata (space : Space V D) (saved : Checkpoint V) (edges : Graph)
    (vectors : Nat → Option V) : Index V where
  nodes id := (saved.nodes id).map fun node => { node with point := space.quantized node.point }
  entryPoint := saved.entryPoint
  maxLayer := saved.maxLayer
  edges := edges
  vectors := vectors

/-- An open index with the checkpoints that were taken. -/
structure Machine (V : Type) where
  index : Index V
  checkpoints : List (Checkpoint V)

/-- The runs of successful calls.  An insert comes with an id that has no location: the
engine inserts under a caller's id that was not alive and not tombstoned, or under an
update id that was not in use, and a log is replayed over a checkpoint before its inserts. -/
inductive Run (cfg : Config) (store : GraphStore) (space : Space V D) : Machine V → Prop where
  | create : Run cfg store space ⟨Index.empty V, [(Index.empty V).serializeMetadata]⟩
  | insertNode {s : Machine V} {fuel nodeId : Nat} {vector : V} {highestLayer : Nat} {y : Index V}
      (hrun : Run cfg store space s) (hfresh : s.index.vectors nodeId = none)
      (hcall : insertNode cfg store space fuel nodeId vector highestLayer s.index = .hits y) :
      Run cfg store space { s with index := y }
  | bulkBuild {s : Machine V} {fuel : Nat} {batch : Batch V} {y : Index V}
      (hrun : Run cfg store space s)
      (hcall : bulkBuild cfg store space fuel batch s.index = .hits y) :
      Run cfg store space { s with index := y }
  | checkpoint {s : Machine V} (hrun : Run cfg store space s) :
      Run cfg store space { s with checkpoints := s.index.serializeMetadata :: s.checkpoints }
  | reopen {s : Machine V} {saved : Checkpoint V} {edges : Graph} {vectors : Nat → Option V}
      (hrun : Run cfg store space s) (hsaved : saved ∈ s.checkpoints)
      (hvectors : ∀ id, (vectors id).isSome = saved.located id) :
      Run cfg store space { s with index := saved.deserializeMetadata space edges vectors }

/-! ## Reopens -/

/-- A checkpoint of a navigable index. -/
def Checkpoint.Sound (cfg : Config) (saved : Checkpoint V) : Prop :=
  ∃ x : Index V, Navigable cfg x ∧ saved = x.serializeMetadata

theorem neighborsAt_deserialize (space : Space V D) (x : Index V) (edges : Graph) (vectors : Nat → Option V) :
    (x.serializeMetadata.deserializeMetadata space edges vectors).neighborsAt = x.neighborsAt := by
  funext layer id
  unfold Index.neighborsAt Checkpoint.deserializeMetadata Index.serializeMetadata
  simp only
  cases x.nodes id with
  | none => rfl
  | some node => rfl

/-- A reopen gives a navigable index, whatever is on layer 0. -/
theorem Checkpoint.Sound.reopen {saved : Checkpoint V} (hsaved : saved.Sound cfg) (edges : Graph)
    {vectors : Nat → Option V} (hvectors : ∀ id, (vectors id).isSome = saved.located id) :
    Navigable cfg (saved.deserializeMetadata space edges vectors) := by
  obtain ⟨x, hx, rfl⟩ := hsaved
  have hlists := neighborsAt_deserialize space x edges vectors
  have hnodes : ∀ w, ((x.serializeMetadata.deserializeMetadata space edges vectors).nodes w).isSome
      = (x.nodes w).isSome := fun w => Option.isSome_map
  have hlocated : ∀ w, (vectors w).isSome = (x.vectors w).isSome := hvectors
  refine ⟨⟨fun _ hw => hw, ?_, ?_, fun l v w hw => ?_, ?_⟩, fun w hw => ?_, fun e he => ?_,
    fun hunset w => ?_⟩
  · rw [hlists]
    exact hx.linked.nodup
  · rw [hlists]
    exact hx.linked.other
  · rw [hlists] at hw
    rw [hnodes]
    exact hx.linked.known l v w hw
  · rw [hlists]
    exact hx.linked.length_le
  · rw [hnodes] at hw
    exact (hlocated w).trans (hx.located w hw)
  · obtain ⟨hvector, hnode⟩ := hx.entry e he
    refine ⟨(hlocated e).trans hvector, fun hone => ?_⟩
    rw [hnodes]
    exact hnode hone
  · change (x.nodes w).map _ = none
    rw [hx.unset hunset w]
    rfl

/-- Every state of a run is navigable, and so is every checkpoint of it. -/
theorem Run.navigable {s : Machine V} (hrun : Run cfg store space s) :
    Navigable cfg s.index ∧ ∀ saved ∈ s.checkpoints, saved.Sound cfg := by
  induction hrun with
  | create =>
      refine ⟨navigable_empty, fun saved hsaved => ?_⟩
      rw [List.mem_singleton.1 hsaved]
      exact ⟨_, navigable_empty, rfl⟩
  | insertNode _ hfresh hcall ih =>
      exact ⟨((ih.1.insertNode hfresh _ _).of_hits hcall).1, ih.2⟩
  | bulkBuild _ hcall ih => exact ⟨((ih.1.bulkBuild _ _).of_hits hcall).1, ih.2⟩
  | checkpoint _ ih =>
      refine ⟨ih.1, fun saved hsaved => ?_⟩
      rcases List.mem_cons.1 hsaved with rfl | hold
      · exact ⟨_, ih.1, rfl⟩
      · exact ih.2 saved hold
  | reopen _ hsaved hvectors ih => exact ⟨(ih.2 _ hsaved).reopen _ hvectors, ih.2⟩

/-! ## Searches -/

section

variable {x : Index V} {query : V}

theorem Navigable.descend (hx : Navigable cfg x) {ep : Nat} (hep : x.entryPoint = some ep)
    (fuel : Nat) :
    Safe (fun current => (x.vectors current).isSome = true)
      (descend space query x fuel 0 x.maxLayer.toNat ep) := by
  refine (safe_descend hx.linked.known fuel 0 x.maxLayer.toNat ep).mono fun current hcurrent => ?_
  rcases hcurrent with rfl | hknown
  · exact (hx.entry _ hep).1
  · exact hx.located current hknown

theorem Navigable.knnSearchK (hx : Navigable cfg x) (fuel : Nat) (tombstoned : Nat → Bool)
    (k efSearch : Int) :
    Safe (fun _ => True) (knnSearchK cfg space x query fuel tombstoned k efSearch) := by
  unfold IndexGraph.knnSearchK
  cases hep : x.entryPoint with
  | none => trivial
  | some ep =>
      simp only
      split
      · trivial
      · exact safe_bind (hx.descend hep fuel) fun current hcurrent =>
          safe_bind (safe_searchLayer_zero hcurrent fuel _) fun _ _ => trivial

variable {Row : Type} {k : Nat} {filter : Dense.Filter Row} {rows : Nat → Option Row}

theorem safe_scanNeighbors {ids : List Nat} (hids : ∀ id ∈ ids, (x.vectors id).isSome = true)
    (state : ScanState D) :
    Safe (fun _ => True) (scanNeighbors space query k filter x rows ids state) := by
  induction ids generalizing state with
  | nil => trivial
  | cons nb ids ih =>
      have hrest := ih fun id hid => hids id (List.mem_cons_of_mem _ hid)
      obtain ⟨vector, hvector⟩ := Option.isSome_iff_exists.1 (hids nb List.mem_cons_self)
      unfold scanNeighbors
      split
      · exact hrest state
      · rw [hvector]
        exact hrest _

/-- The filtered loop reads only neighbors that have a location. -/
theorem safe_scanLoop (maxScan fuel : Nat) (state : ScanState D) :
    Safe (fun _ => True) (scanLoop space query k filter x rows maxScan fuel state) := by
  induction fuel generalizing state with
  | zero => trivial
  | succ fuel ih =>
      unfold scanLoop
      cases topOf nearer state.candidates with
      | none => trivial
      | some current =>
          simp only
          split
          · trivial
          split
          · trivial
          · exact safe_bind (safe_scanNeighbors (fun id hid => (List.mem_filter.1 hid).2) _)
              fun after _ => ih after

theorem Navigable.knnSearchKFiltered (hx : Navigable cfg x) (maxScanCandidates : Int)
    (fuel : Nat) :
    Safe (fun _ => True)
      (knnSearchKFiltered space query k filter x rows maxScanCandidates fuel) := by
  unfold IndexGraph.knnSearchKFiltered
  cases hep : x.entryPoint with
  | none => trivial
  | some ep =>
      simp only
      split
      · trivial
      · refine safe_bind (hx.descend hep fuel) fun current hcurrent => ?_
        have hread : Safe (fun _ => True) (orThrow (x.vectors current)) := by
          obtain ⟨vector, hvector⟩ := Option.isSome_iff_exists.1 hcurrent
          rw [hvector]
          trivial
        unfold searchLayerFiltered
        exact safe_bind hread fun vector _ =>
          safe_bind (safe_scanLoop _ fuel _) fun _ _ => trivial

end

/-- In every state of a run the entry point has a location, and is in memory when there are
upper layers; every id of an upper list is in memory, has a location, is not the owner of
the list and appears once in it.  No search and no insert reads a vector that is missing. -/
theorem Run.reaches_located {Row : Type} {s : Machine V} (hrun : Run cfg store space s) :
    (∀ e, s.index.entryPoint = some e → (s.index.vectors e).isSome = true ∧
      (1 ≤ s.index.maxLayer → (s.index.nodes e).isSome = true)) ∧
    (∀ id node layer list, s.index.nodes id = some node → node.neighbors layer = some list →
      list.Nodup ∧ ∀ w ∈ list, (s.index.nodes w).isSome = true ∧
        (s.index.vectors w).isSome = true ∧ w ≠ id) ∧
    (∀ query fuel tombstoned k efSearch,
      knnSearchK cfg space s.index query fuel tombstoned k efSearch ≠ .threw) ∧
    (∀ query k (filter : Dense.Filter Row) rows maxScanCandidates fuel,
      knnSearchKFiltered space query k filter s.index rows maxScanCandidates fuel ≠ .threw) ∧
    (∀ fuel nodeId vector highestLayer, s.index.vectors nodeId = none →
      IndexGraph.insertNode cfg store space fuel nodeId vector highestLayer s.index ≠ .threw) ∧
    ∀ fuel batch, IndexGraph.bulkBuild cfg store space fuel batch s.index ≠ .threw := by
  have hx := hrun.navigable.1
  refine ⟨hx.entry, ?_, ?_, ?_, ?_, ?_⟩
  · intro id node layer list hnode hlist
    have hat : s.index.neighborsAt layer id = list := neighborsAt_of_node hnode hlist
    refine ⟨hat ▸ hx.linked.nodup layer id, fun w hw => ?_⟩
    have hknown := hx.linked.known layer id w (hat ▸ hw)
    exact ⟨hknown, hx.located w hknown, hx.linked.other layer id w (hat ▸ hw)⟩
  · exact fun query fuel tombstoned k efSearch =>
      (hx.knnSearchK fuel tombstoned k efSearch).ne_threw
  · exact fun query k filter rows maxScanCandidates fuel =>
      (hx.knnSearchKFiltered maxScanCandidates fuel).ne_threw
  · exact fun fuel nodeId vector highestLayer hfresh =>
      (hx.insertNode hfresh fuel highestLayer).ne_threw
  · exact fun fuel batch => (hx.bulkBuild fuel batch).ne_threw

/-- The checkpoint of one node, opened over the graph of two. -/
def reopened : Machine Nat where
  index := oneOnLine.serializeMetadata.deserializeMetadata line twoOnLine.edges oneOnLine.vectors
  checkpoints := [oneOnLine.serializeMetadata, (Index.empty Nat).serializeMetadata]

theorem run_reopened : Run oneLink .adjacency line reopened := by
  have hone : Run oneLink .adjacency line
      ⟨oneOnLine, [(Index.empty Nat).serializeMetadata]⟩ :=
    .insertNode .create rfl oneOnLine_eq
  have htwo : Run oneLink .adjacency line
      ⟨twoOnLine, [oneOnLine.serializeMetadata, (Index.empty Nat).serializeMetadata]⟩ :=
    .insertNode hone.checkpoint rfl twoOnLine_eq
  exact .reopen htwo List.mem_cons_self fun _ => rfl

/-- Layer 0 leads to a node without a location, and no search reads it. -/
theorem reopened_reaches_located :
    reopened.index.edges 0 = [1] ∧ reopened.index.vectors 1 = none ∧
      ∀ query fuel tombstoned k efSearch,
        knnSearchK oneLink line reopened.index query fuel tombstoned k efSearch ≠ .threw :=
  ⟨by decide, by decide, (@Run.reaches_located Nat Nat _ _ _ _ Unit _ run_reopened).2.2.1⟩

end AsterVec.IndexGraph

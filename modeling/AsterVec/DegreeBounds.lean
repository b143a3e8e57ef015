import AsterVec.IndexBuilds

/-!
The degree bound.  No list of the index, on layer 0 or above it, ever has more than
`m_max` entries between two calls.
-/

namespace AsterVec.IndexGraph

open AsterVec.BulkBuild (capped capped_lt mem_chunks)
open AsterVec.Dense
open AsterVec.LayerSearch (Safe valueOr eq_hits_valueOr)

variable {V D : Type} [LinearOrder D] {cfg : Config} {store : GraphStore} {space : Space V D}
  {x y : Index V} {nodeId : Nat} {vector : V}

/-- The states reached from an empty index by inserts of fresh ids, after a bulk build or
none. -/
inductive Grown (cfg : Config) (store : GraphStore) (space : Space V D) : Index V → Prop where
  | empty : Grown cfg store space (Index.empty V)
  | bulkBuild {fuel : Nat} {batch : Batch V} {y : Index V}
      (hcall : bulkBuild cfg store space fuel batch (Index.empty V) = .hits y) :
      Grown cfg store space y
  | insertNode {x y : Index V} {fuel nodeId : Nat} {vector : V} {highestLayer : Nat}
      (hgrown : Grown cfg store space x) (hfresh : x.vectors nodeId = none)
      (hcall : insertNode cfg store space fuel nodeId vector highestLayer x = .hits y) :
      Grown cfg store space y

/-- Layer 0 between two calls: its edges are between nodes with a location. -/
structure Bounded (cfg : Config) (x : Index V) : Prop where
  nodup : ∀ v, (x.edges v).Nodup
  located : ∀ v, ∀ w ∈ x.edges v, (x.vectors v).isSome = true ∧ (x.vectors w).isSome = true
  length_le : ∀ v, (x.edges v).length ≤ cfg.mMax

theorem bounded_empty : Bounded cfg (Index.empty V) := by
  refine ⟨fun _ => List.nodup_nil, ?_, fun _ => Nat.zero_le _⟩
  intro v w hw
  cases hw

theorem length_le_of_subset {list others : List Nat} (hlist : list.Nodup) (hsub : list ⊆ others) :
    list.length ≤ others.length :=
  (List.subperm_of_subset hlist hsub).length_le

/-! ## Inserts -/

theorem mem_linkEdges {selected : List Nat} {edges : Graph} {v w : Nat} :
    w ∈ linkEdges store nodeId selected edges v ↔
      w ∈ edges v ∨ (v = nodeId ∧ w ∈ selected) ∨ (v ∈ selected ∧ w = nodeId) := by
  unfold linkEdges
  split
  · rename_i hnone
    simp [hnone]
  · rw [store.mem_add]
    refine or_congr_right ?_
    rw [List.mem_flatMap]
    constructor
    · rintro ⟨neighborId, hmem, hedge⟩
      rcases List.mem_cons.1 hedge with heq | hedge
      · obtain ⟨rfl, rfl⟩ := Prod.mk.inj heq
        exact .inl ⟨rfl, hmem⟩
      · obtain ⟨rfl, rfl⟩ := Prod.mk.inj (List.mem_singleton.1 hedge)
        exact .inr ⟨hmem, rfl⟩
    · rintro (⟨rfl, hmem⟩ | ⟨hmem, rfl⟩)
      · exact ⟨w, hmem, List.mem_cons_self⟩
      · exact ⟨v, hmem, List.mem_cons_of_mem _ (List.mem_singleton_self _)⟩

theorem nodup_linkEdges {selected : List Nat} {edges : Graph} (hedges : ∀ v, (edges v).Nodup) :
    ∀ v, (linkEdges store nodeId selected edges v).Nodup := by
  unfold linkEdges
  split
  · exact hedges
  · exact store.nodup_add _ _ hedges

theorem mem_deleteEdges {dropped : List Edge} {edges : Graph} {v w : Nat} :
    w ∈ deleteEdges store dropped edges v ↔ w ∈ edges v ∧ (v, w) ∉ dropped := by
  unfold deleteEdges
  split
  · rename_i hnone
    simp [hnone]
  · exact store.mem_delete _ _ _ _

theorem nodup_deleteEdges {dropped : List Edge} {edges : Graph} (hedges : ∀ v, (edges v).Nodup) :
    ∀ v, (deleteEdges store dropped edges v).Nodup := by
  unfold deleteEdges
  split
  · exact hedges
  · exact store.nodup_delete _ _ hedges

/-- A list that was trimmed is not too long when all its nodes have a location. -/
theorem Trims.length_le {vectors : Nat → Option V} {edges : Graph} {v : Nat}
    {dropped : List Edge} (htrims : Trims cfg vectors edges v dropped)
    (hedges : ∀ v, (edges v).Nodup) (hlocated : ∀ w ∈ edges v, (vectors w).isSome = true) :
    (deleteEdges store dropped edges v).length ≤ cfg.mMax := by
  have hall : (edges v).filter (fun n => (vectors n).isSome) = edges v :=
    List.filter_eq_self.2 hlocated
  unfold Trims at htrims
  rw [hall] at htrims
  have hafter : (deleteEdges store dropped edges v).Nodup := nodup_deleteEdges hedges v
  rcases Nat.lt_or_ge cfg.mMax (edges v).length with hmany | hfew
  · obtain ⟨kept, hkept, hrest⟩ := htrims hmany
    refine (length_le_of_subset hafter fun w hw => ?_).trans hkept
    obtain ⟨hmem, hnot⟩ := mem_deleteEdges.1 hw
    by_contra hout
    exact hnot (hrest w hmem hout)
  · exact (length_le_of_subset hafter fun w hw => (mem_deleteEdges.1 hw).1).trans hfew

/-- The insert of a fresh id keeps the bound: the new node has what was selected, each
selected node was trimmed, and no other list grew. -/
theorem Bounded.insertNode (hx : Bounded cfg x) (hmax : cfg.m ≤ cfg.mMax)
    (hfresh : x.vectors nodeId = none) (hinserted : Inserted cfg store x nodeId vector y) :
    Bounded cfg y := by
  obtain ⟨selected, dropped, hselected, htrims, hedges⟩ := hinserted.edges
  have hstill : ∀ w, (x.vectors w).isSome = true → (y.vectors w).isSome = true := by
    intro w hw
    rw [hinserted.vectors]
    exact isSome_update hw nodeId vector
  have hown : (y.vectors nodeId).isSome = true := by
    rw [hinserted.vectors, Function.update_self]
    rfl
  have hunlocated : ∀ w, (x.vectors w).isSome = true → w ≠ nodeId := by
    rintro w hw rfl
    rw [hfresh] at hw
    cases hw
  have hlinked : ∀ v, (linkEdges store nodeId selected x.edges v).Nodup :=
    nodup_linkEdges hx.nodup
  have hlocated : ∀ v, ∀ w ∈ linkEdges store nodeId selected x.edges v,
      (y.vectors v).isSome = true ∧ (y.vectors w).isSome = true := by
    intro v w hw
    rcases mem_linkEdges.1 hw with hold | ⟨rfl, hmem⟩ | ⟨hmem, rfl⟩
    · exact ⟨hstill v (hx.located v w hold).1, hstill w (hx.located v w hold).2⟩
    · exact ⟨hown, hstill w (hselected.mem w hmem)⟩
    · exact ⟨hstill v (hselected.mem v hmem), hown⟩
  refine ⟨fun v => ?_, fun v w hw => ?_, fun v => ?_⟩
  · rw [hedges]
    exact nodup_deleteEdges hlinked v
  · rw [hedges] at hw
    exact hlocated v w (mem_deleteEdges.1 hw).1
  · rw [hedges]
    have hafter : (deleteEdges store dropped (linkEdges store nodeId selected x.edges) v).Nodup :=
      nodup_deleteEdges hlinked v
    by_cases hv : v ∈ selected
    · exact (htrims v hv).length_le hlinked fun w hw => (hlocated v w hw).2
    by_cases hnew : v = nodeId
    · subst hnew
      refine (length_le_of_subset hafter fun w hw => ?_).trans (hselected.length_le.trans hmax)
      rcases mem_linkEdges.1 (mem_deleteEdges.1 hw).1 with hold | ⟨-, hmem⟩ | ⟨hmem, -⟩
      · exact (hunlocated v (hx.located v w hold).1 rfl).elim
      · exact hmem
      · exact (hv hmem).elim
    · refine (length_le_of_subset hafter fun w hw => ?_).trans (hx.length_le v)
      rcases mem_linkEdges.1 (mem_deleteEdges.1 hw).1 with hold | ⟨heq, -⟩ | ⟨hmem, -⟩
      · exact hold
      · exact (hnew heq).elim
      · exact (hv hmem).elim

/-! ## Bulk builds -/

theorem mem_addChunks {chunks : List (List Edge)} {edges : Graph} {v w : Nat}
    (hw : w ∈ chunks.foldl (fun graph chunk => store.addEdgeBatch chunk graph) edges v) :
    w ∈ edges v ∨ ∃ chunk ∈ chunks, (v, w) ∈ chunk := by
  induction chunks generalizing edges with
  | nil => exact .inl hw
  | cons chunk chunks ih =>
      rcases ih hw with hmem | ⟨other, hother, hmem⟩
      · rcases (store.mem_add _ _ _ _).1 hmem with hold | hmem
        · exact .inl hold
        · exact .inr ⟨chunk, List.mem_cons_self, hmem⟩
      · exact .inr ⟨other, List.mem_cons_of_mem _ hother, hmem⟩

theorem nodup_addChunks (chunks : List (List Edge)) {edges : Graph}
    (hedges : ∀ v, (edges v).Nodup) :
    ∀ v, (chunks.foldl (fun graph chunk => store.addEdgeBatch chunk graph) edges v).Nodup := by
  induction chunks generalizing edges with
  | nil => exact hedges
  | cons chunk chunks ih => exact ih (store.nodup_add chunk edges hedges)

theorem length_capped_le (mMax : Nat) (sorted : Nat → List Nat → List Nat) (adj : Graph)
    (v : Nat) : (capped mMax sorted adj v).length ≤ mMax := by
  unfold capped
  split
  · rename_i hfew
    exact hfew
  · exact List.length_take_le _ _

/-- The layer 0 of a build has the capped lists, however many nodes name a hub. -/
theorem bounded_bulkLoadLayer0 (batch : Batch V)
    (hvectors : ∀ u, u < batch.n → (y.vectors u).isSome = true)
    (hedges : y.edges = (bulkLoadLayer0 cfg store batch (Index.empty V)).edges) :
    Bounded cfg y := by
  have hmem : ∀ v, ∀ w ∈ y.edges v, v < batch.n ∧ w ∈ batch.adjacency cfg v := by
    intro v w hw
    rw [hedges] at hw
    rcases mem_addChunks hw with hold | ⟨chunk, hchunk, hmem⟩
    · cases hold
    · obtain ⟨u, hu, hmem⟩ := List.mem_flatMap.1 (mem_chunks hchunk hmem)
      obtain ⟨target, htarget, heq⟩ := List.mem_map.1 hmem
      obtain ⟨rfl, rfl⟩ := Prod.mk.inj heq
      exact ⟨List.mem_range.1 hu, htarget⟩
  have hnodup : ∀ v, (y.edges v).Nodup := by
    rw [hedges]
    exact nodup_addChunks _ fun _ => List.nodup_nil
  refine ⟨hnodup, fun v w hw => ?_, fun v => ?_⟩
  · obtain ⟨hv, hw⟩ := hmem v w hw
    exact ⟨hvectors v hv, hvectors w (capped_lt batch.knn_lt batch.sorted_perm v w hw)⟩
  · exact (length_le_of_subset (hnodup v) fun w hw => (hmem v w hw).2).trans
      (length_capped_le _ _ _ _)

/-- In every state that is reached layer 0 is bounded, and the index can be walked. -/
theorem Grown.bounded (hmax : cfg.m ≤ cfg.mMax) (hgrown : Grown cfg store space x) :
    Navigable cfg x ∧ Bounded cfg x := by
  induction hgrown with
  | empty => exact ⟨navigable_empty, bounded_empty⟩
  | @bulkBuild fuel batch y hcall =>
      obtain ⟨hnavigable, hbuilt⟩ := (navigable_empty.bulkBuild fuel batch).of_hits hcall
      refine ⟨hnavigable, ?_⟩
      by_cases hn : batch.n = 0
      · have hsame : y = Index.empty V := by
          unfold IndexGraph.bulkBuild at hcall
          rw [if_pos hn] at hcall
          exact (SearchEnd.hits.inj hcall).symm
        rw [hsame]
        exact bounded_empty
      · obtain ⟨hvectors, hedges⟩ := hbuilt hn
        refine bounded_bulkLoadLayer0 batch (fun u hu => ?_) hedges
        rw [hvectors, if_pos hu]
        rfl
  | insertNode _ hfresh hcall ih =>
      obtain ⟨hnavigable, hinserted⟩ := (ih.1.insertNode hfresh _ _).of_hits hcall
      exact ⟨hnavigable, ih.2.insertNode hmax hfresh hinserted⟩

/-- With `m` at most `m_max`, no node that inserts and a bulk build made has more than
`m_max` edges on layer 0, or more than `m_max` neighbors on a layer above it. -/
theorem Grown.degree_le (hmax : cfg.m ≤ cfg.mMax) (hgrown : Grown cfg store space x) (id : Nat) :
    (x.edges id).length ≤ cfg.mMax ∧
      ∀ node layer list, x.nodes id = some node → node.neighbors layer = some list →
        list.length ≤ cfg.mMax := by
  obtain ⟨hnavigable, hbounded⟩ := hgrown.bounded hmax
  refine ⟨hbounded.length_le id, fun node layer list hnode hlist => ?_⟩
  have hle := hnavigable.linked.length_le layer id
  rw [neighborsAt_of_node hnode hlist, max_eq_right hmax] at hle
  exact hle

/-- Points on a line, with room for one link. -/
def oneLink : Config := ⟨1, 1, 4, true, true⟩

def line : Space Nat Nat := { onLine with quantized := id, zeros := 0 }

def insertOnLine (nodeId point : Nat) (x : Index Nat) : SearchEnd (Index Nat) :=
  insertNode oneLink .adjacency line 9 nodeId point 1 x

def oneOnLine : Index Nat := valueOr (Index.empty Nat) (insertOnLine 0 5 (Index.empty Nat))

def twoOnLine : Index Nat := valueOr oneOnLine (insertOnLine 1 7 oneOnLine)

def threeOnLine : Index Nat := valueOr twoOnLine (insertOnLine 2 6 twoOnLine)

theorem oneOnLine_eq : insertOnLine 0 5 (Index.empty Nat) = .hits oneOnLine :=
  eq_hits_valueOr (by decide) _

theorem twoOnLine_eq : insertOnLine 1 7 oneOnLine = .hits twoOnLine :=
  eq_hits_valueOr (by decide) _

theorem threeOnLine_eq : insertOnLine 2 6 twoOnLine = .hits threeOnLine :=
  eq_hits_valueOr (by decide) _

theorem grown_threeOnLine : Grown oneLink .adjacency line threeOnLine :=
  .insertNode (.insertNode (.insertNode .empty rfl oneOnLine_eq) rfl twoOnLine_eq) rfl
    threeOnLine_eq

/-- The third node took the place of the second one. -/
theorem threeOnLine_degree : threeOnLine.edges 0 = [2] ∧ (threeOnLine.edges 0).length ≤ 1 ∧
    ∀ node layer list, threeOnLine.nodes 0 = some node → node.neighbors layer = some list →
      list.length ≤ 1 :=
  ⟨by decide, Grown.degree_le (by decide) grown_threeOnLine 0⟩

end AsterVec.IndexGraph

import AsterVec.IndexLinks

/-!
Inserts and bulk builds.  Between them every node above layer 0 has a location, and so has
the entry point; none of them reads a vector that is not there.
-/

namespace AsterVec.IndexGraph

open AsterVec.BulkBuild (entryNode entryNode_lt)
open AsterVec.Dense
open AsterVec.LayerSearch (Safe Distinct)

variable {V D : Type} [LinearOrder D] {cfg : Config} {store : GraphStore} {space : Space V D}
  {x : Index V} {vector : V} {known : Nat → Prop}

/-- What holds of the index between its operations. -/
structure Navigable (cfg : Config) (x : Index V) : Prop where
  linked : Linked cfg x fun w => (x.nodes w).isSome = true
  located : ∀ w, (x.nodes w).isSome = true → (x.vectors w).isSome = true
  entry : ∀ e, x.entryPoint = some e → (x.vectors e).isSome = true ∧
    (1 ≤ x.maxLayer → (x.nodes e).isSome = true)
  unset : x.entryPoint = none → ∀ w, x.nodes w = none

theorem navigable_empty : Navigable cfg (Index.empty V) := by
  refine ⟨⟨fun _ hw => hw, fun _ _ => List.nodup_nil, ?_, ?_, fun _ _ => Nat.zero_le _⟩, ?_, ?_,
    fun _ _ => rfl⟩
  · intro layer v w hw
    cases hw
  · intro layer v w hw
    cases hw
  · intro w hw
    cases hw
  · intro e he
    cases he

/-! ## Layer 0 -/

/-- The dropped edges leave a list of `v` no longer than allowed. -/
def Trims (cfg : Config) (vectors : Nat → Option V) (edges : Graph) (v : Nat)
    (dropped : List Edge) : Prop :=
  cfg.mMax < ((edges v).filter fun n => (vectors n).isSome).length →
    ∃ kept : List Nat, kept.length ≤ cfg.mMax ∧
      ∀ w ∈ (edges v).filter (fun n => (vectors n).isSome), w ∉ kept → (v, w) ∈ dropped

theorem Trims.mono {vectors : Nat → Option V} {edges : Graph} {v : Nat}
    {dropped dropped' : List Edge} (htrims : Trims cfg vectors edges v dropped)
    (hsub : dropped ⊆ dropped') : Trims cfg vectors edges v dropped' := by
  intro hmany
  obtain ⟨kept, hkept, hrest⟩ := htrims hmany
  exact ⟨kept, hkept, fun w hw hnot => hsub (hrest w hw hnot)⟩

theorem safe_surplus {neighbor : Nat} (hneighbor : (x.vectors neighbor).isSome = true) :
    Safe (Trims cfg x.vectors x.edges neighbor) (surplus cfg space x neighbor) := by
  obtain ⟨point, hpoint⟩ := Option.isSome_iff_exists.1 hneighbor
  unfold surplus
  simp only
  split
  · rw [hpoint]
    change Safe _ (selectNeighbors cfg space x point (x.getEdgesCached neighbor) cfg.mMax 0 >>= _)
    have hpoints : ∀ id ∈ x.getEdgesCached neighbor, (x.pointAt 0 id).isSome = true :=
      fun id hid => (List.mem_filter.1 hid).2
    refine safe_bind (safe_selectNeighbors hpoints) fun eNewConn hchosen => ?_
    refine fun _ => ⟨eNewConn, hchosen.2, fun w hw hnot => ?_⟩
    exact List.mem_map.2 ⟨w, List.mem_filter.2 ⟨hw, by simpa using hnot⟩, rfl⟩
  · rename_i hfew
    exact fun hmany => (hfew hmany).elim

theorem safe_edgesToDelete {selected : List Nat}
    (hselected : ∀ v ∈ selected, (x.vectors v).isSome = true) :
    Safe (fun dropped => ∀ v ∈ selected, Trims cfg x.vectors x.edges v dropped)
      (edgesToDelete cfg space x selected) := by
  induction selected with
  | nil => exact fun v hv => by cases hv
  | cons neighbor rest ih =>
      refine safe_bind (safe_surplus (hselected neighbor List.mem_cons_self))
        fun dropped hdropped => ?_
      refine safe_bind (ih fun v hv => hselected v (List.mem_cons_of_mem _ hv))
        fun more hmore => ?_
      intro v hv
      rcases List.mem_cons.1 hv with rfl | hv
      · exact hdropped.mono (List.subset_append_left _ _)
      · exact (hmore v hv).mono (List.subset_append_right _ _)

/-- What an insert does to the vectors and to layer 0. -/
structure Inserted (cfg : Config) (store : GraphStore) (x : Index V) (nodeId : Nat) (vector : V)
    (y : Index V) : Prop where
  vectors : y.vectors = Function.update x.vectors nodeId (some vector)
  edges : ∃ selected dropped,
    Selected cfg.m (fun w => (x.vectors w).isSome = true) selected ∧
    (∀ v ∈ selected, Trims cfg y.vectors (linkEdges store nodeId selected x.edges) v dropped) ∧
    y.edges = deleteEdges store dropped (linkEdges store nodeId selected x.edges)

/-! ## Inserts -/

/-- The index once the new node may be found in memory. -/
structure Published (x : Index V) (nodeId highestLayer : Nat) (y : Index V) : Prop where
  nodes : ∀ w, (y.nodes w).isSome = true ↔
    (x.nodes w).isSome = true ∨ w = nodeId ∧ 0 < highestLayer
  entryPoint : y.entryPoint = x.entryPoint
  maxLayer : y.maxLayer = x.maxLayer
  edges : y.edges = x.edges
  vectors : y.vectors = x.vectors

theorem published (x : Index V) (nodeId highestLayer : Nat) (point : V) :
    Published x nodeId highestLayer
      (if 0 < highestLayer then publish nodeId point x else x) := by
  split
  · rename_i hupper
    refine ⟨fun w => ?_, rfl, rfl, rfl, rfl⟩
    unfold publish
    by_cases hw : w = nodeId
    · subst hw
      simp [hupper]
    · simp [hw]
  · rename_i hzero
    exact ⟨fun w => by simp [hzero], rfl, rfl, rfl, rfl⟩

theorem Linked.early (hlinked : Linked cfg x known) {nodeId : Nat} (hnew : x.nodes nodeId = none)
    (highestLayer : Nat) (point : V) :
    Linked cfg (if 0 < highestLayer then IndexGraph.publish nodeId point x else x) known := by
  split
  · exact hlinked.publish hnew point
  · exact hlinked

theorem isSome_update {vectors : Nat → Option V} {w : Nat} (hw : (vectors w).isSome = true)
    (nodeId : Nat) (vector : V) :
    (Function.update vectors nodeId (some vector) w).isSome = true := by
  rw [Function.update_apply]
  split
  · rfl
  · exact hw

/-- The links above layer 0, for a node that is in memory if it has such layers. -/
theorem Linked.linkNode {y : Index V} {nodeId highestLayer top : Nat}
    (hlinked : Linked cfg y fun w => (x.nodes w).isSome = true) (hnew : x.nodes nodeId = none)
    (hnodes : ∀ w, (y.nodes w).isSome = true ↔
      (x.nodes w).isSome = true ∨ w = nodeId ∧ 0 < highestLayer)
    (htop : top ≤ highestLayer) {selectedPerLayer : Nat → List Nat}
    (hselected : ∀ layer, Selected cfg.m (fun w => (x.nodes w).isSome = true)
      (selectedPerLayer layer)) :
    Safe (fun z => Linked cfg z (fun w => (z.nodes w).isSome = true) ∧ Relinked y z)
      (IndexGraph.linkUpper cfg space nodeId selectedPerLayer top y) := by
  have hall : Linked cfg y fun w => (y.nodes w).isSome = true :=
    hlinked.mono (fun w hw => (hnodes w).2 (.inl hw)) fun _ hw => hw
  have hne : ∀ w, (x.nodes w).isSome = true → w ≠ nodeId := by
    rintro w hw rfl
    rw [hnew] at hw
    cases hw
  cases top with
  | zero => exact ⟨hall, Relinked.refl y⟩
  | succ top =>
      have hnode : (y.nodes nodeId).isSome = true := (hnodes nodeId).2 (.inr ⟨rfl, by omega⟩)
      have hothers : ∀ layer, Selected cfg.m (fun w => (y.nodes w).isSome = true ∧ w ≠ nodeId)
          (selectedPerLayer layer) := fun layer =>
        ⟨(hselected layer).nodup, fun w hw => ⟨(hnodes w).2 (.inl ((hselected layer).mem w hw)),
          hne w ((hselected layer).mem w hw)⟩, (hselected layer).length_le⟩
      refine (Linked.linkUpper hnode hothers (top + 1) hall fun l v _ hmem => ?_).mono ?_
      · exact hne nodeId (hlinked.known l v nodeId hmem) rfl
      · rintro z ⟨hz, hyz⟩
        have hsame := hyz.nodes
        exact ⟨hz.mono (fun w hw => by rw [hsame]; exact hw)
          fun w hw => by rw [hsame] at *; exact hw, hyz⟩

theorem Navigable.fresh (hx : Navigable cfg x) {nodeId : Nat}
    (hfresh : x.vectors nodeId = none) : x.nodes nodeId = none := by
  cases hnode : x.nodes nodeId with
  | none => rfl
  | some node =>
      have hlocated := hx.located nodeId (by rw [hnode]; rfl)
      rw [hfresh] at hlocated
      cases hlocated

/-- The first node becomes the entry point. -/
theorem Navigable.insertFirst (hx : Navigable cfg x) {early : Index V}
    {nodeId highestLayer : Nat} (hpublished : Published x nodeId highestLayer early)
    (hlinked : Linked cfg early fun w => (x.nodes w).isSome = true)
    (hunset : x.entryPoint = none) (vector : V) :
    Navigable cfg { storeVector nodeId vector (linkNeighborsAsterDB store nodeId [] early) with
        entryPoint := some nodeId, maxLayer := highestLayer } ∧
      Inserted cfg store x nodeId vector
        { storeVector nodeId vector (linkNeighborsAsterDB store nodeId [] early) with
          entryPoint := some nodeId, maxLayer := highestLayer } := by
  have hlocated : (Function.update early.vectors nodeId (some vector) nodeId).isSome = true := by
    rw [Function.update_self]
    rfl
  have hnodes : ∀ w, (early.nodes w).isSome = true → w = nodeId ∧ 0 < highestLayer := by
    intro w hw
    rcases (hpublished.nodes w).1 hw with hold | hown
    · rw [hx.unset hunset w] at hold
      cases hold
    · exact hown
  refine ⟨⟨?_, fun w hw => ?_, ?_, fun hunset => by cases hunset⟩, ?_, ?_⟩
  · have hall : Linked cfg early fun w => (early.nodes w).isSome = true :=
      hlinked.mono (fun w hw => (hpublished.nodes w).2 (.inl hw)) fun _ hw => hw
    exact hall.congr rfl
  · rw [(hnodes w hw).1]
    exact hlocated
  · rintro e he
    obtain rfl := Option.some.inj he
    refine ⟨hlocated, fun hlayer => (hpublished.nodes nodeId).2 (.inr ⟨rfl, ?_⟩)⟩
    change (1 : Int) ≤ highestLayer at hlayer
    omega
  · change Function.update early.vectors nodeId (some vector) = _
    rw [hpublished.vectors]
  · refine ⟨[], [], ⟨List.nodup_nil, by simp, Nat.zero_le _⟩, by simp, ?_⟩
    exact hpublished.edges

theorem safe_shrink {selectedLevel0 : List Nat}
    (hselected : ∀ v ∈ selectedLevel0, (x.vectors v).isSome = true) :
    Safe (fun y => ∃ dropped,
        (∀ v ∈ selectedLevel0, Trims cfg x.vectors x.edges v dropped) ∧
          y = { x with edges := deleteEdges store dropped x.edges })
      (shrink cfg store space selectedLevel0 x) :=
  safe_bind (safe_edgesToDelete hselected) fun dropped hdropped => ⟨dropped, hdropped, rfl⟩

theorem promote_layer0 (nodeId highestLayer : Nat) (x : Index V) :
    (promote nodeId highestLayer x).vectors = x.vectors ∧
      (promote nodeId highestLayer x).edges = x.edges := by
  unfold promote
  split <;> exact ⟨rfl, rfl⟩

/-- Once its links are there, the new node may become the entry point. -/
theorem Navigable.promote (hx : Navigable cfg x) {linked : Index V} {nodeId highestLayer e : Nat}
    (hlinked : Linked cfg linked fun w => (linked.nodes w).isSome = true)
    (hnodes : ∀ w, (linked.nodes w).isSome = true ↔
      (x.nodes w).isSome = true ∨ w = nodeId ∧ 0 < highestLayer)
    (hvectors : linked.vectors = Function.update x.vectors nodeId (some vector))
    (hentry : x.entryPoint = some e) (hpoint : linked.entryPoint = some e)
    (hlayer : linked.maxLayer = x.maxLayer) :
    Navigable cfg (IndexGraph.promote nodeId highestLayer linked) := by
  have hstill : ∀ w, (x.vectors w).isSome = true → (linked.vectors w).isSome = true := by
    intro w hw
    rw [hvectors]
    exact isSome_update hw nodeId vector
  have hown : (linked.vectors nodeId).isSome = true := by
    rw [hvectors, Function.update_self]
    rfl
  have hlocated : ∀ w, (linked.nodes w).isSome = true → (linked.vectors w).isSome = true := by
    intro w hw
    rcases (hnodes w).1 hw with hold | ⟨rfl, -⟩
    · exact hstill w (hx.located w hold)
    · exact hown
  obtain ⟨hentryVector, hentryNode⟩ := hx.entry e hentry
  unfold IndexGraph.promote
  split
  · refine ⟨hlinked.congr rfl, hlocated, ?_, fun hunset => by cases hunset⟩
    rintro e' he'
    obtain rfl := Option.some.inj he'
    refine ⟨hown, fun hone => (hnodes nodeId).2 (.inr ⟨rfl, ?_⟩)⟩
    change (1 : Int) ≤ highestLayer at hone
    omega
  · refine ⟨hlinked, hlocated, ?_, fun hunset => ?_⟩
    · intro e' he'
      obtain rfl := Option.some.inj (hpoint.symm.trans he')
      refine ⟨hstill e hentryVector, fun hone => (hnodes e).2 (.inl (hentryNode ?_))⟩
      rwa [hlayer] at hone
    · rw [hpoint] at hunset
      cases hunset

/-- Before a new node is linked, neighbors are selected on each of its layers. -/
theorem Navigable.safe_selects (hx : Navigable cfg x) {early : Index V}
    {nodeId highestLayer e : Nat} (hpublished : Published x nodeId highestLayer early)
    (hlinked : Linked cfg early fun w => (x.nodes w).isSome = true)
    (hentry : x.entryPoint = some e) (fuel : Nat) {α : Type} {P : α → Prop}
    (follow : (Nat → List Nat) → List Nat → SearchEnd α)
    (hfollow : ∀ selectedPerLayer selectedLevel0,
      (∀ layer, Selected cfg.m (fun w => (x.nodes w).isSome = true) (selectedPerLayer layer)) →
      Selected cfg.m (fun w => (x.vectors w).isSome = true) selectedLevel0 →
      Safe P (follow selectedPerLayer selectedLevel0)) :
    Safe P (do
      let current ← descend space vector early fuel highestLayer early.maxLayer.toNat e
      let (current, selectedPerLayer) ← selectUpper cfg space early vector fuel
        (min early.maxLayer.toNat highestLayer) current
      let (_, selectedLevel0) ← selectAt cfg space early vector fuel 0 current
      follow selectedPerLayer selectedLevel0) := by
  have hentry' := hx.entry e hentry
  have hlocated : ∀ c, c = e ∨ (x.nodes c).isSome = true →
      (early.vectors c).isSome = true := by
    intro c hc
    rw [hpublished.vectors]
    rcases hc with rfl | hknown
    · exact hentry'.1
    · exact hx.located c hknown
  refine safe_bind (safe_descend hlinked.known fuel highestLayer early.maxLayer.toNat e)
    fun current hcurrent => ?_
  have hstart : 0 < min early.maxLayer.toNat highestLayer →
      (x.nodes current).isSome = true := by
    intro hupper
    rcases hcurrent with rfl | hknown
    · exact hentry'.2 (by rw [← hpublished.maxLayer]; omega)
    · exact hknown
  refine safe_bind (hlinked.selectUpper fuel _ hstart) fun upper hupper => ?_
  obtain ⟨lower, selectedPerLayer⟩ := upper
  have hlower : (early.vectors lower).isSome = true := by
    rcases hupper.1 with rfl | hknown
    · exact hlocated _ hcurrent
    · exact hlocated _ (.inr hknown)
  refine safe_bind (safe_selectAt_zero hlower fuel) fun found hselected => ?_
  obtain ⟨nearest, selectedLevel0⟩ := found
  refine hfollow selectedPerLayer selectedLevel0 hupper.2 ?_
  rw [← hpublished.vectors]
  exact hselected

/-- The links of a new node whose vector is stored, and its promotion. -/
theorem Navigable.safe_links (hx : Navigable cfg x) {early : Index V}
    {nodeId highestLayer e : Nat} (hnew : x.nodes nodeId = none)
    (hpublished : Published x nodeId highestLayer early)
    (hlinked : Linked cfg early fun w => (x.nodes w).isSome = true)
    (hentry : x.entryPoint = some e) {selectedPerLayer : Nat → List Nat}
    {selectedLevel0 : List Nat}
    (hupper : ∀ layer, Selected cfg.m (fun w => (x.nodes w).isSome = true)
      (selectedPerLayer layer))
    (hlevel0 : Selected cfg.m (fun w => (x.vectors w).isSome = true) selectedLevel0) :
    Safe (fun y => Navigable cfg y ∧ Inserted cfg store x nodeId vector y) (do
      let linked ← linkUpper cfg space nodeId selectedPerLayer
        (min early.maxLayer.toNat highestLayer)
        (linkNeighborsAsterDB store nodeId selectedLevel0 (storeVector nodeId vector early))
      let shrunk ← shrink cfg store space selectedLevel0 linked
      .hits (IndexGraph.promote nodeId highestLayer shrunk)) := by
  have hmoved : Linked cfg (linkNeighborsAsterDB store nodeId selectedLevel0
      (storeVector nodeId vector early)) fun w => (x.nodes w).isSome = true :=
    hlinked.congr rfl
  refine safe_bind (hmoved.linkNode hnew hpublished.nodes (Nat.min_le_right _ _) hupper)
    fun linked hafter => ?_
  obtain ⟨hafter, hsame⟩ := hafter
  have hvectors : linked.vectors = Function.update x.vectors nodeId (some vector) := by
    rw [hsame.vectors, ← hpublished.vectors]
    rfl
  have hedges : linked.edges = linkEdges store nodeId selectedLevel0 x.edges := by
    rw [hsame.edges, ← hpublished.edges]
    rfl
  refine safe_bind (safe_shrink fun v hv => ?_) ?_
  · rw [hvectors]
    exact isSome_update (hlevel0.mem v hv) nodeId vector
  rintro shrunk ⟨dropped, hdropped, hshrunk⟩
  have hnavigable : Navigable cfg (IndexGraph.promote nodeId highestLayer shrunk) := by
    subst hshrunk
    refine hx.promote (hafter.congr rfl) (fun w => ?_) hvectors hentry
      (hsame.entryPoint.trans (hpublished.entryPoint.trans hentry))
      (hsame.maxLayer.trans hpublished.maxLayer)
    change (linked.nodes w).isSome = true ↔ _
    rw [hsame.nodes w]
    exact hpublished.nodes w
  obtain ⟨hkeptVectors, hkeptEdges⟩ := promote_layer0 nodeId highestLayer shrunk
  have hkept : (IndexGraph.promote nodeId highestLayer shrunk).vectors = linked.vectors := by
    rw [hkeptVectors, hshrunk]
  refine ⟨hnavigable, hkept.trans hvectors, selectedLevel0, dropped, hlevel0, ?_, ?_⟩
  · rw [hkept, ← hedges]
    exact hdropped
  · rw [hkeptEdges, hshrunk, ← hedges]

theorem Navigable.insertNode (hx : Navigable cfg x) {nodeId : Nat}
    (hfresh : x.vectors nodeId = none) (fuel highestLayer : Nat) :
    Safe (fun y => Navigable cfg y ∧ Inserted cfg store x nodeId vector y)
      (insertNode cfg store space fuel nodeId vector highestLayer x) := by
  have hnew := hx.fresh hfresh
  have hpublished := published x nodeId highestLayer (space.quantized vector)
  have hlinked := hx.linked.early hnew highestLayer (space.quantized vector)
  unfold IndexGraph.insertNode
  generalize (if 0 < highestLayer then publish nodeId (space.quantized vector) x else x) = early
    at hpublished hlinked ⊢
  simp only
  cases hentry : early.entryPoint with
  | none => exact hx.insertFirst hpublished hlinked (hpublished.entryPoint ▸ hentry) vector
  | some e =>
      have hpoint : x.entryPoint = some e := hpublished.entryPoint ▸ hentry
      exact hx.safe_selects hpublished hlinked hpoint fuel _ fun _ _ hupper hlevel0 =>
        hx.safe_links hnew hpublished hlinked hpoint hupper hlevel0

end AsterVec.IndexGraph

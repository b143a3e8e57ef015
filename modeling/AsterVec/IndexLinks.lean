import AsterVec.IndexSelection

/-!
The links of the index.  Its upper lists name known nodes, each once and never their
owner, and keep to a bound.  An insert adds the new node to what is known.
-/

namespace AsterVec.IndexGraph

open AsterVec.Dense
open AsterVec.LayerSearch (Safe Distinct)

variable {V D : Type} [LinearOrder D] {cfg : Config} {store : GraphStore} {space : Space V D}
  {x : Index V} {vector : V} {known : Nat → Prop}

/-! ## Lists -/

theorem isSome_setNeighbors (x : Index V) (id layer : Nat) (list : List Nat) (w : Nat) :
    ((x.setNeighbors id layer list).nodes w).isSome = (x.nodes w).isSome := by
  unfold Index.setNeighbors
  by_cases hw : w = id
  · subst hw
    simp
  · simp [Function.update_of_ne hw]

theorem neighborsAt_setNeighbors {id : Nat} (hid : (x.nodes id).isSome = true)
    (layer : Nat) (list : List Nat) (l w : Nat) :
    (x.setNeighbors id layer list).neighborsAt l w =
      if w = id ∧ l = layer then list else x.neighborsAt l w := by
  obtain ⟨node, hnode⟩ := Option.isSome_iff_exists.1 hid
  unfold Index.setNeighbors Index.neighborsAt
  by_cases hw : w = id
  · subst hw
    by_cases hl : l = layer
    · subst hl
      simp [hnode]
    · simp [hnode, hl]
  · simp [hw]

theorem neighborsAt_of_node {id layer : Nat} {node : Node V} {list : List Nat}
    (hnode : x.nodes id = some node) (hlist : node.neighbors layer = some list) :
    x.neighborsAt layer id = list := by
  unfold Index.neighborsAt
  rw [hnode]
  change (node.neighbors layer).getD [] = list
  rw [hlist]
  rfl

/-- The lists above layer 0 name known nodes, each once and never their owner. -/
structure Linked (cfg : Config) (x : Index V) (known : Nat → Prop) : Prop where
  nodes : ∀ w, known w → (x.nodes w).isSome = true
  nodup : ∀ layer v, (x.neighborsAt layer v).Nodup
  other : ∀ layer v, ∀ w ∈ x.neighborsAt layer v, w ≠ v
  known : ∀ layer v, ∀ w ∈ x.neighborsAt layer v, known w
  length_le : ∀ layer v, (x.neighborsAt layer v).length ≤ max cfg.m cfg.mMax

theorem Linked.mono (hlinked : Linked cfg x known) {known' : Nat → Prop}
    (hknown : ∀ w, known w → known' w) (hnodes : ∀ w, known' w → (x.nodes w).isSome = true) :
    Linked cfg x known' :=
  ⟨hnodes, hlinked.nodup, hlinked.other, fun layer v w hw => hknown w (hlinked.known layer v w hw),
    hlinked.length_le⟩

theorem Linked.congr (hlinked : Linked cfg x known) {y : Index V} (hnodes : y.nodes = x.nodes) :
    Linked cfg y known := by
  have hlists : y.neighborsAt = x.neighborsAt := by
    unfold Index.neighborsAt
    rw [hnodes]
  refine ⟨?_, ?_, ?_, ?_, ?_⟩
  · rw [hnodes]
    exact hlinked.nodes
  · rw [hlists]
    exact hlinked.nodup
  · rw [hlists]
    exact hlinked.other
  · rw [hlists]
    exact hlinked.known
  · rw [hlists]
    exact hlinked.length_le

theorem Linked.setNeighbors (hlinked : Linked cfg x known) {id layer : Nat} {list : List Nat}
    (hid : (x.nodes id).isSome = true) (hnodup : list.Nodup)
    (hlist : ∀ w ∈ list, w ≠ id ∧ known w) (hlen : list.length ≤ max cfg.m cfg.mMax) :
    Linked cfg (x.setNeighbors id layer list) known := by
  have hat := neighborsAt_setNeighbors hid layer list
  refine ⟨fun w hw => ?_, fun l v => ?_, fun l v w hw => ?_, fun l v w hw => ?_, fun l v => ?_⟩
  · rw [isSome_setNeighbors]
    exact hlinked.nodes w hw
  · rw [hat]
    split
    · exact hnodup
    · exact hlinked.nodup l v
  · rw [hat] at hw
    split at hw
    · rename_i hat
      rw [hat.1]
      exact (hlist w hw).1
    · exact hlinked.other l v w hw
  · rw [hat] at hw
    split at hw
    · exact (hlist w hw).2
    · exact hlinked.known l v w hw
  · rw [hat]
    split
    · exact hlen
    · exact hlinked.length_le l v

/-- A node that no list names can be published anew, and is not known by that. -/
theorem Linked.publish (hlinked : Linked cfg x known) {nodeId : Nat} (hnew : x.nodes nodeId = none)
    (point : V) : Linked cfg (publish nodeId point x) known := by
  have hlists : (IndexGraph.publish nodeId point x).neighborsAt = x.neighborsAt := by
    funext l v
    unfold IndexGraph.publish Index.neighborsAt
    by_cases hv : v = nodeId
    · subst hv
      simp [hnew]
    · simp [hv]
  refine ⟨fun w hw => ?_, ?_, ?_, ?_, ?_⟩
  · have hne : w ≠ nodeId := by
      rintro rfl
      have hsome := hlinked.nodes w hw
      rw [hnew] at hsome
      cases hsome
    unfold IndexGraph.publish
    simpa [hne] using hlinked.nodes w hw
  · rw [hlists]
    exact hlinked.nodup
  · rw [hlists]
    exact hlinked.other
  · rw [hlists]
    exact hlinked.known
  · rw [hlists]
    exact hlinked.length_le

/-! ## What an insert selects -/

/-- Nodes that satisfy `P`, each once, and no more than `m`. -/
structure Selected (m : Nat) (P : Nat → Prop) (selected : List Nat) : Prop where
  nodup : selected.Nodup
  mem : ∀ w ∈ selected, P w
  length_le : selected.length ≤ m

omit [LinearOrder D] in
theorem Selected.of_chosen {P : Nat → Prop} {results : List (D × Nat)} {m : Nat}
    {selected : List Nat} (hresults : Distinct P results)
    (hchosen : Chosen (results.map Prod.snd) m selected) : Selected m P selected := by
  refine ⟨hchosen.nodup hresults.1, fun w hw => ?_, hchosen.2⟩
  obtain ⟨result, hresult, rfl⟩ := List.mem_map.1 (hchosen.1.subset hw)
  exact hresults.2 result hresult

omit [LinearOrder D] in
theorem head_results {P : Nat → Prop} {results : List (D × Nat)} {start : Nat}
    (hresults : Distinct P results) (hstart : P start) :
    P ((results.head?.map Prod.snd).getD start) := by
  cases results with
  | nil => exact hstart
  | cons first rest => exact hresults.2 first List.mem_cons_self

/-- On each layer above 0 an insert selects known nodes. -/
theorem Linked.selectUpper (hlinked : Linked cfg x known) (fuel top : Nat) {start : Nat}
    (hstart : 0 < top → known start) :
    Safe (fun found => (found.1 = start ∨ known found.1) ∧
        ∀ layer, Selected cfg.m known (found.2 layer))
      (selectUpper cfg space x vector fuel top start) := by
  have hnone : ∀ layer : Nat, Selected cfg.m known ((fun _ => [] : Nat → List Nat) layer) :=
    fun _ => ⟨List.nodup_nil, by simp, Nat.zero_le _⟩
  induction top generalizing start with
  | zero => exact ⟨.inl rfl, hnone⟩
  | succ top ih =>
      have hstart := hstart (Nat.succ_pos top)
      have hone : Safe (fun found => known found.1 ∧ Selected cfg.m known found.2)
          (selectAt cfg space x vector fuel (top + 1) start) := by
        refine safe_bind (safe_searchLayer_upper (Nat.succ_ne_zero top)
          (hlinked.known (top + 1)) hlinked.nodes hstart fuel _) fun neighbors hneighbors => ?_
        exact safe_bind (safe_selectResults fun hzero => (Nat.succ_ne_zero top hzero).elim)
          fun selected hselected =>
            ⟨head_results hneighbors hstart, Selected.of_chosen hneighbors hselected⟩
      refine safe_bind hone fun found hfound => ?_
      refine safe_bind (ih fun _ => hfound.1) fun rest hrest => ⟨?_, fun layer => ?_⟩
      · rcases hrest.1 with hsame | hknown
        · exact .inr (hsame ▸ hfound.1)
        · exact .inr hknown
      · change Selected cfg.m known (Function.update rest.2 (top + 1) found.2 layer)
        rw [Function.update_apply]
        split
        · exact hfound.2
        · exact hrest.2 layer

/-- On layer 0 it selects nodes with a location. -/
theorem safe_selectAt_zero {start : Nat} (hstart : (x.vectors start).isSome = true) (fuel : Nat) :
    Safe (fun found => Selected cfg.m (fun w => (x.vectors w).isSome = true) found.2)
      (selectAt cfg space x vector fuel 0 start) := by
  refine safe_bind (safe_searchLayer_zero hstart fuel _) fun neighbors hneighbors => ?_
  exact safe_bind (safe_selectResults fun _ => hneighbors.2) fun selected hselected =>
    Selected.of_chosen hneighbors hselected

/-! ## Links above layer 0 -/

/-- The same index but for the lists above layer 0. -/
structure Relinked (x y : Index V) : Prop where
  nodes : ∀ w, (y.nodes w).isSome = (x.nodes w).isSome
  entryPoint : y.entryPoint = x.entryPoint
  maxLayer : y.maxLayer = x.maxLayer
  edges : y.edges = x.edges
  vectors : y.vectors = x.vectors

theorem Relinked.refl (x : Index V) : Relinked x x := ⟨fun _ => rfl, rfl, rfl, rfl, rfl⟩

theorem Relinked.trans {x y z : Index V} (hxy : Relinked x y) (hyz : Relinked y z) :
    Relinked x z :=
  ⟨fun w => (hyz.nodes w).trans (hxy.nodes w), hyz.entryPoint.trans hxy.entryPoint,
    hyz.maxLayer.trans hxy.maxLayer, hyz.edges.trans hxy.edges, hyz.vectors.trans hxy.vectors⟩

theorem relinked_setNeighbors (x : Index V) (id layer : Nat) (list : List Nat) :
    Relinked x (x.setNeighbors id layer list) :=
  ⟨isSome_setNeighbors x id layer list, rfl, rfl, rfl, rfl⟩

theorem nodup_concat {list : List Nat} {a : Nat} (hlist : list.Nodup) (ha : a ∉ list) :
    (list ++ [a]).Nodup := by
  refine hlist.append (List.nodup_singleton a) fun b hb hmem => ?_
  rw [List.mem_singleton.1 hmem] at hb
  exact ha hb

theorem Linked.linkBack (hlinked : Linked cfg x known) {nodeId layer neighbor : Nat}
    (hlayer : layer ≠ 0) (hnode : known nodeId) (hneighbor : known neighbor)
    (hne : neighbor ≠ nodeId) (hnew : nodeId ∉ x.neighborsAt layer neighbor) :
    Safe (fun y => Linked cfg y known ∧ Relinked x y ∧
        ∀ l v, l ≠ layer ∨ v ≠ neighbor → y.neighborsAt l v = x.neighborsAt l v)
      (linkBack cfg space nodeId layer x neighbor) := by
  have hsome := hlinked.nodes neighbor hneighbor
  obtain ⟨node, hfound⟩ := Option.isSome_iff_exists.1 hsome
  have hlist : (node.neighbors layer).getD [] = x.neighborsAt layer neighbor := by
    unfold Index.neighborsAt
    rw [hfound]
    rfl
  have hnodup : (x.neighborsAt layer neighbor ++ [nodeId]).Nodup :=
    nodup_concat (hlinked.nodup layer neighbor) hnew
  have hmem : ∀ w ∈ x.neighborsAt layer neighbor ++ [nodeId], w ≠ neighbor ∧ known w := by
    intro w hw
    rcases List.mem_append.1 hw with hold | hw
    · exact ⟨hlinked.other layer neighbor w hold, hlinked.known layer neighbor w hold⟩
    · rw [List.mem_singleton.1 hw]
      exact ⟨hne.symm, hnode⟩
  have hset : ∀ list : List Nat, list.Nodup → (∀ w ∈ list, w ≠ neighbor ∧ known w) →
      list.length ≤ cfg.mMax →
      Linked cfg (x.setNeighbors neighbor layer list) known ∧
        Relinked x (x.setNeighbors neighbor layer list) ∧
        ∀ l v, l ≠ layer ∨ v ≠ neighbor →
          (x.setNeighbors neighbor layer list).neighborsAt l v = x.neighborsAt l v := by
    intro list hlist hothers hlen
    refine ⟨hlinked.setNeighbors hsome hlist hothers (hlen.trans (le_max_right _ _)),
      relinked_setNeighbors _ _ _ _, fun l v hplace => ?_⟩
    rw [neighborsAt_setNeighbors hsome, if_neg]
    rintro ⟨rfl, rfl⟩
    rcases hplace with hplace | hplace <;> exact hplace rfl
  unfold IndexGraph.linkBack
  rw [hfound]
  simp only [hlist]
  split
  · have hpoints : ∀ id ∈ x.neighborsAt layer neighbor ++ [nodeId],
        (x.pointAt layer id).isSome = true := by
      intro id hid
      obtain ⟨other, hother⟩ := Option.isSome_iff_exists.1 (hlinked.nodes id (hmem id hid).2)
      simp [Index.pointAt, hlayer, hother]
    refine safe_bind (safe_selectNeighbors hpoints) fun selected hselected => ?_
    exact hset selected (hselected.nodup hnodup)
      (fun w hw => hmem w (hselected.1.subset hw)) hselected.2
  · rename_i hfew
    exact hset _ hnodup hmem (Nat.le_of_not_lt hfew)

theorem Linked.linkBackAll {nodeId layer : Nat} (hlayer : layer ≠ 0) (hnode : known nodeId)
    {selected : List Nat} (hselected : selected.Nodup)
    (hmem : ∀ w ∈ selected, known w ∧ w ≠ nodeId) :
    ∀ {x : Index V}, Linked cfg x known → (∀ w ∈ selected, nodeId ∉ x.neighborsAt layer w) →
      Safe (fun y => Linked cfg y known ∧ Relinked x y ∧
          ∀ l v, l ≠ layer → y.neighborsAt l v = x.neighborsAt l v)
        (linkBackAll cfg space nodeId layer selected x) := by
  induction selected with
  | nil => exact fun hlinked _ => ⟨hlinked, Relinked.refl _, fun _ _ _ => rfl⟩
  | cons neighbor rest ih =>
      intro x hlinked hnew
      obtain ⟨hnotin, hrest⟩ := List.nodup_cons.1 hselected
      obtain ⟨hknown, hne⟩ := hmem neighbor List.mem_cons_self
      refine safe_bind (hlinked.linkBack hlayer hnode hknown hne
        (hnew neighbor List.mem_cons_self)) fun y hy => ?_
      obtain ⟨hy, hxy, hframe⟩ := hy
      have hnew' : ∀ w ∈ rest, nodeId ∉ y.neighborsAt layer w := by
        intro w hw
        have hother : w ≠ neighbor := fun heq => hnotin (heq ▸ hw)
        rw [hframe layer w (.inr hother)]
        exact hnew w (List.mem_cons_of_mem _ hw)
      refine (ih hrest (fun w hw => hmem w (List.mem_cons_of_mem _ hw)) hy hnew').mono ?_
      rintro z ⟨hz, hyz, hafter⟩
      exact ⟨hz, hxy.trans hyz, fun l v hl =>
        (hafter l v hl).trans (hframe l v (.inl hl))⟩

/-- The links of a new node, layer by layer.  The layers still to come do not name it. -/
theorem Linked.linkUpper {nodeId : Nat} (hnode : known nodeId) {selectedPerLayer : Nat → List Nat}
    (hselected : ∀ layer, Selected cfg.m (fun w => known w ∧ w ≠ nodeId)
      (selectedPerLayer layer)) (top : Nat) :
    ∀ {x : Index V}, Linked cfg x known →
      (∀ l v, l ≤ top → nodeId ∉ x.neighborsAt l v) →
      Safe (fun y => Linked cfg y known ∧ Relinked x y)
        (linkUpper cfg space nodeId selectedPerLayer top x) := by
  induction top with
  | zero => exact fun hlinked _ => ⟨hlinked, Relinked.refl _⟩
  | succ top ih =>
      intro x hlinked hnew
      have hsome := hlinked.nodes nodeId hnode
      have hsel := hselected (top + 1)
      have hforward : Linked cfg
          (x.setNeighbors nodeId (top + 1) (selectedPerLayer (top + 1))) known :=
        hlinked.setNeighbors hsome hsel.nodup
          (fun w hw => ⟨(hsel.mem w hw).2, (hsel.mem w hw).1⟩)
          (hsel.length_le.trans (le_max_left _ _))
      have hat := neighborsAt_setNeighbors hsome (top + 1) (selectedPerLayer (top + 1))
      have hunnamed : ∀ w ∈ selectedPerLayer (top + 1), nodeId ∉
          (x.setNeighbors nodeId (top + 1) (selectedPerLayer (top + 1))).neighborsAt
            (top + 1) w := by
        intro w hw
        rw [hat, if_neg fun heq => (hsel.mem w hw).2 heq.1]
        exact hnew _ w le_rfl
      refine safe_bind (Linked.linkBackAll (Nat.succ_ne_zero top) hnode hsel.nodup hsel.mem
        hforward hunnamed) ?_
      rintro y ⟨hy, hxy, hframe⟩
      have hlower : ∀ l v, l ≤ top → nodeId ∉ y.neighborsAt l v := by
        intro l v hl
        rw [hframe l v (by omega), hat, if_neg fun heq => by omega]
        exact hnew l v (by omega)
      refine (ih hy hlower).mono ?_
      rintro z ⟨hz, hyz⟩
      exact ⟨hz, ((relinked_setNeighbors x nodeId (top + 1) _).trans hxy).trans hyz⟩

end AsterVec.IndexGraph

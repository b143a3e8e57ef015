import AsterVec.IndexInserts

/-!
Bulk builds.  The nodes of the upper layers are linked one after the other, from the
highest level down; a node is named by no list before its turn.
-/

namespace AsterVec.IndexGraph

open AsterVec.BulkBuild (entryNode entryNode_lt)
open AsterVec.Dense
open AsterVec.LayerSearch (Safe Distinct)

variable {V D : Type} [LinearOrder D] {cfg : Config} {store : GraphStore} {space : Space V D}
  {x : Index V} {known : Nat → Prop}

/-- The entry node has the highest level. -/
theorem level_entryNode (levels : Nat → Nat) {n : Nat} (hn : 0 < n) :
    levels (entryNode levels n).2 = (entryNode levels n).1 := by
  have hstep : ∀ n, entryNode levels (n + 1) =
      if (entryNode levels n).1 < levels n ∨
          levels n = (entryNode levels n).1 ∧ n < (entryNode levels n).2 then (levels n, n)
      else entryNode levels n := by
    intro n
    rw [entryNode, List.range_succ, List.foldl_append]
    rfl
  induction n with
  | zero => exact absurd hn (Nat.lt_irrefl 0)
  | succ n ih =>
      rw [hstep]
      split
      · rfl
      · rename_i hkeep
        cases n with
        | zero =>
            change levels 0 = 0
            have hle : ¬ 0 < levels 0 := fun hlt => hkeep (.inl hlt)
            omega
        | succ n => exact ih (Nat.succ_pos n)

variable {batch : Batch V}

theorem mem_byLevel {u : Nat} (hu : u ∈ batch.byLevel) :
    u < batch.n ∧ 1 ≤ batch.levels u ∧ batch.levels u ≤ (entryNode batch.levels batch.n).1 ∧
      u ≠ (entryNode batch.levels batch.n).2 := by
  obtain ⟨hmem, hne⟩ := List.mem_filter.1 hu
  obtain ⟨level, hlevel, hmem⟩ := List.mem_flatMap.1 hmem
  obtain ⟨hrange, heq⟩ := List.mem_filter.1 hmem
  rw [List.mem_reverse, List.mem_range'_1] at hlevel
  have heq : batch.levels u = level := by simpa using heq
  refine ⟨List.mem_range.1 hrange, by omega, by omega, by simpa using hne⟩

theorem nodup_byLevel (batch : Batch V) : batch.byLevel.Nodup := by
  refine List.Nodup.filter _ (List.nodup_flatMap.2 ⟨fun level _ => ?_, ?_⟩)
  · exact List.nodup_range.filter _
  · refine List.Pairwise.imp ?_ (List.nodup_reverse.2 List.nodup_range')
    intro a b hne u ha hb
    have hlevel : ∀ {level : Nat}, u ∈ (List.range batch.n).filter
        (fun u => batch.levels u == level) → batch.levels u = level := by
      intro level hu
      simpa using (List.mem_filter.1 hu).2
    exact hne ((hlevel ha).symm.trans (hlevel hb))

/-! ## The upper layers -/

/-- One node: it was not known, and is known then. -/
theorem Linked.addPoint (hlinked : Linked cfg x known) {nodeId entryPoint : Nat}
    (hnode : (x.nodes nodeId).isSome = true) (hunknown : ¬ known nodeId)
    (hentry : x.entryPoint = some entryPoint) (hknown : known entryPoint) (fuel presetLevel : Nat)
    (vector : V) :
    Safe (fun y => Linked cfg y (fun w => known w ∨ w = nodeId) ∧ Relinked x y)
      (addPointUpperLayersOnly cfg space fuel nodeId vector presetLevel x) := by
  have hwider : Linked cfg x fun w => known w ∨ w = nodeId := by
    refine hlinked.mono (fun w hw => .inl hw) ?_
    rintro w (hw | rfl)
    · exact hlinked.nodes w hw
    · exact hnode
  unfold addPointUpperLayersOnly
  split
  · exact ⟨hwider, Relinked.refl x⟩
  · rw [hentry]
    refine safe_bind (safe_descend hlinked.known fuel presetLevel x.maxLayer.toNat entryPoint)
      fun current hcurrent => ?_
    have hstart : known current := by
      rcases hcurrent with rfl | hcurrent
      · exact hknown
      · exact hcurrent
    refine safe_bind (hlinked.selectUpper fuel _ fun _ => hstart) fun found hfound => ?_
    obtain ⟨lower, selectedPerLayer⟩ := found
    obtain ⟨node, hfoundNode⟩ := Option.isSome_iff_exists.1 hnode
    rw [hfoundNode]
    have hselected : ∀ layer, Selected cfg.m (fun w => (known w ∨ w = nodeId) ∧ w ≠ nodeId)
        (selectedPerLayer layer) := fun layer =>
      ⟨(hfound.2 layer).nodup, fun w hw => ⟨.inl ((hfound.2 layer).mem w hw), fun heq =>
        hunknown (heq ▸ (hfound.2 layer).mem w hw)⟩, (hfound.2 layer).length_le⟩
    exact Linked.linkUpper (.inr rfl) hselected _ hwider fun l v _ hmem =>
      hunknown (hlinked.known l v nodeId hmem)

theorem Linked.addPoints (entryPoint fuel : Nat) {us : List Nat} (hnodup : us.Nodup) :
    ∀ {x : Index V} {known : Nat → Prop}, Linked cfg x known → x.entryPoint = some entryPoint →
      known entryPoint → (∀ u ∈ us, (x.nodes u).isSome = true ∧ ¬ known u) →
      Safe (fun y => Linked cfg y (fun w => known w ∨ w ∈ us) ∧ Relinked x y)
        (addPoints cfg space fuel batch us x) := by
  induction us with
  | nil =>
      intro x known hlinked _ _ _
      exact ⟨hlinked.mono (fun w hw => .inl hw) fun w hw => hlinked.nodes w (by simpa using hw),
        Relinked.refl x⟩
  | cons u rest ih =>
      intro x known hlinked hentry hknown hus
      obtain ⟨hnotin, hrest⟩ := List.nodup_cons.1 hnodup
      obtain ⟨hnode, hunknown⟩ := hus u List.mem_cons_self
      refine safe_bind (hlinked.addPoint hnode hunknown hentry hknown fuel (batch.levels u)
        (batch.rows u)) ?_
      rintro y ⟨hy, hxy⟩
      have hothers : ∀ w ∈ rest, (y.nodes w).isSome = true ∧ ¬ (known w ∨ w = u) := by
        intro w hw
        obtain ⟨hwnode, hwknown⟩ := hus w (List.mem_cons_of_mem _ hw)
        rw [hxy.nodes w]
        exact ⟨hwnode, fun hor => hor.elim hwknown fun heq => hnotin (heq ▸ hw)⟩
      refine (ih hrest hy (hxy.entryPoint.trans hentry) (.inl hknown) hothers).mono ?_
      rintro z ⟨hz, hyz⟩
      have hmem : ∀ w, (known w ∨ w = u) ∨ w ∈ rest ↔ known w ∨ w ∈ u :: rest := by
        intro w
        rw [List.mem_cons, or_assoc]
      exact ⟨hz.mono (fun w hw => (hmem w).1 hw) fun w hw => hz.nodes w ((hmem w).2 hw),
        hxy.trans hyz⟩

/-! ## The whole build -/

theorem isSome_publishAll (hnone : ∀ w, x.nodes w = none) (u : Nat) :
    ((batch.publishAll x).nodes u).isSome = true ↔ u < batch.n ∧ 1 ≤ batch.levels u := by
  change (if _ then _ else _ : Option (Node V)).isSome = true ↔ _
  split
  · rename_i hupper
    simpa using hupper
  · rename_i hlower
    rw [hnone u]
    simpa using hlower

theorem neighborsAt_publishAll (hnone : ∀ w, x.nodes w = none) (layer u : Nat) :
    (batch.publishAll x).neighborsAt layer u = [] := by
  unfold Batch.publishAll Index.neighborsAt
  simp only
  split
  · rfl
  · rw [hnone u]
    rfl

/-- No published node has a neighbor yet. -/
theorem linked_publishAll (hnone : ∀ w, x.nodes w = none)
    (hknown : ∀ w, known w → ((batch.publishAll x).nodes w).isSome = true) :
    Linked cfg (batch.publishAll x) known := by
  refine ⟨hknown, fun l v => ?_, fun l v w hw => ?_, fun l v w hw => ?_, fun l v => ?_⟩
  · rw [neighborsAt_publishAll hnone]
    exact List.nodup_nil
  · rw [neighborsAt_publishAll hnone] at hw
    cases hw
  · rw [neighborsAt_publishAll hnone] at hw
    cases hw
  · rw [neighborsAt_publishAll hnone]
    exact Nat.zero_le _

/-- The entry node is known from the start, and every other node at its turn. -/
theorem safe_addPoints_byLevel (hn : 0 < batch.n) (hnone : ∀ w, x.nodes w = none) (fuel : Nat) :
    Safe (fun y => Linked cfg y (fun w => (y.nodes w).isSome = true) ∧
        Relinked (batch.publishAll x) y)
      (addPoints cfg space fuel batch batch.byLevel (batch.publishAll x)) := by
  cases hlist : batch.byLevel with
  | nil => exact ⟨linked_publishAll hnone fun _ hw => hw, Relinked.refl _⟩
  | cons u rest =>
      rw [← hlist]
      have hmem : u ∈ batch.byLevel := by
        rw [hlist]
        exact List.mem_cons_self
      have hu := mem_byLevel hmem
      have hlevel := level_entryNode batch.levels hn
      have hstart : ((batch.publishAll x).nodes (entryNode batch.levels batch.n).2).isSome =
          true :=
        (isSome_publishAll hnone _).2 ⟨entryNode_lt batch.levels hn, by omega⟩
      have hlinked : Linked cfg (batch.publishAll x) (· = (entryNode batch.levels batch.n).2) :=
        linked_publishAll hnone fun w hw => hw ▸ hstart
      refine (Linked.addPoints _ fuel (nodup_byLevel batch) hlinked rfl rfl
        fun w hw => ?_).mono ?_
      · have hw := mem_byLevel hw
        exact ⟨(isSome_publishAll hnone w).2 ⟨hw.1, hw.2.1⟩, hw.2.2.2⟩
      · rintro y ⟨hy, hxy⟩
        exact ⟨hy.mono hy.nodes fun _ hw => hw, hxy⟩

/-! The bulk load of layer 0 leaves the layers above alone. -/

theorem nodes_bulkLoadLayer0 (batch : Batch V) (y : Index V) :
    (bulkLoadLayer0 cfg store batch y).nodes = y.nodes := by
  unfold bulkLoadLayer0
  rfl

theorem entryPoint_bulkLoadLayer0 (batch : Batch V) (y : Index V) :
    (bulkLoadLayer0 cfg store batch y).entryPoint = y.entryPoint := by
  unfold bulkLoadLayer0
  rfl

theorem maxLayer_bulkLoadLayer0 (batch : Batch V) (y : Index V) :
    (bulkLoadLayer0 cfg store batch y).maxLayer = y.maxLayer := by
  unfold bulkLoadLayer0
  rfl

theorem edges_bulkLoadLayer0 {y : Index V} (hsame : y.edges = x.edges) :
    (bulkLoadLayer0 cfg store batch y).edges = (bulkLoadLayer0 cfg store batch x).edges := by
  unfold bulkLoadLayer0
  rw [hsame]

/-- After a build the index is navigable, and layer 0 has the vectors and the edges. -/
theorem Navigable.bulkBuild (hx : Navigable cfg x) (fuel : Nat) (batch : Batch V) :
    Safe (fun y => Navigable cfg y ∧ (batch.n ≠ 0 →
        (∀ u, y.vectors u = if u < batch.n then some (batch.rows u) else x.vectors u) ∧
        y.edges = (bulkLoadLayer0 cfg store batch x).edges))
      (bulkBuild cfg store space fuel batch x) := by
  unfold IndexGraph.bulkBuild
  split
  · rename_i hzero
    exact ⟨hx, fun hn => (hn hzero).elim⟩
  split
  · trivial
  rename_i hzero hset
  have hn : 0 < batch.n := Nat.pos_of_ne_zero hzero
  have hnone : ∀ w, x.nodes w = none := hx.unset (by simpa using hset)
  generalize hentry : entryNode batch.levels batch.n = entry
  have hlt : entry.2 < batch.n := hentry ▸ entryNode_lt batch.levels hn
  have hlevel : batch.levels entry.2 = entry.1 := hentry ▸ level_entryNode batch.levels hn
  refine safe_bind (safe_addPoints_byLevel hn hnone fuel) ?_
  rintro y ⟨hy, hxy⟩
  have hnodes : ∀ w, (y.nodes w).isSome = true ↔ w < batch.n ∧ 1 ≤ batch.levels w := by
    intro w
    rw [hxy.nodes w]
    exact isSome_publishAll hnone w
  have hvectors : ∀ u, (bulkLoadLayer0 cfg store batch y).vectors u =
      if u < batch.n then some (batch.rows u) else x.vectors u := by
    intro u
    change (if u < batch.n then some (batch.rows u) else y.vectors u) = _
    rw [hxy.vectors]
    rfl
  have hlocated : ∀ u, u < batch.n →
      ((bulkLoadLayer0 cfg store batch y).vectors u).isSome = true := by
    intro u hu
    rw [hvectors, if_pos hu]
    rfl
  have hbuilt : Navigable cfg (bulkLoadLayer0 cfg store batch y) := by
    refine ⟨?_, ?_, ?_, ?_⟩
    · rw [nodes_bulkLoadLayer0]
      exact hy.congr (nodes_bulkLoadLayer0 batch y)
    · intro w hw
      rw [nodes_bulkLoadLayer0] at hw
      exact hlocated w ((hnodes w).1 hw).1
    · intro e he
      rw [entryPoint_bulkLoadLayer0, hxy.entryPoint] at he
      obtain rfl := Option.some.inj he
      rw [nodes_bulkLoadLayer0, maxLayer_bulkLoadLayer0, hxy.maxLayer, hentry]
      refine ⟨hlocated _ hlt, fun hone => (hnodes _).2 ⟨hlt, ?_⟩⟩
      change (1 : Int) ≤ ((entryNode batch.levels batch.n).1 : Int) at hone
      rw [hentry] at hone
      omega
    · intro hunset
      rw [entryPoint_bulkLoadLayer0, hxy.entryPoint] at hunset
      cases hunset
  exact ⟨hbuilt, fun _ => ⟨hvectors, edges_bulkLoadLayer0 hxy.edges⟩⟩

end AsterVec.IndexGraph

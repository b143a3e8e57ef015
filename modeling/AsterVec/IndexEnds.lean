import AsterVec.IndexInserts

/-!
The walks, searches and selections of an insert end.  A turn of a walk leaves fewer nodes
nearer to the query than the current one, a turn of a search expands a node it has not
expanded, and a selection has no loop of its own.
-/

namespace AsterVec.IndexGraph

open AsterVec.Dense
open AsterVec.LayerSearch (Safe)

variable {V D : Type} [LinearOrder D] {cfg : Config} {store : GraphStore} {space : Space V D}
  {x : Index V} {query vector : V}

/-- The call ran to its end: it returned or threw what a missing vector throws. -/
def Prompt {α : Type} : SearchEnd α → Prop
  | .hits _ => True
  | .threw => True
  | _ => False

theorem prompt_bind {α β : Type} {found : SearchEnd α} {follow : α → SearchEnd β}
    (hfound : Prompt found) (hfollow : ∀ value, found = .hits value → Prompt (follow value)) :
    Prompt (found >>= follow) := by
  cases found with
  | hits value => exact hfollow value rfl
  | threw => trivial
  | invalidArgument => exact hfound.elim
  | exhausted => exact hfound.elim

/-- A call that is safe and ends returns. -/
theorem hits_of_safe {α : Type} {P : α → Prop} {found : SearchEnd α} (hsafe : Safe P found)
    (hprompt : Prompt found) : ∃ value, found = .hits value ∧ P value := by
  cases found with
  | hits value => exact ⟨value, rfl, hsafe⟩
  | threw => exact hsafe.elim
  | invalidArgument => exact hprompt.elim
  | exhausted => exact hprompt.elim

/-! ## Walks -/

/-- After the scan of a list the best distance is that of the current node, if it improved. -/
theorem improve_improves (space : Space V D) (query : V) (x : Index V) (snapshot : List Nat)
    (best : D × Nat × Bool) :
    let after := snapshot.foldl (improve space query x) best
    after = best ∨ after.1 < best.1 ∧ ∃ node, x.nodes after.2.1 = some node ∧
      after.1 = space.distance query node.point := by
  induction snapshot generalizing best with
  | nil => exact .inl rfl
  | cons neighborId snapshot ih =>
      have hone : improve space query x best neighborId = best ∨
          (improve space query x best neighborId).1 < best.1 ∧
            ∃ node, x.nodes (improve space query x best neighborId).2.1 = some node ∧
              (improve space query x best neighborId).1 = space.distance query node.point := by
        unfold improve
        cases hnode : x.nodes neighborId with
        | none => exact .inl rfl
        | some node =>
            simp only
            split
            · rename_i hnear
              exact .inr ⟨hnear, node, hnode, rfl⟩
            · exact .inl rfl
      simp only [List.foldl_cons]
      have hrest := ih (improve space query x best neighborId)
      generalize improve space query x best neighborId = next at hone hrest ⊢
      rcases hrest with hsame | ⟨hnearer, hnode⟩
      · rw [hsame]
        exact hone
      · refine .inr ⟨?_, hnode⟩
        rcases hone with rfl | ⟨hnear, -⟩
        · exact hnearer
        · exact hnearer.trans hnear

open Classical in
/-- The nodes in memory that are nearer to the query than `d`. -/
noncomputable def nearerNodes (space : Space V D) (query : V) (x : Index V) (known : Finset Nat)
    (d : D) : Finset Nat :=
  known.filter fun w => ∃ node, x.nodes w = some node ∧ space.distance query node.point < d

theorem nearerNodes_lt {known : Finset Nat}
    (hknown : ∀ w, (x.nodes w).isSome = true → w ∈ known) {w : Nat} {node : Node V} {d : D}
    (hnode : x.nodes w = some node) (hnear : space.distance query node.point < d) :
    (nearerNodes space query x known (space.distance query node.point)).card <
      (nearerNodes space query x known d).card := by
  refine Finset.card_lt_card ⟨fun v hv => ?_, fun hsub => ?_⟩
  · obtain ⟨hmem, other, hother, hless⟩ := Finset.mem_filter.1 hv
    exact Finset.mem_filter.2 ⟨hmem, other, hother, hless.trans hnear⟩
  · have hw := hsub (Finset.mem_filter.2 ⟨hknown w (by rw [hnode]; rfl), node, hnode, hnear⟩)
    obtain ⟨-, other, hother, hless⟩ := Finset.mem_filter.1 hw
    obtain rfl := Option.some.inj (hnode.symm.trans hother)
    exact lt_irrefl _ hless

theorem prompt_greedyLoop {known : Finset Nat}
    (hknown : ∀ w, (x.nodes w).isSome = true → w ∈ known) (layer : Nat) :
    ∀ (fuel : Nat) (bestDist : D) (current : Nat),
      (nearerNodes space query x known bestDist).card < fuel →
      Prompt (greedyLoop space query x layer fuel bestDist current) := by
  intro fuel
  induction fuel with
  | zero => exact fun _ _ hfuel => absurd hfuel (Nat.not_lt_zero _)
  | succ fuel ih =>
      intro bestDist current hfuel
      unfold greedyLoop
      cases (x.nodes current).bind fun node => node.neighbors layer with
      | none => trivial
      | some snapshot =>
          have himproves := improve_improves space query x snapshot
            (bestDist, current, false)
          simp only at himproves ⊢
          generalize snapshot.foldl (improve space query x) (bestDist, current, false) = best
            at himproves ⊢
          split
          · rename_i himproved
            rcases himproves with hsame | ⟨hnearer, node, hnode, hdist⟩
            · rw [hsame] at himproved
              cases himproved
            · refine ih _ _ ?_
              rw [hdist] at hnearer ⊢
              have := nearerNodes_lt hknown hnode hnearer
              omega
          · trivial

theorem prompt_greedySearchUpperLayer {known : Finset Nat}
    (hknown : ∀ w, (x.nodes w).isSome = true → w ∈ known) {fuel : Nat}
    (hfuel : known.card < fuel) (start layer : Nat) :
    Prompt (greedySearchUpperLayer space query x fuel start layer) := by
  unfold greedySearchUpperLayer
  cases x.nodes start with
  | none => trivial
  | some node =>
      refine prompt_greedyLoop hknown layer fuel _ start (Nat.lt_of_le_of_lt ?_ hfuel)
      exact Finset.card_le_card (Finset.filter_subset _ _)

theorem prompt_descend {known : Finset Nat}
    (hknown : ∀ w, (x.nodes w).isSome = true → w ∈ known) {fuel : Nat}
    (hfuel : known.card < fuel) (bottom top start : Nat) :
    Prompt (descend space query x fuel bottom top start) := by
  induction top generalizing start with
  | zero => trivial
  | succ top ih =>
      unfold descend
      split
      · exact prompt_bind (prompt_greedySearchUpperLayer hknown hfuel start (top + 1))
          fun current _ => ih current
      · trivial

/-! ## Searches -/

/-- A search ends within as many turns as there are vectors. -/
theorem prompt_plainSearch {vectors : Nat → Option V} {edges : Nat → List Nat}
    {metric : Metric V D} {located : Finset Nat} {fuel : Nat}
    (hlocated : ∀ id, (vectors id).isSome = true → id ∈ located) (hfuel : located.card < fuel)
    (start : Nat) (ef : Int) :
    Prompt (LayerSearch.plainSearch vectors edges metric query fuel start ef) := by
  cases hstart : vectors start with
  | none =>
      unfold LayerSearch.plainSearch
      rw [hstart]
      split <;> trivial
  | some vector =>
      obtain ⟨results, hresults⟩ : ∃ results,
          LayerSearch.plainSearch vectors edges metric query fuel start ef = .hits results :=
        LayerSearch.plainSearch_ends hlocated (by rw [hstart]; rfl) hfuel ef
      rw [hresults]
      trivial

/-- What an insert may meet: the nodes in memory and the ids with a location. -/
structure Within (x : Index V) (known : Finset Nat) : Prop where
  nodes : ∀ w, (x.nodes w).isSome = true → w ∈ known
  vectors : ∀ w, (x.vectors w).isSome = true → w ∈ known

theorem Within.pointAt {known : Finset Nat} (hwithin : Within x known) {layer w : Nat}
    (hw : (x.pointAt layer w).isSome = true) : w ∈ known := by
  unfold Index.pointAt at hw
  split at hw
  · exact hwithin.vectors w hw
  · cases hnode : x.nodes w with
    | none =>
        rw [hnode] at hw
        exact hwithin.vectors w hw
    | some node => exact hwithin.nodes w (by rw [hnode]; rfl)

theorem prompt_searchLayer {known : Finset Nat} (hwithin : Within x known)
    (hlists : ∀ layer v, ∀ w ∈ x.neighborsAt layer v, (x.nodes w).isSome = true) {fuel : Nat}
    (hfuel : known.card < fuel) (start : Nat) (ef : Int) (layer : Nat) :
    Prompt (searchLayer cfg space query x fuel start ef layer) := by
  unfold searchLayer
  split
  · rw [((LayerSearch.reads_memory x.vectors).searchLayer x.edges space.toMetric query
      cfg.enableBatchRead fuel start ef rfl).1]
    exact prompt_plainSearch hwithin.vectors hfuel start ef
  · rename_i hlayer
    rw [LayerSearch.searchLayer_unfiltered (upperLayer V) (fun _ => rfl) (fun _ => rfl)
      fun v w hw => by
        obtain ⟨node, hnode⟩ := Option.isSome_iff_exists.1 (hlists layer v w hw)
        simp [Index.pointAt, hlayer, hnode]]
    exact prompt_plainSearch (fun w hw => hwithin.pointAt hw) hfuel start ef

/-! ## Selections -/

theorem prompt_orThrow {α : Type} (found : Option α) : Prompt (orThrow found) := by
  cases found <;> trivial

theorem prompt_diversify (read : List Nat → Option (List V)) (apart : V → V → D)
    (maxNeighbors : Nat) (candInfos : List (D × Nat)) :
    Prompt (diversify space read apart maxNeighbors candInfos) :=
  prompt_bind (prompt_orThrow _) fun _ _ => trivial

theorem prompt_selectNeighbors (ids : List Nat) (maxNeighbors layer : Nat) :
    Prompt (selectNeighbors cfg space x vector ids maxNeighbors layer) := by
  unfold selectNeighbors selectNeighborsHeuristic2 selectNeighborsSimple
  split
  · split
    · trivial
    · exact prompt_bind (prompt_orThrow _) fun _ _ => prompt_diversify _ _ _ _
  · split
    · trivial
    · exact prompt_bind (prompt_orThrow _) fun _ _ => trivial

theorem prompt_selectResults (candidates : List (D × Nat)) (maxNeighbors layer : Nat) :
    Prompt (selectResults cfg space x candidates maxNeighbors layer) := by
  unfold selectResults selectResultsHeuristic2
  split
  · split
    · trivial
    · exact prompt_diversify _ _ _ _
  · trivial

theorem prompt_selectAt {known : Finset Nat} (hwithin : Within x known)
    (hlists : ∀ layer v, ∀ w ∈ x.neighborsAt layer v, (x.nodes w).isSome = true) {fuel : Nat}
    (hfuel : known.card < fuel) (layer start : Nat) :
    Prompt (selectAt cfg space x vector fuel layer start) :=
  prompt_bind (prompt_searchLayer hwithin hlists hfuel start _ layer) fun _ _ =>
    prompt_bind (prompt_selectResults _ _ _) fun _ _ => trivial

theorem prompt_selectUpper {known : Finset Nat} (hwithin : Within x known)
    (hlists : ∀ layer v, ∀ w ∈ x.neighborsAt layer v, (x.nodes w).isSome = true) {fuel : Nat}
    (hfuel : known.card < fuel) (top start : Nat) :
    Prompt (selectUpper cfg space x vector fuel top start) := by
  induction top generalizing start with
  | zero => trivial
  | succ top ih =>
      exact prompt_bind (prompt_selectAt hwithin hlists hfuel (top + 1) start) fun found _ =>
        prompt_bind (ih found.1) fun _ _ => trivial

/-! ## Links -/

theorem prompt_linkBack (nodeId layer : Nat) (x : Index V) (neighbor : Nat) :
    Prompt (linkBack cfg space nodeId layer x neighbor) := by
  unfold linkBack
  cases x.nodes neighbor with
  | none => trivial
  | some node =>
      simp only
      split
      · exact prompt_bind (prompt_selectNeighbors _ _ _) fun _ _ => trivial
      · trivial

theorem prompt_linkBackAll (nodeId layer : Nat) (selected : List Nat) (x : Index V) :
    Prompt (linkBackAll cfg space nodeId layer selected x) := by
  induction selected generalizing x with
  | nil => trivial
  | cons neighbor rest ih =>
      exact prompt_bind (prompt_linkBack nodeId layer x neighbor) fun y _ => ih y

theorem prompt_linkUpper (nodeId : Nat) (selectedPerLayer : Nat → List Nat) (top : Nat)
    (x : Index V) : Prompt (linkUpper cfg space nodeId selectedPerLayer top x) := by
  induction top generalizing x with
  | zero => trivial
  | succ top ih => exact prompt_bind (prompt_linkBackAll _ _ _ _) fun y _ => ih y

theorem prompt_surplus (x : Index V) (neighbor : Nat) :
    Prompt (surplus cfg space x neighbor) := by
  unfold surplus
  simp only
  split
  · exact prompt_bind (prompt_orThrow _) fun _ _ =>
      prompt_bind (prompt_selectNeighbors _ _ _) fun _ _ => trivial
  · trivial

theorem prompt_edgesToDelete (x : Index V) (selected : List Nat) :
    Prompt (edgesToDelete cfg space x selected) := by
  induction selected with
  | nil => trivial
  | cons neighbor rest ih =>
      exact prompt_bind (prompt_surplus x neighbor) fun _ _ =>
        prompt_bind ih fun _ _ => trivial

theorem prompt_shrink (selectedLevel0 : List Nat) (x : Index V) :
    Prompt (shrink cfg store space selectedLevel0 x) :=
  prompt_bind (prompt_edgesToDelete x selectedLevel0) fun _ _ => trivial

end AsterVec.IndexGraph

import AsterVec.IndexGraph
import AsterVec.LayerResults

/-!
The walks and the selections of the index.  A walk ends where its lists lead, and a
selection keeps candidates, no more than it may.
-/

namespace AsterVec.IndexGraph

open AsterVec.Dense
open AsterVec.LayerSearch (Safe Distinct)

variable {V D : Type} [LinearOrder D] {cfg : Config} {space : Space V D} {x : Index V}
  {query vector : V}

theorem safe_bind {α β : Type} {P : α → Prop} {Q : β → Prop} {found : SearchEnd α}
    {follow : α → SearchEnd β} (hfound : Safe P found)
    (hfollow : ∀ value, P value → Safe Q (follow value)) : Safe Q (found >>= follow) := by
  cases found with
  | hits value => exact hfollow value hfound
  | threw => exact hfound.elim
  | invalidArgument => trivial
  | exhausted => trivial

/-! ## Walks -/

theorem improve_cases (space : Space V D) (query : V) (x : Index V) (snapshot : List Nat) (best : D × Nat × Bool) :
    (snapshot.foldl (improve space query x) best).2.1 = best.2.1 ∨
      (snapshot.foldl (improve space query x) best).2.1 ∈ snapshot := by
  induction snapshot generalizing best with
  | nil => exact .inl rfl
  | cons neighborId snapshot ih =>
      have hone : (improve space query x best neighborId).2.1 = best.2.1 ∨
          (improve space query x best neighborId).2.1 = neighborId := by
        unfold improve
        cases x.nodes neighborId with
        | none => exact .inl rfl
        | some node =>
            simp only
            split
            · exact .inr rfl
            · exact .inl rfl
      rw [List.foldl_cons]
      rcases ih (improve space query x best neighborId) with hsame | hmem
      · rcases hone with hbest | hnew
        · exact .inl (hsame.trans hbest)
        · exact .inr (List.mem_cons.2 (.inl (hsame.trans hnew)))
      · exact .inr (List.mem_cons_of_mem _ hmem)

variable {P : Nat → Prop}

theorem safe_greedySearchUpperLayer {layer : Nat}
    (hlists : ∀ v, ∀ w ∈ x.neighborsAt layer v, P w) (fuel start : Nat) :
    Safe (fun current => current = start ∨ P current)
      (greedySearchUpperLayer space query x fuel start layer) := by
  have hloop : ∀ fuel bestDist current, current = start ∨ P current →
      Safe (fun current => current = start ∨ P current)
        (greedyLoop space query x layer fuel bestDist current) := by
    intro fuel
    induction fuel with
    | zero => exact fun _ _ _ => trivial
    | succ fuel ih =>
        intro bestDist current hcurrent
        unfold greedyLoop
        cases hlist : (x.nodes current).bind fun node => node.neighbors layer with
        | none => exact hcurrent
        | some snapshot =>
            have hsnapshot : x.neighborsAt layer current = snapshot := by
              unfold Index.neighborsAt
              rw [hlist]
              rfl
            have hbest := improve_cases space query x snapshot
              (bestDist, current, false)
            simp only
            generalize snapshot.foldl (improve space query x) (bestDist, current, false) = best
              at hbest ⊢
            have hnext : best.2.1 = start ∨ P best.2.1 := by
              rcases hbest with hsame | hmem
              · rw [hsame]
                exact hcurrent
              · exact .inr (hlists current _ (hsnapshot ▸ hmem))
            split
            · exact ih _ _ hnext
            · exact hnext
  unfold greedySearchUpperLayer
  cases x.nodes start with
  | none => exact .inl rfl
  | some node => exact hloop fuel _ start (.inl rfl)

theorem safe_descend (hlists : ∀ layer v, ∀ w ∈ x.neighborsAt layer v, P w)
    (fuel bottom top start : Nat) :
    Safe (fun current => current = start ∨ P current)
      (descend space query x fuel bottom top start) := by
  induction top generalizing start with
  | zero => exact .inl rfl
  | succ top ih =>
      unfold descend
      split
      · refine safe_bind (safe_greedySearchUpperLayer (hlists (top + 1)) fuel start)
          fun current hcurrent => (ih current).mono fun next hnext => ?_
        rcases hnext with rfl | hnext
        · exact hcurrent
        · exact .inr hnext
      · exact .inl rfl

/-! ## Searches -/

/-- Above layer 0 a search from a node in memory finds nodes of the lists. -/
theorem safe_searchLayer_upper {layer start : Nat} (hlayer : layer ≠ 0)
    (hlists : ∀ v, ∀ w ∈ x.neighborsAt layer v, P w)
    (hnodes : ∀ w, P w → (x.nodes w).isSome = true) (hstart : P start) (fuel : Nat) (ef : Int) :
    Safe (Distinct P) (searchLayer cfg space query x fuel start ef layer) := by
  have hpoint : ∀ w, P w → (x.pointAt layer w).isSome = true := by
    intro w hw
    obtain ⟨node, hnode⟩ := Option.isSome_iff_exists.1 (hnodes w hw)
    simp [Index.pointAt, hlayer, hnode]
  unfold searchLayer
  rw [if_neg hlayer, LayerSearch.searchLayer_unfiltered (upperLayer V)
    (fun _ => rfl) (fun _ => rfl) (fun v w hw => hpoint w (hlists v w hw))]
  exact LayerSearch.safe_plainSearch (fun v _ w hw _ => hlists v w hw) hstart (hpoint _ hstart)
    fuel ef

/-- On layer 0 it finds nodes with a location. -/
theorem safe_searchLayer_zero {start : Nat} (hstart : (x.vectors start).isSome = true)
    (fuel : Nat) (ef : Int) :
    Safe (Distinct fun w => (x.vectors w).isSome = true)
      (searchLayer cfg space query x fuel start ef 0) := by
  unfold searchLayer
  rw [if_pos rfl, ((LayerSearch.reads_memory x.vectors).searchLayer x.edges space.toMetric query
    cfg.enableBatchRead fuel start ef rfl).1]
  exact LayerSearch.safe_plainSearch (fun _ _ _ _ hw => hw) hstart hstart fuel ef

/-! ## Selections -/

/-- What was selected is among the candidates, and no more than allowed. -/
def Chosen (ids : List Nat) (maxNeighbors : Nat) (selected : List Nat) : Prop :=
  selected.Subperm ids ∧ selected.length ≤ maxNeighbors

theorem Chosen.nodup {ids selected : List Nat} {maxNeighbors : Nat}
    (hchosen : Chosen ids maxNeighbors selected) (hids : ids.Nodup) : selected.Nodup := by
  obtain ⟨list, hperm, hsub⟩ := hchosen.1
  exact hperm.nodup_iff.1 (hsub.nodup hids)

omit [LinearOrder D] in
theorem zip_sublist (entries : List (D × Nat)) (vectors : List V) :
    ((entries.zip vectors).map fun cand => cand.1.2).Sublist (entries.map Prod.snd) := by
  induction entries generalizing vectors with
  | nil => exact List.Sublist.refl _
  | cons entry entries ih =>
      cases vectors with
      | nil => exact List.nil_sublist _
      | cons vector vectors => exact (ih vectors).cons_cons _

theorem prune_spec (apart : V → V → D) (maxNeighbors : Nat) (cands : List ((D × Nat) × V))
    (selected : List (Nat × V)) :
    ((prune apart maxNeighbors selected cands).map Prod.fst).Sublist
        (selected.map Prod.fst ++ cands.map fun cand => cand.1.2) ∧
      (selected.length ≤ maxNeighbors →
        (prune apart maxNeighbors selected cands).length ≤ maxNeighbors) := by
  induction cands generalizing selected with
  | nil => exact ⟨List.sublist_append_left _ _, fun hlen => hlen⟩
  | cons cand cands ih =>
      obtain ⟨cand, point⟩ := cand
      unfold prune
      split
      · exact ⟨List.sublist_append_left _ _, fun hlen => hlen⟩
      · rename_i hroom
        split
        · obtain ⟨hsub, hlen⟩ := ih selected
          exact ⟨hsub.trans ((List.sublist_cons_self _ _).append_left _), hlen⟩
        · obtain ⟨hsub, hlen⟩ := ih (selected ++ [(cand.2, point)])
          refine ⟨?_, fun _ => hlen ?_⟩
          · simpa using hsub
          · rw [List.length_append, List.length_singleton]
            omega

theorem popAll_perm (n : Nat) (queue : List (D × Nat)) (hlen : queue.length = n) :
    (popAll n queue).Perm queue := by
  induction n generalizing queue with
  | zero => rw [List.eq_nil_of_length_eq_zero hlen]; exact List.Perm.refl _
  | succ n ih =>
      unfold popAll
      cases htop : topOf farther queue with
      | none => rw [topOf_eq_none htop]
      | some top =>
          have hmem := topOf_mem htop
          have herase : (queue.erase top).length = n := by
            rw [List.length_erase_of_mem hmem, hlen, Nat.add_sub_cancel]
          exact ((ih _ herase).cons top).trans (List.perm_cons_erase hmem).symm

theorem pushAll_spec (cap : Nat) (entries queue : List (D × Nat)) :
    let after := entries.foldl (fun queue entry => pushCapped cap entry queue) queue
    after.Sublist (queue ++ entries) ∧ (queue.length ≤ cap → after.length ≤ cap) := by
  induction entries generalizing queue with
  | nil => simp
  | cons entry entries ih =>
      obtain ⟨hsub, hlen⟩ := ih (pushCapped cap entry queue)
      refine ⟨?_, fun hqueue => hlen ?_⟩
      · simpa using hsub.trans (pushCapped_sublist.append_right entries)
      · rw [pushCapped_length hqueue]
        exact Nat.min_le_left _ _

theorem exists_mapM {α β : Type} {f : α → Option β} (xs : List α)
    (hsome : ∀ a ∈ xs, (f a).isSome = true) :
    ∃ ys, xs.mapM f = some ys ∧ List.Forall₂ (fun a b => f a = some b) xs ys := by
  induction xs with
  | nil => exact ⟨[], rfl, .nil⟩
  | cons a xs ih =>
      obtain ⟨b, hb⟩ := Option.isSome_iff_exists.1 (hsome a List.mem_cons_self)
      obtain ⟨ys, -, hall⟩ := ih fun a ha => hsome a (List.mem_cons_of_mem _ ha)
      exact ⟨b :: ys, LayerSearch.mapM_eq_some (.cons hb hall), .cons hb hall⟩

theorem safe_scored {ids : List Nat} {layer : Nat}
    (hpoints : ∀ id ∈ ids, (x.pointAt layer id).isSome = true) :
    Safe (fun entries => entries.map Prod.snd = ids) (scored space x vector ids layer) := by
  obtain ⟨entries, hentries, hall⟩ := exists_mapM ids
    (f := fun id => (x.pointAt layer id).map fun point => (space.distance vector point, id))
    (fun id hid => by simpa using hpoints id hid)
  unfold scored
  rw [hentries]
  clear hentries hpoints
  change entries.map Prod.snd = ids
  induction hall with
  | nil => rfl
  | cons hone _ ih =>
      obtain ⟨point, -, rfl⟩ := Option.map_eq_some_iff.1 hone
      rw [List.map_cons, ih]

theorem safe_diversify {read : List Nat → Option (List V)} {apart : V → V → D}
    {maxNeighbors : Nat} {candInfos : List (D × Nat)}
    (hread : ∀ ids, ids.Perm (candInfos.map Prod.snd) → (read ids).isSome = true) :
    Safe (Chosen (candInfos.map Prod.snd) maxNeighbors)
      (diversify space read apart maxNeighbors candInfos) := by
  have hperm := (space.sort_perm candInfos).map Prod.snd
  obtain ⟨vectors, hvectors⟩ := Option.isSome_iff_exists.1 (hread _ hperm)
  obtain ⟨hsub, hlen⟩ := prune_spec apart maxNeighbors
    ((space.sort candInfos).zip vectors) []
  unfold diversify
  simp only [hvectors]
  refine ⟨?_, ?_⟩
  · exact ((hsub.trans (zip_sublist _ _)).subperm).trans hperm.subperm
  · rw [List.length_map]
    exact hlen (Nat.zero_le _)

/-- A selection among candidates with a vector. -/
theorem safe_selectNeighbors {ids : List Nat} {maxNeighbors layer : Nat}
    (hpoints : ∀ id ∈ ids, (x.pointAt layer id).isSome = true) :
    Safe (Chosen ids maxNeighbors)
      (selectNeighbors cfg space x vector ids maxNeighbors layer) := by
  unfold selectNeighbors
  split
  · unfold selectNeighborsHeuristic2
    split
    · rename_i hfew
      exact ⟨List.Subperm.refl _, hfew⟩
    · refine safe_bind (safe_scored hpoints) fun candInfos hids => ?_
      rw [← hids]
      refine safe_diversify fun others hperm => ?_
      obtain ⟨found, hfound, -⟩ := exists_mapM (f := x.pointAt layer) others fun id hid =>
        hpoints id (hids ▸ hperm.mem_iff.1 hid)
      rw [hfound]
      rfl
  · unfold selectNeighborsSimple
    split
    · rename_i hfew
      exact ⟨List.Subperm.refl _, hfew⟩
    · refine safe_bind (safe_scored hpoints) fun entries hids => ?_
      obtain ⟨hsub, hlen⟩ := pushAll_spec maxNeighbors entries []
      have hpopped := popAll_perm _ (entries.foldl
        (fun queue entry => pushCapped maxNeighbors entry queue) []) rfl
      rw [← hids]
      refine ⟨(hpopped.map Prod.snd).subperm.trans (hsub.map Prod.snd).subperm, ?_⟩
      rw [List.length_map, hpopped.length_eq]
      exact hlen (Nat.zero_le _)

/-- A selection among the results of a search. -/
theorem safe_selectResults {candidates : List (D × Nat)} {maxNeighbors layer : Nat}
    (hvectors : layer = 0 → ∀ cand ∈ candidates, (x.vectors cand.2).isSome = true) :
    Safe (Chosen (candidates.map Prod.snd) maxNeighbors)
      (selectResults cfg space x candidates maxNeighbors layer) := by
  unfold selectResults
  split
  · unfold selectResultsHeuristic2
    split
    · rename_i hfew
      exact ⟨List.Subperm.refl _, by rwa [List.length_map]⟩
    · refine safe_diversify fun ids hperm => ?_
      unfold candVecs
      split
      · rename_i hzero
        obtain ⟨found, hfound, -⟩ := exists_mapM (f := x.vectors) ids fun id hid => by
          obtain ⟨cand, hcand, rfl⟩ := List.mem_map.1 (hperm.mem_iff.1 hid)
          exact hvectors hzero cand hcand
        rw [hfound]
        rfl
      · rfl
  · refine ⟨?_, ?_⟩
    · exact (((List.take_sublist _ _).map Prod.snd).subperm).trans
        ((space.sort_perm candidates).map Prod.snd).subperm
    · rw [List.length_map]
      exact List.length_take_le _ _

end AsterVec.IndexGraph

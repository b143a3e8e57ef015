import AsterVec.LayerSearch
import Mathlib.Data.Finset.Card
import Mathlib.Logic.Relation

/-!
A search whose result list is long enough for every reachable node.  Nothing is pruned: every
visited node stays a result, so the queue runs empty only when all of them were expanded.
-/

namespace AsterVec.LayerSearch

open AsterVec.Dense

variable {V D : Type} [LinearOrder D]

/-- What a search of the index reads. -/
structure Index (V : Type) where
  edges : Nat → List Nat
  vectors : Nat → Option V
  tombstoned : Nat → Bool
  entryPoint : Option Nat

/-- The first `k` results that are not tombstoned. -/
def takeLive (tombstoned : Nat → Bool) (k : Nat) :
    List (D × Nat) → List (D × Nat) → List (D × Nat)
  | filtered, [] => filtered
  | filtered, result :: results =>
      if tombstoned result.2 then takeLive tombstoned k filtered results
      else if k ≤ (filtered ++ [result]).length then filtered ++ [result]
      else takeLive tombstoned k (filtered ++ [result]) results

/-- `descent` is where the greedy search of the upper layers ends. -/
def Index.knnSearchK (index : Index V) (metric : Metric V D) (enableBatchRead : Bool)
    (descent : Nat → Nat) (fuel : Nat) (query : V) (k efSearch : Int) :
    SearchEnd (List (D × Nat)) :=
  match index.entryPoint with
  | none => .hits []
  | some ep =>
      if k ≤ 0 then .hits []
      else
        (searchLayer (memory V) index.edges metric query enableBatchRead fuel (descent ep)
          (max efSearch k) index.vectors).1.map (takeLive index.tombstoned k.toNat [])

/-- There is a path of layer-0 edges to located nodes. -/
def Index.Reachable (index : Index V) (i j : Nat) : Prop :=
  Relation.ReflTransGen (fun a b => b ∈ index.edges a ∧ (index.vectors b).isSome = true) i j

/-! ## The queues -/

theorem le_topOf_farther {queue : List (D × Nat)} {top : D × Nat}
    (htop : topOf farther queue = some top) : ∀ x ∈ queue, x.1 ≤ top.1 := by
  cases queue with
  | nil => cases htop
  | cons first rest =>
      cases htop
      induction rest generalizing first with
      | nil =>
          intro x hx
          rw [List.mem_singleton.1 hx]
          exact le_rfl
      | cons next rest ih =>
          intro x hx
          rw [List.foldl_cons]
          have hkept := ih (if farther next first then next else first)
          have hfirst : first.1 ≤ (if farther next first then next else first).1 := by
            split
            · rename_i hfar
              rcases of_decide_eq_true hfar with hlt | ⟨heq, -⟩
              · exact hlt.le
              · exact heq.ge
            · exact le_rfl
          have hnext : next.1 ≤ (if farther next first then next else first).1 := by
            split
            · exact le_rfl
            · rename_i hnear
              by_contra hlt
              exact hnear (decide_eq_true (.inl (not_le.1 hlt)))
          rcases List.mem_cons.1 hx with rfl | hx
          · exact hfirst.trans (hkept _ List.mem_cons_self)
          · rcases List.mem_cons.1 hx with rfl | hx
            · exact hnext.trans (hkept _ List.mem_cons_self)
            · exact hkept x (List.mem_cons_of_mem _ hx)

omit [LinearOrder D] in
theorem takeLive_eq {tombstoned : Nat → Bool} {k : Nat} {results : List (D × Nat)} :
    ∀ {filtered : List (D × Nat)}, filtered.length < k →
      takeLive tombstoned k filtered results =
        filtered ++ (results.filter fun x => !tombstoned x.2).take (k - filtered.length) := by
  induction results with
  | nil => simp [takeLive]
  | cons result results ih =>
      intro filtered hroom
      unfold takeLive
      split
      · rename_i hdead
        rw [ih hroom, List.filter_cons_of_neg (by simp [hdead])]
      · rename_i hlive
        rw [List.filter_cons_of_pos (by simp [hlive])]
        split
        · rename_i hfull
          have hone : k - filtered.length = 1 := by
            simp at hfull
            omega
          rw [hone, List.take_succ_cons, List.take_zero]
        · rename_i hmore
          have hlength : k - filtered.length = (k - (filtered ++ [result]).length) + 1 := by
            simp at hmore ⊢
            omega
          rw [ih (not_le.1 hmore), hlength, List.take_succ_cons, List.append_assoc]
          rfl

section

variable {index : Index V} {metric : Metric V D} {query : V} {efSearch start : Nat}
  {reached : Finset Nat}

/-- The entry of a node in the queues. -/
def entryOf (metric : Metric V D) (query : V) (neighbor : Nat × V) : D × Nat :=
  (metric.distance query neighbor.2, neighbor.1)

/-- With room for all of them, every neighbor is kept. -/
theorem considerNeighbors_of_room {neighbors : List (Nat × V)} :
    ∀ {state : SearchState D}, state.nearest.length + neighbors.length ≤ efSearch →
      neighbors.foldl (considerNeighbor metric query efSearch) state =
        { state with
          candidates := state.candidates ++ neighbors.map (entryOf metric query)
          nearest := state.nearest ++ neighbors.map (entryOf metric query) } := by
  induction neighbors with
  | nil => simp
  | cons neighbor neighbors ih =>
      intro state hroom
      have hlt : state.nearest.length < efSearch := by
        simp at hroom
        omega
      have hone : considerNeighbor metric query efSearch state neighbor =
          { state with
            candidates := state.candidates ++ [entryOf metric query neighbor]
            nearest := state.nearest ++ [entryOf metric query neighbor] } := by
        simp [considerNeighbor, admits_of_room hlt, pushCapped_of_room hlt, entryOf]
      rw [List.foldl_cons, hone, ih]
      · simp
      · simp at hroom ⊢
        omega

/-- Every visited node is a result with its distance, and unless it waits in the queue its
neighbors are visited too. -/
structure Covering (index : Index V) (metric : Metric V D) (query : V) (start : Nat)
    (reached : Finset Nat) (state : SearchState D) : Prop where
  started : start ∈ state.visited
  distinct : state.visited.Nodup
  within : ∀ i ∈ state.visited, i ∈ reached
  results : state.nearest.map Prod.snd = state.visited
  distances : ∀ x ∈ state.nearest, ∃ vector, index.vectors x.2 = some vector ∧
    x.1 = metric.distance query vector
  candidates : ∀ x ∈ state.candidates, x ∈ state.nearest
  expanded : ∀ i ∈ state.visited, (∀ x ∈ state.candidates, x.2 ≠ i) →
    ∀ j ∈ index.edges i, (index.vectors j).isSome = true → j ∈ state.visited

theorem fst_withVectors {vectors : Nat → Option V} {ids : List Nat}
    (hlocated : ∀ id ∈ ids, (vectors id).isSome = true) :
    (withVectors vectors ids).map Prod.fst = ids := by
  induction ids with
  | nil => rfl
  | cons id ids ih =>
      obtain ⟨vector, hvector⟩ := Option.isSome_iff_exists.1 (hlocated id List.mem_cons_self)
      have hcons : withVectors vectors (id :: ids) = (id, vector) :: withVectors vectors ids := by
        simp [withVectors, hvector]
      rw [hcons, List.map_cons, ih fun id hid => hlocated id (List.mem_cons_of_mem _ hid)]

theorem length_withVectors {vectors : Nat → Option V} {ids : List Nat}
    (hlocated : ∀ id ∈ ids, (vectors id).isSome = true) :
    (withVectors vectors ids).length = ids.length := by
  have hlength := congrArg List.length (fst_withVectors hlocated)
  rwa [List.length_map] at hlength

theorem mem_withVectors {vectors : Nat → Option V} {ids : List Nat} {neighbor : Nat × V}
    (hmem : neighbor ∈ withVectors vectors ids) : vectors neighbor.1 = some neighbor.2 := by
  obtain ⟨id, -, hid⟩ := List.mem_filterMap.1 hmem
  obtain ⟨vector, hvector, rfl⟩ := Option.map_eq_some_iff.1 hid
  exact hvector

/-- What one turn of the loop appends: the new neighbors of the candidate, all of them. -/
theorem Covering.considerAll_appends (hreached : ∀ i ∈ reached, ∀ j ∈ index.edges i,
      (index.vectors j).isSome = true → j ∈ reached)
    (hroom : reached.card ≤ efSearch) {state : SearchState D}
    (hcovering : Covering index metric query start reached state) {current : D × Nat}
    (hcurrent : current ∈ state.candidates) :
    ∃ fresh, considerAll index.vectors metric query efSearch
        ((index.edges current.2).filter fun id => (index.vectors id).isSome)
        { state with candidates := state.candidates.erase current } =
      { visited := state.visited ++ fresh
        candidates := state.candidates.erase current ++
          (withVectors index.vectors fresh).map (entryOf metric query)
        nearest := state.nearest ++
          (withVectors index.vectors fresh).map (entryOf metric query) } ∧
      (state.visited ++ fresh).Nodup ∧ (∀ i ∈ state.visited ++ fresh, i ∈ reached) ∧
      (∀ id ∈ fresh, (index.vectors id).isSome = true) ∧
      ∀ j ∈ index.edges current.2, (index.vectors j).isSome = true →
        j ∈ state.visited ++ fresh := by
  generalize hids : ((index.edges current.2).filter fun id => (index.vectors id).isSome) = ids
  obtain ⟨happended, hnodup, hnew, hall⟩ := visitNew_spec state.visited ids
  generalize hfresh : (visitNew state.visited ids).2 = fresh at happended hnodup hnew
  have hmem : ∀ {j}, j ∈ ids ↔ j ∈ index.edges current.2 ∧ (index.vectors j).isSome = true := by
    intro j
    rw [← hids]
    exact List.mem_filter
  have hlocated : ∀ id ∈ fresh, (index.vectors id).isSome = true :=
    fun id hid => (hmem.1 (hnew id hid).1).2
  have hvisitedCurrent : current.2 ∈ state.visited := by
    rw [← hcovering.results]
    exact List.mem_map_of_mem (hcovering.candidates current hcurrent)
  have hdistinct : (state.visited ++ fresh).Nodup := by
    refine List.nodup_append.2 ⟨hcovering.distinct, hnodup, ?_⟩
    rintro i hi _ hj rfl
    exact (hnew i hj).2 hi
  have hwithin : ∀ i ∈ state.visited ++ fresh, i ∈ reached := by
    intro i hi
    rcases List.mem_append.1 hi with hold | hi
    · exact hcovering.within i hold
    · exact hreached _ (hcovering.within _ hvisitedCurrent) i (hmem.1 (hnew i hi).1).1
        (hlocated i hi)
  refine ⟨fresh, ?_, hdistinct, hwithin, hlocated, fun j hj hvector => ?_⟩
  · have hcount : (state.visited ++ fresh).length ≤ reached.card := by
      rw [← List.toFinset_card_of_nodup hdistinct]
      exact Finset.card_le_card fun i hi => hwithin i (List.mem_toFinset.1 hi)
    have hnearest : state.nearest.length = state.visited.length := by
      rw [← hcovering.results, List.length_map]
    unfold considerAll
    simp only [hfresh, happended]
    rw [considerNeighbors_of_room]
    simp only [length_withVectors hlocated, hnearest]
    rw [List.length_append] at hcount
    omega
  · rw [← happended]
    exact hall j (hmem.2 ⟨hj, hvector⟩)

/-- One turn of the loop: the nearest candidate is expanded and nothing is dropped. -/
theorem Covering.expand (hreached : ∀ i ∈ reached, ∀ j ∈ index.edges i,
      (index.vectors j).isSome = true → j ∈ reached)
    (hroom : reached.card ≤ efSearch) {state : SearchState D}
    (hcovering : Covering index metric query start reached state) {current : D × Nat}
    (hcurrent : current ∈ state.candidates) :
    let state' := considerAll index.vectors metric query efSearch
      ((index.edges current.2).filter fun id => (index.vectors id).isSome)
      { state with candidates := state.candidates.erase current }
    Covering index metric query start reached state' ∧
      state'.candidates.length + state.visited.length + 1 =
        state.candidates.length + state'.visited.length := by
  intro state'
  obtain ⟨fresh, hstate', hdistinct, hwithin, hlocated, hall⟩ :=
    hcovering.considerAll_appends hreached hroom hcurrent
  have hentries : ((withVectors index.vectors fresh).map (entryOf metric query)).map Prod.snd =
      fresh := by
    rw [List.map_map]
    exact fst_withVectors hlocated
  rw [show state' = _ from hstate']
  refine ⟨⟨List.mem_append_left _ hcovering.started, hdistinct, hwithin, ?_, ?_, ?_, ?_⟩, ?_⟩
  · rw [List.map_append, hcovering.results, hentries]
  · intro x hx
    rcases List.mem_append.1 hx with hold | hx
    · exact hcovering.distances x hold
    · obtain ⟨neighbor, hneighbor, rfl⟩ := List.mem_map.1 hx
      exact ⟨neighbor.2, mem_withVectors hneighbor, rfl⟩
  · intro x hx
    rcases List.mem_append.1 hx with hold | hx
    · exact List.mem_append_left _ (hcovering.candidates x (List.mem_of_mem_erase hold))
    · exact List.mem_append_right _ hx
  · intro i hi hgone j hj hvector
    rcases List.mem_append.1 hi with hold | hi
    · by_cases heq : current.2 = i
      · -- The expanded node: all its located neighbors were marked.
        subst heq
        exact hall j hj hvector
      · refine List.mem_append_left _ (hcovering.expanded i hold ?_ j hj hvector)
        intro x hx hxi
        by_cases hsame : x = current
        · rw [hsame] at hxi
          exact heq hxi
        · exact hgone x (List.mem_append_left _ ((List.mem_erase_of_ne hsame).2 hx)) hxi
    · -- A new node waits in the queue.
      rw [← hentries] at hi
      obtain ⟨x, hx, hxi⟩ := List.mem_map.1 hi
      exact absurd hxi (hgone x (List.mem_append_right _ hx))
  · have herase := List.length_erase_of_mem hcurrent
    have hpositive := List.length_pos_of_mem hcurrent
    simp only [List.length_append, List.length_map, length_withVectors hlocated, herase]
    omega

/-- The loop ends with every reachable node among its results. -/
theorem Covering.plainLoop (hreached : ∀ i ∈ reached, ∀ j ∈ index.edges i,
      (index.vectors j).isSome = true → j ∈ reached)
    (hroom : reached.card ≤ efSearch) (fuel : Nat) {state : SearchState D}
    (hcovering : Covering index metric query start reached state)
    (hfuel : state.candidates.length + reached.card < fuel + state.visited.length) :
    ∃ state', plainLoop index.vectors index.edges metric query efSearch fuel state =
        .hits state' ∧
      Covering index metric query start reached state' ∧ state'.candidates = [] := by
  induction fuel generalizing state with
  | zero =>
      have hcount : state.visited.length ≤ reached.card := by
        rw [← List.toFinset_card_of_nodup hcovering.distinct]
        exact Finset.card_le_card fun i hi => hcovering.within i (List.mem_toFinset.1 hi)
      omega
  | succ fuel ih =>
      unfold LayerSearch.plainLoop
      cases htop : topOf nearer state.candidates with
      | none => exact ⟨state, rfl, hcovering, topOf_eq_none htop⟩
      | some current =>
          have hcurrent := topOf_mem htop
          -- The worst result is no nearer than any candidate.
          have hkept : (topOf farther state.nearest).any
              (fun worst => decide (worst.1 < current.1)) = false := by
            cases hworst : topOf farther state.nearest with
            | none => rfl
            | some worst =>
                have hle := le_topOf_farther hworst current
                  (hcovering.candidates current hcurrent)
                simpa using hle
          obtain ⟨hnext, hlength⟩ := hcovering.expand hreached hroom hcurrent
          simp only [hkept, Bool.false_eq_true, if_false]
          exact ih hnext (by omega)

/-- Once the queue is empty the visited nodes are the reachable ones. -/
theorem Covering.visited_iff {state : SearchState D}
    (hcovering : Covering index metric query start reached state)
    (hempty : state.candidates = []) (hreachable : ∀ i, i ∈ reached ↔ index.Reachable start i)
    (i : Nat) : i ∈ state.visited ↔ index.Reachable start i := by
  constructor
  · exact fun hi => (hreachable i).1 (hcovering.within i hi)
  · intro hi
    induction hi with
    | refl => exact hcovering.started
    | tail _ hedge ih =>
        refine hcovering.expanded _ ih (fun x hx => ?_) _ hedge.1 hedge.2
        rw [hempty] at hx
        cases hx

variable (metric query) in
theorem Covering.initial {vector : V} (hvector : index.vectors start = some vector)
    (hstart : start ∈ reached) :
    Covering index metric query start reached
      ⟨[start], [(metric.distance query vector, start)],
        [(metric.distance query vector, start)]⟩ where
  started := List.mem_cons_self
  distinct := List.nodup_singleton _
  within := by
    intro i hi
    rwa [List.mem_singleton.1 hi]
  results := rfl
  distances := by
    intro x hx
    rw [List.mem_singleton.1 hx]
    exact ⟨vector, hvector, rfl⟩
  candidates := fun _ hx => hx
  expanded := by
    intro i hi hgone
    rw [List.mem_singleton.1 hi] at hgone
    exact absurd rfl (hgone _ List.mem_cons_self)

end

/-- What an exact search returns: the nearest live reachable nodes, as many as there are up to
`k`, in the order of their distances. -/
structure ExactHits (index : Index V) (metric : Metric V D) (query : V) (k : Nat)
    (reached : Finset Nat) (hits : List (D × Nat)) : Prop where
  sorted : hits.Pairwise fun a b => a.1 ≤ b.1
  distinct : (hits.map Prod.snd).Nodup
  length : hits.length = min k (reached.filter fun i => index.tombstoned i = false).card
  live : ∀ hit ∈ hits, hit.2 ∈ reached ∧ index.tombstoned hit.2 = false ∧
    ∃ vector, index.vectors hit.2 = some vector ∧ hit.1 = metric.distance query vector
  nearest : ∀ i ∈ reached, index.tombstoned i = false → i ∉ hits.map Prod.snd →
    ∀ vector, index.vectors i = some vector →
      ∀ hit ∈ hits, ¬ metric.distance query vector < hit.1

section

variable {index : Index V} {metric : Metric V D} {query : V} {start : Nat}
  {reached : Finset Nat}

/-- The first live results of a search that found every reachable node. -/
theorem Covering.exactHits {state : SearchState D}
    (hcovering : Covering index metric query start reached state)
    (hall : ∀ i, i ∈ state.visited ↔ i ∈ reached) (k : Nat) :
    ExactHits index metric query k reached
      (((metric.sort state.nearest).filter fun x => !index.tombstoned x.2).take k) := by
  have hperm := metric.sort_perm state.nearest
  have hsorted := metric.sort_sorted state.nearest
  generalize metric.sort state.nearest = results at hperm hsorted
  have hids : (results.map Prod.snd).Perm state.visited := by
    rw [← hcovering.results]
    exact hperm.map _
  have hnodup : (results.map Prod.snd).Nodup := hids.nodup_iff.2 hcovering.distinct
  have hmem : ∀ x ∈ results, x.2 ∈ reached := fun x hx =>
    (hall x.2).1 (hids.mem_iff.1 (List.mem_map_of_mem hx))
  generalize hlive : results.filter (fun x => !index.tombstoned x.2) = live
  have hsub : live.Sublist results := hlive ▸ List.filter_sublist
  have hliveMem : ∀ x, x ∈ live ↔ x ∈ results ∧ index.tombstoned x.2 = false := by
    intro x
    rw [← hlive, List.mem_filter]
    simp
  have hliveNodup : (live.map Prod.snd).Nodup := (hsub.map Prod.snd).nodup hnodup
  have hcard : live.length = (reached.filter fun i => index.tombstoned i = false).card := by
    have hset : (live.map Prod.snd).toFinset =
        reached.filter fun i => index.tombstoned i = false := by
      ext i
      rw [List.mem_toFinset, Finset.mem_filter]
      constructor
      · intro hi
        obtain ⟨x, hx, rfl⟩ := List.mem_map.1 hi
        obtain ⟨hresult, halive⟩ := (hliveMem x).1 hx
        exact ⟨hmem x hresult, halive⟩
      · rintro ⟨hi, halive⟩
        have hvisited := hids.mem_iff.2 ((hall i).2 hi)
        obtain ⟨x, hx, rfl⟩ := List.mem_map.1 hvisited
        exact List.mem_map_of_mem ((hliveMem x).2 ⟨hx, halive⟩)
    rw [← hset, List.toFinset_card_of_nodup hliveNodup, List.length_map]
  have hliveSorted : live.Pairwise fun a b => a.1 ≤ b.1 := hsorted.sublist hsub
  refine ⟨hliveSorted.sublist (List.take_sublist k live), ?_, ?_, ?_, ?_⟩
  · exact ((List.take_sublist k live).map Prod.snd).nodup hliveNodup
  · rw [List.length_take, hcard]
  · intro hit hhit
    obtain ⟨hresult, halive⟩ := (hliveMem hit).1 (List.mem_of_mem_take hhit)
    exact ⟨hmem hit hresult, halive, hcovering.distances hit (hperm.mem_iff.1 hresult)⟩
  · intro i hi halive hout vector hvector hit hhit
    -- The node is a live result that was cut off behind the first `k`.
    have hvisited := hids.mem_iff.2 ((hall i).2 hi)
    obtain ⟨x, hx, rfl⟩ := List.mem_map.1 hvisited
    obtain ⟨found, hfound, hdistance⟩ := hcovering.distances x (hperm.mem_iff.1 hx)
    rw [hvector] at hfound
    cases hfound
    have hxlive := (hliveMem x).2 ⟨hx, halive⟩
    rw [← List.take_append_drop k live] at hxlive hliveSorted
    have hxdrop : x ∈ live.drop k := by
      rcases List.mem_append.1 hxlive with htake | hdrop
      · exact absurd (List.mem_map_of_mem htake) hout
      · exact hdrop
    have hle := (List.pairwise_append.1 hliveSorted).2.2 hit hhit x hxdrop
    rw [← hdistance]
    exact not_lt.2 hle

/-- A search whose list has room for every node reachable from the end of the descent returns
the nearest live ones exactly, in either mode. -/
theorem knnSearchK_exact (index : Index V) (metric : Metric V D) (enableBatchRead : Bool)
    (descent : Nat → Nat) (query : V) (k efSearch : Int) {ep : Nat}
    (hentry : index.entryPoint = some ep)
    (hlocated : (index.vectors (descent ep)).isSome = true) (reached : Finset Nat)
    (hreachable : ∀ i, i ∈ reached ↔ index.Reachable (descent ep) i)
    (hroom : (reached.card : Int) ≤ max efSearch k) {fuel : Nat} (hfuel : reached.card < fuel) :
    ∃ hits, index.knnSearchK metric enableBatchRead descent fuel query k efSearch =
        .hits hits ∧
      ExactHits index metric query k.toNat reached hits := by
  obtain ⟨vector, hvector⟩ := Option.isSome_iff_exists.1 hlocated
  unfold Index.knnSearchK
  rw [hentry]
  simp only
  split
  · rename_i hk
    have hzero : k.toNat = 0 := by omega
    refine ⟨[], rfl, .nil, List.nodup_nil, ?_, ?_, ?_⟩
    · simp [hzero]
    · rintro hit ⟨⟩
    · rintro i - - - vector - hit ⟨⟩
  · rename_i hk
    have hsearch := ((reads_memory index.vectors).searchLayer index.edges metric query
      enableBatchRead fuel (descent ep) (max efSearch k) rfl).1
    have hclosed : ∀ i ∈ reached, ∀ j ∈ index.edges i,
        (index.vectors j).isSome = true → j ∈ reached := by
      intro i hi j hj hvector
      exact (hreachable j).2 (((hreachable i).1 hi).tail ⟨hj, hvector⟩)
    have hstart : descent ep ∈ reached := (hreachable _).2 .refl
    have hroom' : reached.card ≤ (max efSearch k).toNat := by omega
    obtain ⟨state, hloop, hcovering, hempty⟩ :=
      (Covering.initial metric query hvector hstart).plainLoop hclosed hroom' fuel
        (by simp; omega)
    have hall : ∀ i, i ∈ state.visited ↔ i ∈ reached := fun i =>
      (hcovering.visited_iff hempty hreachable i).trans (hreachable i).symm
    rw [hsearch]
    unfold plainSearch
    rw [if_neg (by omega), hvector]
    simp only [hloop, SearchEnd.map]
    refine ⟨_, rfl, ?_⟩
    rw [takeLive_eq (by simp; omega)]
    exact hcovering.exactHits hall k.toNat

end

/-- Two located nodes and an edge to one without a vector; the first node is deleted. -/
def deletedEntry : Index Nat where
  edges i := if i = 0 then [2, 1] else []
  vectors i := if i < 2 then some (10 * i) else none
  tombstoned i := i == 0
  entryPoint := some 0

theorem deletedEntry_reachable (i : Nat) :
    i ∈ ({0, 1} : Finset Nat) ↔ deletedEntry.Reachable 0 i := by
  constructor
  · intro hi
    rcases Finset.mem_insert.1 hi with rfl | hi
    · exact .refl
    · rw [Finset.mem_singleton.1 hi]
      exact .single ⟨by decide, rfl⟩
  · intro hi
    induction hi with
    | refl => decide
    | @tail _ j _ hedge _ =>
        have hlt : j < 2 := by
          by_contra hge
          have hvector := hedge.2
          have hnone : deletedEntry.vectors j = none := if_neg hge
          rw [hnone] at hvector
          cases hvector
        rcases (by omega : j = 0 ∨ j = 1) with rfl | rfl <;> decide

theorem deletedEntry_exact :
    ∃ hits, deletedEntry.knnSearchK onLine true id 3 4 5 2 = .hits hits ∧
      ExactHits deletedEntry onLine 4 5 {0, 1} hits :=
  knnSearchK_exact deletedEntry onLine true id 4 5 2 rfl rfl {0, 1} deletedEntry_reachable
    (by decide) (by decide)

end AsterVec.LayerSearch

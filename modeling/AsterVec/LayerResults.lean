import AsterVec.ExactSearch

/-!
What a layer search returns: nodes that its walk can reach, each once.  A search whose walk
stays among nodes with a vector never throws.
-/

namespace AsterVec.LayerSearch

open AsterVec.Dense

/-- The call did not throw, and a result it gave is as said. -/
def Safe {α : Type} (P : α → Prop) : SearchEnd α → Prop
  | .hits value => P value
  | .threw => False
  | _ => True

theorem Safe.mono {α : Type} {P Q : α → Prop} {found : SearchEnd α} (hfound : Safe P found)
    (hmono : ∀ value, P value → Q value) : Safe Q found := by
  cases found with
  | hits value => exact hmono value hfound
  | threw => exact hfound.elim
  | invalidArgument => trivial
  | exhausted => trivial

theorem Safe.of_hits {α : Type} {P : α → Prop} {found : SearchEnd α} {value : α}
    (hfound : Safe P found) (hcall : found = .hits value) : P value := by
  rw [hcall] at hfound
  exact hfound

theorem Safe.ne_threw {α : Type} {P : α → Prop} {found : SearchEnd α} (hfound : Safe P found) :
    found ≠ .threw := by
  rintro rfl
  exact hfound

theorem Safe.map {α β : Type} {f : α → β} {Q : β → Prop} {found : SearchEnd α}
    (hfound : Safe (fun value => Q (f value)) found) : Safe Q (found.map f) := by
  cases found with
  | hits value => exact hfound
  | threw => exact hfound.elim
  | invalidArgument => trivial
  | exhausted => trivial

def isHits {α : Type} : SearchEnd α → Bool
  | .hits _ => true
  | _ => false

/-- The value of a call, or `other` when it gave none. -/
def valueOr {α : Type} (other : α) : SearchEnd α → α
  | .hits value => value
  | _ => other

theorem eq_hits_valueOr {α : Type} {found : SearchEnd α} (hfound : isHits found = true)
    (other : α) : found = .hits (valueOr other found) := by
  cases found with
  | hits value => rfl
  | threw => cases hfound
  | invalidArgument => cases hfound
  | exhausted => cases hfound

/-- The ids of results differ and satisfy `P`. -/
def Distinct {D : Type} (P : Nat → Prop) (results : List (D × Nat)) : Prop :=
  (results.map Prod.snd).Nodup ∧ ∀ result ∈ results, P result.2

variable {V D : Type} [LinearOrder D] {metric : Metric V D} {query : V} {efSearch : Nat}
  {vectors : Nat → Option V} {edges : Nat → List Nat}

/-- The queues hold nodes that satisfy `P` and were visited, the results each once. -/
structure Tracked (P : Nat → Prop) (state : SearchState D) : Prop where
  visited : ∀ id ∈ state.visited, P id
  candidates : ∀ cand ∈ state.candidates, P cand.2
  nearest : ∀ result ∈ state.nearest, result.2 ∈ state.visited
  nodup : (state.nearest.map Prod.snd).Nodup

theorem considerNeighbors_sublist (metric : Metric V D) (query : V) (efSearch : Nat)
    (neighbors : List (Nat × V)) (state : SearchState D) :
    let after := neighbors.foldl (considerNeighbor metric query efSearch) state
    after.visited = state.visited ∧
      after.candidates.Sublist (state.candidates ++ neighbors.map (entryOf metric query)) ∧
      after.nearest.Sublist (state.nearest ++ neighbors.map (entryOf metric query)) := by
  induction neighbors generalizing state with
  | nil => simp
  | cons neighbor neighbors ih =>
      have hone : (considerNeighbor metric query efSearch state neighbor).visited =
            state.visited ∧
          (considerNeighbor metric query efSearch state neighbor).candidates.Sublist
            (state.candidates ++ [entryOf metric query neighbor]) ∧
          (considerNeighbor metric query efSearch state neighbor).nearest.Sublist
            (state.nearest ++ [entryOf metric query neighbor]) := by
        unfold considerNeighbor
        simp only
        split
        · exact ⟨rfl, List.Sublist.refl _, pushCapped_sublist⟩
        · exact ⟨rfl, List.sublist_append_left _ _, List.sublist_append_left _ _⟩
      obtain ⟨hvisited, hcandidates, hnearest⟩ :=
        ih (considerNeighbor metric query efSearch state neighbor)
      refine ⟨hvisited.trans hone.1, ?_, ?_⟩
      · simpa using hcandidates.trans (hone.2.1.append_right _)
      · simpa using hnearest.trans (hone.2.2.append_right _)

theorem fst_withVectors_sublist (vectors : Nat → Option V) (ids : List Nat) :
    ((withVectors vectors ids).map Prod.fst).Sublist ids := by
  induction ids with
  | nil => exact List.Sublist.refl _
  | cons id ids ih =>
      cases hvector : vectors id with
      | none => simpa [withVectors, hvector] using ih.cons id
      | some vector => simpa [withVectors, hvector] using ih

theorem Tracked.considerAll {P : Nat → Prop} {state : SearchState D} {ids : List Nat}
    (htracked : Tracked P state) (hids : ∀ id ∈ ids, P id) :
    Tracked P (considerAll vectors metric query efSearch ids state) := by
  obtain ⟨happended, hnodup, hnew, -⟩ := visitNew_spec state.visited ids
  unfold LayerSearch.considerAll
  generalize hfresh : (visitNew state.visited ids).2 = fresh at happended hnodup hnew ⊢
  obtain ⟨hvisited, hcandidates, hnearest⟩ := considerNeighbors_sublist metric query efSearch
    (withVectors vectors fresh)
    { state with visited := (visitNew state.visited ids).1 }
  have hentries : ((withVectors vectors fresh).map (entryOf metric query)).map Prod.snd =
      (withVectors vectors fresh).map Prod.fst := by
    rw [List.map_map]
    rfl
  have hsub := fst_withVectors_sublist vectors fresh
  have hentry : ∀ entry ∈ (withVectors vectors fresh).map (entryOf metric query),
      entry.2 ∈ fresh := by
    intro entry hentry
    exact hsub.subset (hentries ▸ List.mem_map_of_mem hentry)
  refine ⟨?_, ?_, ?_, ?_⟩
  · intro id hid
    rw [hvisited, happended] at hid
    rcases List.mem_append.1 hid with hold | hid
    · exact htracked.visited id hold
    · exact hids id (hnew id hid).1
  · intro cand hcand
    rcases List.mem_append.1 (hcandidates.subset hcand) with hold | hcand
    · exact htracked.candidates cand hold
    · exact hids _ (hnew _ (hentry cand hcand)).1
  · intro result hresult
    rw [hvisited, happended]
    rcases List.mem_append.1 (hnearest.subset hresult) with hold | hresult
    · exact List.mem_append_left _ (htracked.nearest result hold)
    · exact List.mem_append_right _ (hentry result hresult)
  · refine (hnearest.map Prod.snd).nodup ?_
    rw [List.map_append, hentries]
    refine htracked.nodup.append (hsub.nodup hnodup) fun id hold hid => ?_
    obtain ⟨result, hresult, rfl⟩ := List.mem_map.1 hold
    exact (hnew _ (hsub.subset hid)).2 (htracked.nearest result hresult)

theorem Tracked.plainLoop {P : Nat → Prop}
    (hedges : ∀ v, P v → ∀ w ∈ edges v, (vectors w).isSome = true → P w) (fuel : Nat)
    {state : SearchState D} (htracked : Tracked P state) :
    Safe (Tracked P) (plainLoop vectors edges metric query efSearch fuel state) := by
  induction fuel generalizing state with
  | zero => trivial
  | succ fuel ih =>
      unfold LayerSearch.plainLoop
      cases htop : topOf nearer state.candidates with
      | none => exact htracked
      | some current =>
          have herased : Tracked P { state with candidates := state.candidates.erase current } :=
            ⟨htracked.visited, fun cand hcand => htracked.candidates cand
              (List.mem_of_mem_erase hcand), htracked.nearest, htracked.nodup⟩
          have hcurrent : P current.2 := htracked.candidates current (topOf_mem htop)
          simp only
          split
          · exact herased
          · exact ih (herased.considerAll fun id hid =>
              hedges _ hcurrent id (List.mem_filter.1 hid).1 (List.mem_filter.1 hid).2)

omit [LinearOrder D] in
theorem Tracked.initial {P : Nat → Prop} {start : Nat} (hstart : P start) (d : D) :
    Tracked P ⟨[start], [(d, start)], [(d, start)]⟩ := by
  refine ⟨?_, ?_, ?_, List.nodup_singleton _⟩
  · simpa using hstart
  · simpa using hstart
  · simp

variable (metric query efSearch vectors) in
/-- A turn gains at most one candidate for each node it marks. -/
theorem considerAll_counts (state : SearchState D) (ids : List Nat) :
    let after := considerAll vectors metric query efSearch ids state
    ∃ fresh, after.visited = state.visited ++ fresh ∧ fresh.Nodup ∧
      (∀ id ∈ fresh, id ∈ ids ∧ id ∉ state.visited) ∧
      after.candidates.length ≤ state.candidates.length + fresh.length := by
  obtain ⟨happended, hnodup, hnew, -⟩ := visitNew_spec state.visited ids
  obtain ⟨hvisited, hcandidates, -⟩ := considerNeighbors_sublist metric query efSearch
    (withVectors vectors (visitNew state.visited ids).2)
    { state with visited := (visitNew state.visited ids).1 }
  refine ⟨_, hvisited.trans happended, hnodup, hnew, ?_⟩
  have hfresh := (fst_withVectors_sublist vectors (visitNew state.visited ids).2).length_le
  have hlength := hcandidates.length_le
  rw [List.length_map] at hfresh
  rw [List.length_append, List.length_map] at hlength
  exact Nat.le_trans hlength (Nat.add_le_add_left hfresh _)

/-- With a turn for every node that has a vector the loop ends. -/
theorem plainLoop_ends {located : Finset Nat}
    (hlocated : ∀ id, (vectors id).isSome = true → id ∈ located) (fuel : Nat)
    {state : SearchState D} (hnodup : state.visited.Nodup)
    (hwithin : ∀ id ∈ state.visited, id ∈ located)
    (hfuel : state.candidates.length + located.card < fuel + state.visited.length) :
    ∃ state', plainLoop vectors edges metric query efSearch fuel state = .hits state' := by
  induction fuel generalizing state with
  | zero =>
      have hcount : state.visited.length ≤ located.card := by
        rw [← List.toFinset_card_of_nodup hnodup]
        exact Finset.card_le_card fun id hid => hwithin id (List.mem_toFinset.1 hid)
      omega
  | succ fuel ih =>
      unfold LayerSearch.plainLoop
      cases htop : topOf nearer state.candidates with
      | none => exact ⟨state, rfl⟩
      | some current =>
          simp only
          split
          · exact ⟨_, rfl⟩
          · obtain ⟨fresh, hvisited, hfreshNodup, hfresh, hcount⟩ := considerAll_counts
              metric query efSearch vectors
              { state with candidates := state.candidates.erase current }
              ((edges current.2).filter fun id => (vectors id).isSome)
            have herase := List.length_erase_of_mem (topOf_mem htop)
            have hpositive := List.length_pos_of_mem (topOf_mem htop)
            refine ih ?_ ?_ ?_
            · rw [hvisited]
              exact hnodup.append hfreshNodup fun id hold hid => (hfresh id hid).2 hold
            · rw [hvisited]
              intro id hid
              rcases List.mem_append.1 hid with hold | hid
              · exact hwithin id hold
              · exact hlocated id (List.mem_filter.1 (hfresh id hid).1).2
            · simp only [hvisited, List.length_append]
              simp only [herase] at hcount
              omega

theorem plainSearch_ends {located : Finset Nat} {start fuel : Nat}
    (hlocated : ∀ id, (vectors id).isSome = true → id ∈ located)
    (hstart : (vectors start).isSome = true) (hfuel : located.card < fuel) (ef : Int) :
    ∃ results, plainSearch vectors edges metric query fuel start ef = .hits results := by
  obtain ⟨vector, hvector⟩ := Option.isSome_iff_exists.1 hstart
  unfold plainSearch
  split
  · exact ⟨[], rfl⟩
  · have hends : ∃ state, plainLoop vectors edges metric query ef.toNat fuel
        ⟨[start], [(metric.distance query vector, start)],
          [(metric.distance query vector, start)]⟩ = .hits state :=
      plainLoop_ends hlocated fuel (List.nodup_singleton _)
        (by simpa using hlocated start hstart) (by simpa using by omega)
    obtain ⟨state, hstate⟩ := hends
    rw [hvector]
    simp only [hstate]
    exact ⟨_, rfl⟩

theorem distinct_sort {P : Nat → Prop} {results : List (D × Nat)}
    (hresults : Distinct P results) (metric : Metric V D) : Distinct P (metric.sort results) :=
  ⟨((metric.sort_perm results).map Prod.snd).nodup_iff.2 hresults.1,
    fun result hresult => hresults.2 result ((metric.sort_perm results).mem_iff.1 hresult)⟩

/-- A search from a node with a vector does not throw, and what it returns satisfies every
property that the walk keeps. -/
theorem safe_plainSearch {P : Nat → Prop} {start : Nat}
    (hedges : ∀ v, P v → ∀ w ∈ edges v, (vectors w).isSome = true → P w) (hstart : P start)
    (hvector : (vectors start).isSome = true) (fuel : Nat) (ef : Int) :
    Safe (Distinct P) (plainSearch vectors edges metric query fuel start ef) := by
  obtain ⟨vector, hvector⟩ := Option.isSome_iff_exists.1 hvector
  unfold plainSearch
  rw [hvector]
  split
  · exact ⟨List.nodup_nil, by simp⟩
  · refine Safe.map ((Tracked.plainLoop hedges fuel
      (Tracked.initial hstart (metric.distance query vector))).mono fun state hstate => ?_)
    exact distinct_sort ⟨hstate.nodup, fun result hresult =>
      hstate.visited _ (hstate.nearest result hresult)⟩ metric

/-- A reader that finds the vectors reads one by one as the memory does. -/
theorem readOneByOne_eq_memory (reader : Reader (Nat → Option V) V)
    (hread : ∀ id, reader.readVector id vectors = (vectors id, vectors)) (ids : List Nat)
    (state : SearchState D) :
    readOneByOne reader metric query efSearch ids state vectors =
      readOneByOne (memory V) metric query efSearch ids state vectors := by
  induction ids generalizing state with
  | nil => rfl
  | cons id ids ih =>
      unfold readOneByOne
      rw [hread id, show (memory V).readVector id vectors = (vectors id, vectors) from rfl]
      split
      · exact ih state
      · cases vectors id with
        | none => rfl
        | some vector => exact ih _

/-- Where every neighbor has a vector, a reader that asks for no location searches as the
vectors themselves are searched. -/
theorem searchLoop_unfiltered (reader : Reader (Nat → Option V) V)
    (hlocation : ∀ id, reader.hasLocation vectors id = true)
    (hread : ∀ id, reader.readVector id vectors = (vectors id, vectors))
    (hedges : ∀ v, ∀ w ∈ edges v, (vectors w).isSome = true) (fuel : Nat)
    (state : SearchState D) :
    (searchLoop reader edges metric query efSearch false fuel state vectors).1 =
      plainLoop vectors edges metric query efSearch fuel state := by
  induction fuel generalizing state with
  | zero => rfl
  | succ fuel ih =>
      unfold searchLoop plainLoop
      cases topOf nearer state.candidates with
      | none => rfl
      | some current =>
          simp only
          split
          · rfl
          · have hall : getEdgesCached reader edges current.2 vectors = edges current.2 :=
              List.filter_eq_self.2 fun id _ => hlocation id
            have hfiltered : (edges current.2).filter (fun id => (vectors id).isSome) =
                edges current.2 := List.filter_eq_self.2 (hedges current.2)
            generalize { state with candidates := state.candidates.erase current } =
              popped
            obtain ⟨hone, hkeeps⟩ : (readOneByOne (memory V) metric query efSearch
                (edges current.2) popped vectors).1 = some (considerAll vectors metric query
                  efSearch (edges current.2) popped) ∧ _ :=
              (reads_memory vectors).readOneByOne metric query efSearch (hedges current.2) rfl
            rw [hall, hfiltered]
            unfold readNeighbors
            rw [if_neg (by simp), readOneByOne_eq_memory reader hread]
            generalize readOneByOne (memory V) metric query efSearch (edges current.2) popped
              vectors = read at hone hkeeps
            obtain ⟨found, after⟩ := read
            simp only at hone hkeeps
            rw [hone, hkeeps]
            exact ih _

theorem searchLayer_unfiltered (reader : Reader (Nat → Option V) V)
    (hlocation : ∀ id, reader.hasLocation vectors id = true)
    (hread : ∀ id, reader.readVector id vectors = (vectors id, vectors))
    (hedges : ∀ v, ∀ w ∈ edges v, (vectors w).isSome = true) (fuel start : Nat) (ef : Int) :
    (searchLayer reader edges metric query false fuel start ef vectors).1 =
      plainSearch vectors edges metric query fuel start ef := by
  unfold searchLayer plainSearch
  rw [hread start]
  split
  · rfl
  · cases vectors start with
    | none => rfl
    | some vector =>
        exact congrArg (SearchEnd.map fun state : SearchState D => metric.sort state.nearest)
          (searchLoop_unfiltered reader hlocation hread hedges fuel _)

end AsterVec.LayerSearch

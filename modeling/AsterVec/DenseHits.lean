import AsterVec.DenseMatches

/-!
What a search over a store at rest returns: distinct points that `Get` finds, with
their distances in order.
-/

namespace AsterVec.Dense

open AsterVec.IdTypes
open AsterVec.Programs
open Prog

variable {V Row D : Type} [LinearOrder D]

/-! The unfiltered loop -/

section Walk

variable {metric : Metric V D} {query : V} {efSearch : Nat} {st : State V Row}
  {start : Nat}

/-- What holds of the lists of the loop. -/
structure Walked (metric : Metric V D) (query : V) (st : State V Row) (start : Nat)
    (state : SearchState D) : Prop where
  distinct : state.visited.Nodup
  reached : ∀ i ∈ state.visited, Reachable st start i
  candidates : ∀ x ∈ state.candidates, x.2 ∈ state.visited
  nearest : ∀ x ∈ state.nearest, x.2 ∈ state.visited ∧
    ∃ vector, st.vectors x.2 = some vector ∧ x.1 = metric.distance query vector
  nodup : (state.nearest.map Prod.snd).Nodup

theorem walked_start (metric : Metric V D) (query : V) {vector : V}
    (hvector : st.vectors start = some vector) :
    let d := metric.distance query vector
    Walked metric query st start ⟨[start], [(d, start)], [(d, start)]⟩ := by
  intro d
  refine ⟨List.nodup_singleton _, ?_, ?_, ?_, List.nodup_singleton _⟩
  · intro i hi
    rw [List.mem_singleton.mp hi]
    exact .refl
  · intro x hx
    rw [List.mem_singleton.mp hx]
    exact List.mem_cons_self
  · intro x hx
    rw [List.mem_singleton.mp hx]
    exact ⟨List.mem_cons_self, vector, hvector, rfl⟩

/-- The new ids are appended to both lists. -/
theorem foldl_visit_eq (ids visited fresh : List Nat) :
    ∃ more : List Nat, ids.foldl (fun (visited, fresh) id =>
        if visited.contains id then (visited, fresh) else (visited ++ [id], fresh ++ [id]))
        (visited, fresh) = (visited ++ more, fresh ++ more) ∧ more.Nodup ∧
      ∀ i ∈ more, i ∈ ids ∧ i ∉ visited := by
  induction ids generalizing visited fresh with
  | nil => exact ⟨[], by simp, List.nodup_nil, fun i hi => by cases hi⟩
  | cons id ids ih =>
      rw [List.foldl_cons]
      simp only
      split
      · obtain ⟨more, heq, hnodup, hnew⟩ := ih visited fresh
        refine ⟨more, heq, hnodup, fun i hi => ?_⟩
        exact ⟨List.mem_cons_of_mem _ (hnew i hi).1, (hnew i hi).2⟩
      · rename_i hunseen
        obtain ⟨more, heq, hnodup, hnew⟩ := ih (visited ++ [id]) (fresh ++ [id])
        refine ⟨id :: more, ?_, ?_, ?_⟩
        · rw [heq, List.append_assoc, List.append_assoc]
          rfl
        · refine List.nodup_cons.mpr ⟨fun hmem => (hnew id hmem).2 ?_, hnodup⟩
          exact List.mem_append_right _ List.mem_cons_self
        · intro i hi
          rcases List.mem_cons.mp hi with rfl | hi
          · exact ⟨List.mem_cons_self, fun hmem =>
              hunseen (List.contains_iff_mem.mpr hmem)⟩
          · exact ⟨List.mem_cons_of_mem _ (hnew i hi).1, fun hmem =>
              (hnew i hi).2 (List.mem_append_left _ hmem)⟩

theorem visitNew_eq (visited ids : List Nat) :
    ∃ fresh : List Nat, visitNew visited ids = (visited ++ fresh, fresh) ∧ fresh.Nodup ∧
      ∀ i ∈ fresh, i ∈ ids ∧ i ∉ visited := by
  obtain ⟨fresh, heq, hrest⟩ := foldl_visit_eq ids visited []
  exact ⟨fresh, heq, hrest⟩

omit [LinearOrder D] in
theorem reads_readAll (ids : List Nat) (hlocated : ∀ i ∈ ids, Located st i) :
    Reads st (readAll ids) fun out => ∃ found : List (Nat × V), out = some found ∧
      found.map Prod.fst = ids ∧ ∀ n ∈ found, st.vectors n.1 = some n.2 := by
  induction ids with
  | nil => exact .done ⟨[], rfl, rfl, fun n hn => by cases hn⟩
  | cons id ids ih =>
      unfold readAll
      apply Reads.call (c := .readVector id) rfl
      obtain ⟨vector, hvector⟩ := Option.isSome_iff_exists.mp (hlocated id List.mem_cons_self)
      rw [show (exec (.readVector id) st).1 = some vector from hvector]
      apply Reads.bind
      apply (ih fun i hi => hlocated i (List.mem_cons_of_mem _ hi)).mono
      rintro _ ⟨found, rfl, hids, hread⟩
      refine .done ⟨(id, vector) :: found, rfl, ?_, List.forall_mem_cons.mpr ⟨hvector, hread⟩⟩
      rw [List.map_cons, hids]

theorem Walked.considerNeighbor (efSearch : Nat) {state : SearchState D}
    (hwalked : Walked metric query st start state) {neighbor : Nat × V}
    (hvisited : neighbor.1 ∈ state.visited)
    (hnew : neighbor.1 ∉ state.nearest.map Prod.snd)
    (hvector : st.vectors neighbor.1 = some neighbor.2) :
    Walked metric query st start (considerNeighbor metric query efSearch state neighbor) := by
  unfold Dense.considerNeighbor
  simp only
  split
  · refine ⟨hwalked.distinct, hwalked.reached, ?_, ?_, ?_⟩
    · intro x hx
      rcases List.mem_append.mp hx with hold | hmem
      · exact hwalked.candidates x hold
      · rw [List.mem_singleton.mp hmem]
        exact hvisited
    · intro x hx
      rcases List.mem_append.mp (pushCapped_sublist.subset hx) with hold | hmem
      · exact hwalked.nearest x hold
      · rw [List.mem_singleton.mp hmem]
        exact ⟨hvisited, neighbor.2, hvector, rfl⟩
    · refine (pushCapped_sublist.map Prod.snd).nodup ?_
      rw [List.map_append]
      refine List.nodup_append.mpr ⟨hwalked.nodup, List.nodup_singleton _, ?_⟩
      rintro i hi _ hmem rfl
      obtain rfl := List.mem_singleton.mp hmem
      exact hnew hi
  · exact hwalked

/-- The neighbors that were read are considered in turn. -/
theorem Walked.considerNeighbors (efSearch : Nat) (neighbors : List (Nat × V))
    {state : SearchState D}
    (hwalked : Walked metric query st start state)
    (hdistinct : (neighbors.map Prod.fst).Nodup)
    (hvisited : ∀ n ∈ neighbors, n.1 ∈ state.visited)
    (hnew : ∀ n ∈ neighbors, n.1 ∉ state.nearest.map Prod.snd)
    (hread : ∀ n ∈ neighbors, st.vectors n.1 = some n.2) :
    let state' := neighbors.foldl (Dense.considerNeighbor metric query efSearch) state
    Walked metric query st start state' ∧ state'.visited = state.visited ∧
      state'.candidates.length ≤ state.candidates.length + neighbors.length := by
  induction neighbors generalizing state with
  | nil => exact ⟨hwalked, rfl, le_refl _⟩
  | cons first neighbors ih =>
      have hfirst := hwalked.considerNeighbor efSearch
        (hvisited first List.mem_cons_self) (hnew first List.mem_cons_self)
        (hread first List.mem_cons_self)
      have hsame : (Dense.considerNeighbor metric query efSearch state first).visited =
          state.visited := by
        unfold Dense.considerNeighbor
        simp only
        split <;> rfl
      have hcandidates :
          (Dense.considerNeighbor metric query efSearch state first).candidates.length ≤
            state.candidates.length + 1 := by
        unfold Dense.considerNeighbor
        simp only
        split
        · rw [List.length_append, List.length_singleton]
        · exact Nat.le_succ _
      rw [List.map_cons, List.nodup_cons] at hdistinct
      obtain ⟨hrest, hkept, hlength⟩ := ih hfirst hdistinct.2
        (fun n hn => by
          rw [hsame]
          exact hvisited n (List.mem_cons_of_mem _ hn))
        (fun n hn hmem => by
          obtain ⟨x, hx, hxn⟩ := List.mem_map.mp hmem
          rcases mem_nearest_considerNeighbor hx with hold | rfl
          · apply hnew n (List.mem_cons_of_mem _ hn)
            rw [← hxn]
            exact List.mem_map_of_mem hold
          · apply hdistinct.1
            rw [show first.1 = n.1 from hxn]
            exact List.mem_map_of_mem hn)
        fun n hn => hread n (List.mem_cons_of_mem _ hn)
      refine ⟨hrest, hkept.trans hsame, ?_⟩
      rw [List.length_cons]
      exact hlength.trans (by omega)

theorem reads_searchLoop (efSearch : Nat) (hlinked : Linked st)
    (hstart : Located st start) (fuel : Nat) {state : SearchState D}
    (hwalked : Walked metric query st start state) :
    Reads st (searchLoop metric query efSearch fuel state) fun out =>
      (∀ state', out = .hits state' → Walked metric query st start state') ∧
        out ≠ .threw ∧ out ≠ .invalidArgument ∧
        (state.candidates.length + hlinked.finite.toFinset.card <
          fuel + state.visited.length → out ≠ .exhausted) := by
  induction fuel generalizing state with
  | zero =>
      have hbound := hlinked.visited_length_le hstart hwalked.distinct hwalked.reached
      refine ⟨rfl, by rintro _ ⟨⟩, by rintro ⟨⟩, by rintro ⟨⟩, fun hfuel => ?_⟩
      omega
  | succ fuel ih =>
      unfold searchLoop
      cases htop : topOf nearer state.candidates with
      | none =>
          refine .done ⟨?_, by rintro ⟨⟩, by rintro ⟨⟩, fun _ => by rintro ⟨⟩⟩
          rintro _ ⟨⟩
          exact hwalked
      | some current =>
          have hcurrent := topOf_mem htop
          have htaken : Walked metric query st start
              { state with candidates := state.candidates.erase current } :=
            { hwalked with
              candidates := fun x hx => hwalked.candidates x (List.mem_of_mem_erase hx) }
          simp only
          split
          · refine .done ⟨?_, by rintro ⟨⟩, by rintro ⟨⟩, fun _ => by rintro ⟨⟩⟩
            rintro _ ⟨⟩
            exact htaken
          · apply Reads.call (c := .getEdges current.2) rfl
            have hreach := hwalked.reached _ (hwalked.candidates current hcurrent)
            obtain ⟨fresh, hfresh, hnodup, hnew⟩ :=
              visitNew_eq state.visited (st.edges current.2)
            rw [show (exec (.getEdges current.2) st).1 = st.edges current.2 from rfl, hfresh]
            apply Reads.bind
            apply (reads_readAll fresh fun i hi => hlinked.edges _ i (hnew i hi).1).mono
            rintro _ ⟨found, rfl, hids, hread⟩
            have hmem : ∀ n ∈ found, n.1 ∈ fresh := fun n hn =>
              hids ▸ List.mem_map_of_mem hn
            have hwider : Walked metric query st start
                ⟨state.visited ++ fresh, state.candidates.erase current, state.nearest⟩ := by
              refine ⟨?_, ?_, ?_, ?_, hwalked.nodup⟩
              · refine List.nodup_append.mpr ⟨hwalked.distinct, hnodup, ?_⟩
                rintro i hi _ hj rfl
                exact (hnew i hj).2 hi
              · intro i hi
                rcases List.mem_append.mp hi with hold | hi
                · exact hwalked.reached i hold
                · exact hreach.tail (hnew i hi).1
              · exact fun x hx => List.mem_append_left _ (htaken.candidates x hx)
              · intro x hx
                obtain ⟨hvisited, hvector⟩ := hwalked.nearest x hx
                exact ⟨List.mem_append_left _ hvisited, hvector⟩
            obtain ⟨hwalked', hvisited', hlength⟩ :=
              hwider.considerNeighbors efSearch found (hids.symm ▸ hnodup)
                (fun n hn => List.mem_append_right _ (hmem n hn))
                (fun n hn hnear => by
                  obtain ⟨x, hx, hxn⟩ := List.mem_map.mp hnear
                  apply (hnew n.1 (hmem n hn)).2
                  rw [← hxn]
                  exact (hwalked.nearest x hx).1)
                hread
            apply (ih hwalked').mono
            rintro out ⟨hkept, hthrew, hvalid, hfuel⟩
            refine ⟨hkept, hthrew, hvalid, fun henough => hfuel ?_⟩
            have herase := List.length_erase_of_mem hcurrent
            have hpositive := List.length_pos_of_mem hcurrent
            have hcount : found.length = fresh.length := by
              rw [← hids, List.length_map]
            rw [hvisited', List.length_append]
            simp only [herase] at hlength
            omega

end Walk

/-- What is asked of the hits of a search. -/
structure SoundHits (metric : Metric V D) (query : V) (k : Nat) (st : State V Row)
    (Accepts : Option Row → Prop) (hits : List (D × Nat)) : Prop where
  length : hits.length ≤ k
  sorted : hits.Pairwise fun a b => a.1 ≤ b.1
  distinct : (hits.map Prod.snd).Nodup
  real : ∀ hit ∈ hits, hit.2 ≤ kMaxRealId
  got : ∀ hit ∈ hits, ∃ vector, (getDense hit.2).run exec st = (.ok vector, st) ∧
    hit.1 = metric.distance query vector
  accepted : ∀ hit ∈ hits, ∃ row, (getPayloadDense hit.2).run exec st = (row, st) ∧
    Accepts row

section Results

variable {metric : Metric V D} {query : V} {st : State V Row}

/-- What holds of the results of a layer search, before they are translated. -/
structure SoundResults (metric : Metric V D) (query : V) (st : State V Row)
    (Accepts : Option Row → Prop) (results : List (D × Nat)) : Prop where
  sorted : results.Pairwise fun a b => a.1 ≤ b.1
  distinct : (results.map Prod.snd).Nodup
  read : ∀ x ∈ results, ∃ vector, st.vectors x.2 = some vector ∧
    x.1 = metric.distance query vector
  accepted : ∀ x ∈ results, Accepts (st.rows x.2)

theorem SoundResults.sublist {Accepts : Option Row → Prop} {results kept : List (D × Nat)}
    (hsound : SoundResults metric query st Accepts results) (hsub : kept.Sublist results) :
    SoundResults metric query st Accepts kept where
  sorted := hsound.sorted.sublist hsub
  distinct := (hsub.map Prod.snd).nodup hsound.distinct
  read := fun x hx => hsound.read x (hsub.subset hx)
  accepted := fun x hx => hsound.accepted x (hsub.subset hx)

omit [LinearOrder D] in
theorem run_getDense {r : Nat} {vector : V} (halive : AliveIn st r)
    (hvector : st.vectors (st.tables.resolveInternal r) = some vector) :
    (getDense r).run exec st = (.ok vector, st) := by
  obtain ⟨alive, hrun, hiff⟩ := run_isAlive st r
  unfold getDense
  rw [Program.run_bind, hrun, hiff.mpr halive]
  change ((fun found : Option V => (found.elim GetResult.ioError .ok, st))
    (st.vectors (st.tables.resolveInternal r))) = _
  rw [hvector]
  rfl

/-- Live results translate to sound hits. -/
theorem SoundResults.translated {owner : Nat → Option Nat} (hquiet : Quiet owner st)
    {Accepts : Option Row → Prop} {results : List (D × Nat)} {k : Nat}
    (hsound : SoundResults metric query st Accepts results)
    (hlive : ∀ x ∈ results, st.tables.isTombstoned x.2 = false)
    (hlength : results.length ≤ k) :
    SoundHits metric query k st Accepts
      (results.map fun x => (x.1, st.tables.resolveReal x.2)) := by
  have hversion : ∀ x ∈ results, ∃ r < 2 ^ 63, st.tables.resolveReal x.2 = r ∧
      st.tables.resolveInternal r = x.2 ∧ AliveIn st r := by
    intro x hx
    obtain ⟨vector, hvector, -⟩ := hsound.read x hx
    have hlocated : Located st x.2 := by
      unfold Located
      rw [hvector]
      rfl
    obtain ⟨r, hr, heq, halive⟩ := hquiet.version hlocated (hlive x hx)
    refine ⟨r, hr, ?_, heq, halive⟩
    rw [← heq]
    exact hquiet.resolveReal_resolveInternal hr
  refine ⟨by rwa [List.length_map], ?_, ?_, ?_, ?_, ?_⟩
  · rw [List.pairwise_map]
    exact hsound.sorted
  · rw [List.map_map]
    have hids : (results.map Prod.snd).map st.tables.resolveReal =
        results.map (Prod.snd ∘ fun x : D × Nat => (x.1, st.tables.resolveReal x.2)) := by
      rw [List.map_map]
      rfl
    rw [← hids]
    apply List.Nodup.map_on _ hsound.distinct
    intro i hi j hj hsame
    obtain ⟨x, hx, rfl⟩ := List.mem_map.mp hi
    obtain ⟨y, hy, rfl⟩ := List.mem_map.mp hj
    obtain ⟨r, -, hreal, hback, -⟩ := hversion x hx
    obtain ⟨r', -, hreal', hback', -⟩ := hversion y hy
    rw [← hback, ← hback', ← hreal, ← hreal', hsame]
  · intro hit hmem
    obtain ⟨x, hx, rfl⟩ := List.mem_map.mp hmem
    obtain ⟨r, hr, hreal, -⟩ := hversion x hx
    exact (le_kMaxRealId_iff _).mpr (hreal ▸ hr)
  · intro hit hmem
    obtain ⟨x, hx, rfl⟩ := List.mem_map.mp hmem
    obtain ⟨r, -, hreal, hback, halive⟩ := hversion x hx
    obtain ⟨vector, hvector, hdistance⟩ := hsound.read x hx
    refine ⟨vector, ?_, hdistance⟩
    change (getDense (st.tables.resolveReal x.2)).run exec st = _
    rw [hreal]
    exact run_getDense halive (by rw [hback]; exact hvector)
  · intro hit hmem
    obtain ⟨x, hx, rfl⟩ := List.mem_map.mp hmem
    obtain ⟨r, -, hreal, hback, -⟩ := hversion x hx
    refine ⟨st.rows x.2, ?_, hsound.accepted x hx⟩
    change (st.rows (st.tables.resolveInternal (st.tables.resolveReal x.2)), st) = _
    rw [hreal, hback]

omit [LinearOrder D] in
/-- A translation keeps results that are not tombstoned, in their order. -/
theorem reads_translate_kept (limit : Option Nat) (out results : List (D × Nat)) :
    Reads st (translate limit out results) fun hits =>
      ∃ kept : List (D × Nat), kept.Sublist results ∧
        (∀ x ∈ kept, st.tables.isTombstoned x.2 = false) ∧
        hits = out ++ kept.map fun x => (x.1, st.tables.resolveReal x.2) := by
  induction results generalizing out with
  | nil => exact .done ⟨[], List.Sublist.refl _, by simp, (List.append_nil out).symm⟩
  | cons result results ih =>
      unfold translate
      apply Reads.call (c := .isTombstoned result.2) rfl
      cases hdead : st.tables.isTombstoned result.2 with
      | true =>
          rw [show (exec (.isTombstoned result.2) st).1 = true from hdead]
          apply (ih out).mono
          rintro _ ⟨kept, hsub, hlive, rfl⟩
          exact ⟨kept, hsub.cons _, hlive, rfl⟩
      | false =>
          rw [show (exec (.isTombstoned result.2) st).1 = false from hdead]
          apply Reads.call (c := .resolveReal result.2) rfl
          split
          · refine .done ⟨[result], List.singleton_sublist.mpr List.mem_cons_self, ?_, rfl⟩
            intro x hx
            rw [List.mem_singleton.mp hx]
            exact hdead
          · apply (ih _).mono
            rintro _ ⟨kept, hsub, hlive, rfl⟩
            refine ⟨result :: kept, hsub.cons_cons _, List.forall_mem_cons.mpr ⟨hdead, hlive⟩,
              ?_⟩
            rw [List.map_cons, List.append_assoc]
            rfl

omit [LinearOrder D] in
/-- The tombstone filter keeps `k` results at most. -/
theorem reads_dropTombstoned {k : Nat} (filtered results : List (D × Nat))
    (hroom : filtered.length < k) :
    Reads st (dropTombstoned k filtered results) fun out =>
      ∃ kept : List (D × Nat), kept.Sublist results ∧ out = filtered ++ kept ∧
        out.length ≤ k := by
  induction results generalizing filtered with
  | nil =>
      exact .done ⟨[], List.Sublist.refl _, (List.append_nil filtered).symm, hroom.le⟩
  | cons result results ih =>
      unfold dropTombstoned
      apply Reads.call (c := .isTombstoned result.2) rfl
      cases hdead : st.tables.isTombstoned result.2 with
      | true =>
          rw [show (exec (.isTombstoned result.2) st).1 = true from hdead]
          apply (ih filtered hroom).mono
          rintro _ ⟨kept, hsub, rfl, hlen⟩
          exact ⟨kept, hsub.cons _, rfl, hlen⟩
      | false =>
          rw [show (exec (.isTombstoned result.2) st).1 = false from hdead]
          change Reads st (if _ then _ else _) _
          split
          · refine .done ⟨[result], List.singleton_sublist.mpr List.mem_cons_self, rfl, ?_⟩
            rw [List.length_append, List.length_singleton]
            exact hroom
          · rename_i hmore
            apply (ih (filtered ++ [result]) (not_le.mp hmore)).mono
            rintro _ ⟨kept, hsub, rfl, hlen⟩
            refine ⟨result :: kept, hsub.cons_cons _, ?_, hlen⟩
            rw [List.append_assoc]
            rfl

theorem reads_searchLayer (hlinked : Linked st) (metric : Metric V D) (query : V)
    (efSearch fuel start : Nat) :
    Reads st (searchLayer metric query efSearch fuel start) fun out =>
      (∀ results, out = .hits results →
        SoundResults metric query st (fun _ => True) results) ∧
        (Located st start → out ≠ .threw) ∧ out ≠ .invalidArgument ∧
        (hlinked.finite.toFinset.card < fuel → out ≠ .exhausted) := by
  unfold searchLayer
  apply Reads.call (c := .readVector start) rfl
  cases hvector : st.vectors start with
  | none =>
      rw [show (exec (.readVector start) st).1 = none from hvector]
      refine ⟨rfl, ?_, ?_, ?_, ?_⟩
      · rintro _ ⟨⟩
      · intro hlocated
        unfold Located at hlocated
        rw [hvector] at hlocated
        cases hlocated
      · rintro ⟨⟩
      · rintro _ ⟨⟩
  | some vector =>
      rw [show (exec (.readVector start) st).1 = some vector from hvector]
      have hlocated : Located st start := by
        unfold Located
        rw [hvector]
        rfl
      apply Reads.bind
      apply (reads_searchLoop efSearch hlinked hlocated fuel
        (walked_start metric query hvector)).mono
      rintro out ⟨hkept, hthrew, hvalid, hfuel⟩
      cases out with
      | hits state =>
          refine .done ⟨?_, fun _ => by rintro ⟨⟩, by rintro ⟨⟩, fun _ => by rintro ⟨⟩⟩
          rintro _ ⟨⟩
          have hwalked := hkept state rfl
          have hperm := metric.sort_perm state.nearest
          refine ⟨metric.sort_sorted _, (hperm.map Prod.snd).nodup_iff.mpr hwalked.nodup, ?_,
            fun _ _ => trivial⟩
          exact fun x hx => (hwalked.nearest x (hperm.mem_iff.mp hx)).2
      | invalidArgument => exact absurd rfl hvalid
      | threw => exact absurd rfl hthrew
      | exhausted =>
          refine .done ⟨by rintro _ ⟨⟩, fun _ => by rintro ⟨⟩, by rintro ⟨⟩, ?_⟩
          intro henough
          apply absurd rfl (hfuel _)
          change 1 + _ < fuel + 1
          omega

variable {owner : Nat → Option Nat}

/-- Where the descent from the entry point ends, if there is one. -/
def DescentLocated (st : State V Row) (descent : Nat → Nat) : Prop :=
  ∀ ep, st.entryPoint = some ep → Located st (descent ep)

theorem reads_searchUnfilteredDense (hquiet : Quiet owner st) (hlinked : Linked st)
    (metric : Metric V D) (descent : Nat → Nat) (query : V) {k : Int} (hk : 0 < k)
    (efSearch : Int) (fuel : Nat) :
    Reads st (searchUnfilteredDense metric descent fuel query k efSearch) fun out =>
      (∀ hits, out = .hits hits →
        SoundHits metric query k.toNat st (fun _ => True) hits) ∧
        (DescentLocated st descent → hlinked.finite.toFinset.card < fuel →
          ∃ hits, out = .hits hits) := by
  have hk' : 0 < k.toNat := by omega
  unfold searchUnfilteredDense
  rw [if_neg (not_le.mpr hk)]
  apply Reads.bind
  unfold knnSearchK
  apply Reads.call (c := .loadEntryPoint) rfl
  cases hentry : st.entryPoint with
  | none =>
      rw [show (exec .loadEntryPoint st).1 = none from hentry]
      refine ⟨rfl, rfl, ?_, fun _ _ => ⟨[], rfl⟩⟩
      rintro _ ⟨⟩
      have hnone : SoundResults metric query st (fun _ => True) [] :=
        ⟨List.Pairwise.nil, List.nodup_nil, by rintro _ ⟨⟩, by rintro _ ⟨⟩⟩
      exact hnone.translated hquiet (by rintro _ ⟨⟩) (Nat.zero_le _)
  | some ep =>
      rw [show (exec .loadEntryPoint st).1 = some ep from hentry]
      apply Reads.bind
      apply (reads_searchLayer hlinked metric query _ fuel (descent ep)).mono
      rintro out ⟨hsound, hthrew, hvalid, hfuel⟩
      cases out with
      | hits results =>
          apply Reads.bind
          apply (reads_dropTombstoned [] results hk').mono
          rintro kept ⟨_, hkept, rfl, hlength⟩
          refine .done ?_
          apply Reads.bind
          apply (reads_translate_kept (some k.toNat) [] kept).mono
          rintro _ ⟨live, hsub, hlive, rfl⟩
          refine .done ⟨?_, fun _ _ => ⟨_, rfl⟩⟩
          rintro _ ⟨⟩
          exact ((hsound results rfl).sublist (hsub.trans hkept)).translated hquiet hlive
            (hsub.length_le.trans hlength)
      | invalidArgument => exact absurd rfl hvalid
      | threw =>
          refine .done (.done ⟨by rintro _ ⟨⟩, fun hdescent => ?_⟩)
          exact absurd rfl (hthrew (hdescent ep hentry))
      | exhausted =>
          refine .done (.done ⟨by rintro _ ⟨⟩, fun _ henough => ?_⟩)
          exact absurd rfl (hfuel henough)

theorem reads_searchDense_sound (hquiet : Quiet owner st) (hlinked : Linked st)
    (metric : Metric V D) (descent : Nat → Nat) (query : V) {k : Int} (hk : 0 < k)
    (filter : Filter Row) (maxScanCandidates : Int) (fuel : Nat) :
    Reads st (searchDense metric descent fuel query k filter maxScanCandidates) fun out =>
      (∀ scan, out = .hits scan →
        SoundHits metric query k.toNat st (fun row => filter.matchesRow row = true)
          scan.results) ∧
        (DescentLocated st descent → hlinked.finite.toFinset.card < fuel →
          ∃ scan, out = .hits scan) := by
  have hk' : 0 < k.toNat := by omega
  unfold searchDense
  rw [if_neg (not_le.mpr hk)]
  apply Reads.bind
  unfold knnSearchKFiltered
  apply Reads.call (c := .loadEntryPoint) rfl
  cases hentry : st.entryPoint with
  | none =>
      rw [show (exec .loadEntryPoint st).1 = none from hentry]
      refine ⟨rfl, rfl, ?_, fun _ _ => ⟨_, rfl⟩⟩
      rintro _ ⟨⟩
      have hnone : SoundResults metric query st
          (fun row => filter.matchesRow row = true) [] :=
        ⟨List.Pairwise.nil, List.nodup_nil, by rintro _ ⟨⟩, by rintro _ ⟨⟩⟩
      exact hnone.translated hquiet (by rintro _ ⟨⟩) (Nat.zero_le _)
  | some ep =>
      rw [show (exec .loadEntryPoint st).1 = some ep from hentry]
      apply (reads_searchLayerFiltered hlinked hk' maxScanCandidates fuel).mono
      rintro out ⟨hfound, hthrew, hvalid, hfuel⟩
      cases out with
      | hits scan =>
          apply Reads.bind
          apply (reads_translate_kept none [] scan.results).mono
          rintro _ ⟨live, hsub, hlive, rfl⟩
          refine .done ⟨?_, fun _ _ => ⟨_, rfl⟩⟩
          rintro _ ⟨⟩
          obtain ⟨-, hfound, hsorted⟩ := hfound scan rfl
          have hsound : SoundResults metric query st
              (fun row => filter.matchesRow row = true) scan.results :=
            ⟨hsorted, hfound.nodup, fun x hx => (hfound.results x hx).2.2,
              fun x hx => (hfound.results x hx).2.1⟩
          exact (hsound.sublist hsub).translated hquiet hlive
            (hsub.length_le.trans hfound.room)
      | invalidArgument => exact absurd rfl hvalid
      | threw =>
          refine .done ⟨by rintro _ ⟨⟩, fun hdescent => ?_⟩
          exact absurd rfl (hthrew (hdescent ep hentry))
      | exhausted =>
          refine .done ⟨by rintro _ ⟨⟩, fun _ henough => ?_⟩
          exact absurd rfl (hfuel henough)

end Results

end AsterVec.Dense

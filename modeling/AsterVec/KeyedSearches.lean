import AsterVec.KeyMapHits
import AsterVec.KeyedStores
import AsterVec.LoggedSearches

/-!
`SearchPoints`: the hits of a search in a keyed store, under the ids of the callers.
-/

namespace AsterVec.Dense

open AsterVec.IdTypes
open AsterVec.KeyMap (Hit Hits toPointHits pointHits pointOf)
open AsterVec.PointIds
open AsterVec.Programs

variable {V Row D : Type}

/-- The hits as they are handed to `toPointHits`. -/
def asHits (hits : List (D × Nat)) : List (Hit Nat D) :=
  hits.map fun hit => ⟨hit.2, hit.1⟩

namespace KeyedStore

variable {shard : KeyMap.Key → Nat} {g : KeyedStore V Row}
  {pairs : List (KeyMap.Key × Nat)}

theorem Runs.reachable (hruns : g.Runs shard) : KeyMap.Reachable shard g.keys := by
  induction hruns with
  | new => exact .refl
  | step _ hstep ih =>
      cases hstep with
      | keys keys hstep hbulk => exact ih.tail hstep
      | begins => exact ih
      | moves => exact ih

/-- A dense id with a document is that of a point with the same document. -/
theorem Kept.named_of_doc (hkept : g.Kept shard pairs) {d : Nat} {doc : V × Option Row}
    (hdoc : docAfter g.store.counted d = some doc) :
    ∃ id, (encode id, d) ∈ pairs ∧ docNamed g.named id = some doc := by
  have hsome : (g.store.counted.filter fun call => call.r = d) ≠ [] := by
    intro hnone
    unfold docAfter at hdoc
    rw [hnone] at hdoc
    cases hdoc
  obtain ⟨call, hcall⟩ := List.exists_mem_of_ne_nil _ hsome
  rw [List.mem_filter, decide_eq_true_eq, ← hkept.counted] at hcall
  obtain ⟨hcounted, rfl⟩ := hcall
  obtain ⟨item, hitem, rfl⟩ := List.mem_map.mp hcounted
  have hmem := hkept.named item hitem
  exact ⟨item.1, hmem, (hkept.docNamed_eq hmem).trans hdoc⟩

variable [LinearOrder D]

/-- What is asked of the points of a search. -/
structure SoundPoints (metric : Metric V D) (query : V) (k : Nat)
    (named : List (PointId × IdCall V Row)) (Accepts : Option Row → Prop)
    (points : List (Hit PointId D)) : Prop where
  length : points.length ≤ k
  sorted : points.Pairwise fun a b => a.distance ≤ b.distance
  distinct : (points.map Hit.id).Nodup
  found : ∀ point ∈ points, ∃ doc, docNamed named point.id = some doc ∧
    point.distance = metric.distance query doc.1 ∧ Accepts doc.2

/-- A hit is that of a point with a document at its distance. -/
theorem Kept.named_of_hit (hkept : g.Kept shard pairs) (hopen : g.store.recovery = none)
    (hidle : ∀ r, g.store.running r = none) {metric : Metric V D} {query : V} {k : Nat}
    {Accepts : Option Row → Prop} {hits : List (D × Nat)}
    (hsound : SoundHits metric query k g.store.st Accepts hits) {hit : D × Nat}
    (hhit : hit ∈ hits) :
    ∃ id doc, (encode id, hit.2) ∈ pairs ∧ docNamed g.named id = some doc ∧
      hit.1 = metric.distance query doc.1 ∧ Accepts doc.2 := by
  obtain ⟨owner₀, owner, tallies, h⟩ := hkept.runs.sound.opened_of hopen
  have hreal := (le_kMaxRealId_iff _).mp (hsound.real hit hhit)
  obtain ⟨hget, hpayload⟩ := h.finds hreal (hidle hit.2)
  obtain ⟨vector, hrun, hdistance⟩ := hsound.got hit hhit
  obtain ⟨row, hrow, haccepts⟩ := hsound.accepted hit hhit
  rw [hrun] at hget
  rw [hrow] at hpayload
  cases hdoc : docAfter g.store.counted hit.2 with
  | none =>
      rw [hdoc] at hget
      cases hget
  | some doc =>
      rw [hdoc] at hget hpayload
      obtain rfl : vector = doc.1 := GetResult.ok.inj hget
      obtain rfl : row = doc.2 := hpayload
      obtain ⟨id, hmem, hnamed⟩ := hkept.named_of_doc hdoc
      exact ⟨id, doc, hmem, hnamed, hdistance, haccepts⟩

/-- The points of sound hits: none of them is left out. -/
theorem Kept.points_sound (hkept : g.Kept shard pairs) (hencoded : g.keys.Encoded)
    (hopen : g.store.recovery = none) (hidle : ∀ r, g.store.running r = none)
    {metric : Metric V D} {query : V} {k : Nat} {Accepts : Option Row → Prop}
    {hits : List (D × Nat)} (hsound : SoundHits metric query k g.store.st Accepts hits) :
    ∃ points, toPointHits g.keys.ids (asHits hits) = .ok points ∧
      points.length = hits.length ∧ SoundPoints metric query k g.named Accepts points := by
  have hnamed := fun hit (hhit : hit ∈ hits) => hkept.named_of_hit hopen hidle hsound hhit
  have howner : ∀ {id d}, (encode id, d) ∈ pairs → pointOf g.keys.ids d = some id := by
    intro id d hmem
    have hd := (hkept.map.stores.real _ d hmem).trans (by decide : 2 ^ 63 < 2 ^ 64)
    exact (hencoded.pointOf_iff d id).mpr ((hkept.map.stores.reverse _ d hd).mpr hmem)
  have hpoints : pointHits (pointOf g.keys.ids) (asHits hits) =
      hits.map fun hit => ⟨(pointOf g.keys.ids hit.2).getD (.int 0), hit.1⟩ := by
    unfold pointHits asHits
    rw [List.filterMap_map]
    refine (List.filterMap_congr fun hit hhit => ?_).trans
      (congrFun List.filterMap_eq_map hits)
    obtain ⟨id, doc, hmem, -⟩ := hnamed hit hhit
    rw [Function.comp_apply, Function.comp_apply, howner hmem]
    rfl
  refine ⟨_, hencoded.toPointHits_eq _, ?_, ?_⟩
  · rw [hpoints, List.length_map]
  · rw [hpoints]
    refine ⟨by rw [List.length_map]; exact hsound.length, ?_, ?_, ?_⟩
    · rw [List.pairwise_map]
      exact hsound.sorted
    · rw [List.map_map]
      apply List.Nodup.map_on _ (List.Nodup.of_map Prod.snd hsound.distinct)
      intro hit hhit hit' hhit' hsame
      obtain ⟨id, -, hmem, -⟩ := hnamed hit hhit
      obtain ⟨id', -, hmem', -⟩ := hnamed hit' hhit'
      rw [Function.comp_apply, Function.comp_apply, howner hmem, howner hmem'] at hsame
      obtain rfl : id = id' := hsame
      exact List.inj_on_of_nodup_map hsound.distinct hhit hhit'
        (hkept.map.stores.dense_unique hmem hmem')
    · intro point hpoint
      obtain ⟨hit, hhit, rfl⟩ := List.mem_map.mp hpoint
      obtain ⟨id, doc, hmem, hdoc, hdistance, haccepts⟩ := hnamed hit hhit
      refine ⟨doc, ?_, hdistance, haccepts⟩
      rw [howner hmem]
      exact hdoc

/-- While no call is under way, `SearchPoints` hands out every hit of its search, with a
filter or without, whenever the process was killed: distinct points in the order of their
distances, each with the document that the calls for it make of it. -/
theorem searchPoints_named (hruns : g.Runs shard) (hopen : g.store.recovery = none)
    (hidle : ∀ r, g.store.running r = none) (metric : Metric V D) (descent : Nat → Nat)
    (query : V) {k : Int} (hk : 0 < k) (efSearch maxScanCandidates : Int) :
    (∀ fuel hits,
      ((searchUnfilteredDense metric descent fuel query k efSearch).run exec
          g.store.st.dropUnlocatable).1 = .hits hits →
        ∃ points, toPointHits g.keys.ids (asHits hits) = .ok points ∧
          points.length = hits.length ∧
          SoundPoints metric query k.toNat g.named (fun _ => True) points) ∧
    ∀ filter fuel scan,
      ((searchDense metric descent fuel query k filter maxScanCandidates).run exec
          g.store.st.dropUnlocatable).1 = .hits scan →
        ∃ points, toPointHits g.keys.ids (asHits scan.results) = .ok points ∧
          points.length = scan.results.length ∧
          SoundPoints metric query k.toNat g.named
            (fun row => filter.matchesRow row = true) points := by
  obtain ⟨pairs, hkept⟩ := hruns.kept
  have hencoded := hruns.reachable.encoded
  obtain ⟨owner₀, owner, tallies, h⟩ := hkept.runs.sound.opened_of hopen
  have hquiet := h.quiet hidle
  refine ⟨fun fuel hits hhits => ?_, fun filter fuel scan hscan => ?_⟩
  · have hreads := @reads_unfiltered V Row D _ _ metric query _ hquiet h.finite_located
      descent _ hk efSearch fuel
    exact hkept.points_sound hencoded hopen hidle (hreads.2.1 hits hhits)
  · have hreads := @reads_filtered V Row D _ _ metric query _ hquiet h.finite_located
      descent _ hk filter maxScanCandidates fuel
    exact hkept.points_sound hencoded hopen hidle (hreads.2.1 scan hscan)

/-- The point 7 is found after a kill. -/
theorem searchPoints_named_kill :
    ((searchUnfilteredDense onLine id 5 8 1 4).run exec
        killedInsert.store.st.dropUnlocatable).1 = .hits [(3, 0)] ∧
      ∃ points, toPointHits killedInsert.keys.ids (asHits [(3, 0)]) = .ok points ∧
        points.length = 1 ∧
        SoundPoints onLine 8 1 killedInsert.named (fun _ => True) points := by
  have hhits : ((searchUnfilteredDense onLine id 5 8 1 4).run exec
      killedInsert.store.st.dropUnlocatable).1 = .hits [(3, 0)] := by decide +kernel
  exact ⟨hhits, (searchPoints_named killedInsert_runs rfl (fun _ => rfl) onLine id 8
    Int.one_pos 4 0).1 5 _ hhits⟩

end KeyedStore

end AsterVec.Dense

import Mathlib.Data.List.Zip
import AsterVec.IndexSelection

/-!
The two versions of the neighbor heuristic.  They sort the same candidates and compare the
same pairs of vectors, in the other order, so they agree where the distance is symmetric,
as every metric of the index is.  What they keep is diverse.
-/

namespace AsterVec

/-! Distances -/

/-- The arithmetic of floats.  `sumOfProducts` adds in the order, and with the roundings,
that the lanes of the machine give; a product does not depend on the order of its factors,
and a difference changes its sign only. -/
structure FloatArithmetic (F : Type) where
  zero : F
  one : F
  infinity : F
  sub : F → F → F
  mul : F → F → F
  div : F → F → F
  sqrt : F → F
  sumOfProducts : List (F × F) → F
  mul_comm : ∀ a b, mul a b = mul b a
  products_comm : ∀ pairs, sumOfProducts (pairs.map Prod.swap) = sumOfProducts pairs
  squares_comm : ∀ a b, sumOfProducts (List.zipWith (fun x y => (sub x y, sub x y)) a b) =
    sumOfProducts (List.zipWith (fun x y => (sub x y, sub x y)) b a)

inductive DistanceMetric where
  | kL2
  | kCosine
  deriving DecidableEq, Repr

namespace FloatArithmetic

variable {F : Type} [DecidableEq F] (ops : FloatArithmetic F)

def dotProduct (a b : List F) : F := ops.sumOfProducts (a.zip b)

def l2Norm (a : List F) : F := ops.sqrt (ops.sumOfProducts (a.zip a))

def l2SquaredDistance (a b : List F) : F :=
  ops.sumOfProducts (List.zipWith (fun x y => (ops.sub x y, ops.sub x y)) a b)

def l2Distance (a b : List F) : F := ops.sqrt (ops.l2SquaredDistance a b)

def cosineDistance (a b : List F) : F :=
  if ops.l2Norm a = ops.zero ∨ ops.l2Norm b = ops.zero then ops.infinity
  else ops.sub ops.one (ops.div (ops.dotProduct a b) (ops.mul (ops.l2Norm a) (ops.l2Norm b)))

/-- `computeDistance`, which throws when the sizes differ. -/
def computeDistance (metric : DistanceMetric) (a b : List F) : Option F :=
  if a.length ≠ b.length then none
  else
    match metric with
    | .kL2 => some (ops.l2Distance a b)
    | .kCosine => some (ops.cosineDistance a b)

theorem dotProduct_comm (a b : List F) : ops.dotProduct a b = ops.dotProduct b a := by
  unfold dotProduct
  rw [← List.zip_swap, ops.products_comm]

theorem cosineDistance_comm (a b : List F) : ops.cosineDistance a b = ops.cosineDistance b a := by
  unfold cosineDistance
  rw [ops.dotProduct_comm, ops.mul_comm]
  exact if_congr or_comm rfl rfl

theorem computeDistance_comm (metric : DistanceMetric) (a b : List F) :
    ops.computeDistance metric a b = ops.computeDistance metric b a := by
  unfold computeDistance
  by_cases hsize : a.length = b.length
  · rw [if_neg (not_not.mpr hsize), if_neg (not_not.mpr hsize.symm)]
    cases metric with
    | kL2 =>
        simp only [l2Distance, l2SquaredDistance]
        rw [ops.squares_comm]
    | kCosine =>
        simp only
        rw [ops.cosineDistance_comm]
  · rw [if_pos hsize, if_pos (Ne.symm hsize)]

end FloatArithmetic

namespace IndexGraph

open AsterVec.Dense

/-! The pruning -/

section

variable {V D : Type} [LinearOrder D]

/-- A kept candidate. -/
def strip (cand : (D × Nat) × V) : Nat × V := (cand.1.2, cand.2)

/-- What the pruning of candidates in the order of their distance keeps: candidates of
which none is nearer to an earlier one than to the query, until there are enough.  What is
left out before the last of them is nearer to one that is kept. -/
structure Diverse (apart : V → V → D) (maxNeighbors : Nat) (selected : List (Nat × V))
    (cands kept : List ((D × Nat) × V)) : Prop where
  sublist : kept.Sublist cands
  length_le : selected.length ≤ maxNeighbors → selected.length + kept.length ≤ maxNeighbors
  apart_selected : ∀ cand ∈ kept, ∀ old ∈ selected, ¬ apart old.2 cand.2 < cand.1.1
  apart_kept : kept.Pairwise fun earlier later => ¬ apart earlier.2 later.2 < later.1.1
  rejected : ∀ cand ∈ cands, cand ∉ kept → (∃ last ∈ kept, cand.1.1 < last.1.1) →
    (∃ old ∈ selected, apart old.2 cand.2 < cand.1.1) ∨
      ∃ earlier ∈ kept, earlier.1.1 < cand.1.1 ∧ apart earlier.2 cand.2 < cand.1.1

theorem prune_diverse (apart : V → V → D) (maxNeighbors : Nat)
    {cands : List ((D × Nat) × V)} (hsorted : cands.Pairwise fun a b => a.1.1 < b.1.1)
    (selected : List (Nat × V)) :
    ∃ kept, prune apart maxNeighbors selected cands = selected ++ kept.map strip ∧
      Diverse apart maxNeighbors selected cands kept := by
  induction cands generalizing selected with
  | nil =>
      refine ⟨[], by simp [prune], List.Sublist.refl _, fun hle => hle, by simp, .nil, by simp⟩
  | cons cand rest ih =>
      obtain ⟨hfirst, hrest⟩ := List.pairwise_cons.mp hsorted
      obtain ⟨⟨distance, id⟩, vector⟩ := cand
      rw [prune]
      split
      · refine ⟨[], by simp, List.nil_sublist _, fun hle => hle, by simp, .nil, by simp⟩
      · rename_i hroom
        split
        · rename_i hnear
          rw [List.any_eq_true] at hnear
          obtain ⟨old, hold, hclose⟩ := hnear
          obtain ⟨kept, heq, hdiverse⟩ := ih hrest selected
          refine ⟨kept, heq, hdiverse.sublist.cons _, hdiverse.length_le,
            hdiverse.apart_selected, hdiverse.apart_kept, ?_⟩
          intro other hother hout hlast
          rcases List.mem_cons.mp hother with rfl | hlater
          · exact .inl ⟨old, hold, of_decide_eq_true hclose⟩
          · exact hdiverse.rejected other hlater hout hlast
        · rename_i hfar
          obtain ⟨kept, heq, hdiverse⟩ := ih hrest (selected ++ [(id, vector)])
          have hapart : ∀ old ∈ selected, ¬ apart old.2 vector < distance := by
            intro old hold hclose
            exact hfar (List.any_eq_true.mpr ⟨old, hold, decide_eq_true hclose⟩)
          refine ⟨((distance, id), vector) :: kept, ?_, hdiverse.sublist.cons_cons _, ?_, ?_, ?_,
            ?_⟩
          · rw [heq, List.append_assoc]
            rfl
          · intro _
            have hlength := hdiverse.length_le
            rw [List.length_append, List.length_singleton] at hlength
            rw [List.length_cons]
            have hroom' := hlength (by omega)
            omega
          · intro other hother
            rcases List.mem_cons.mp hother with rfl | hlater
            · exact hapart
            · exact fun old hold =>
                hdiverse.apart_selected other hlater old (List.mem_append_left _ hold)
          · refine List.pairwise_cons.mpr ⟨fun later hlater => ?_, hdiverse.apart_kept⟩
            exact hdiverse.apart_selected later hlater (id, vector) (by simp)
          · rintro other hother hout ⟨last, hlast, hbefore⟩
            rcases List.mem_cons.mp hother with rfl | hlater
            · exact absurd (List.mem_cons_self ..) hout
            · have hdistance := hfirst other hlater
              rcases List.mem_cons.mp hlast with rfl | hlast
              · exact absurd hbefore (lt_asymm hdistance)
              · rcases hdiverse.rejected other hlater
                  (fun hin => hout (List.mem_cons_of_mem _ hin)) ⟨last, hlast, hbefore⟩ with
                  ⟨old, hold, hclose⟩ | ⟨earlier, hearlier, hlt, hclose⟩
                · rcases List.mem_append.mp hold with hold | hnew
                  · exact .inl ⟨old, hold, hclose⟩
                  · rw [List.mem_singleton.mp hnew] at hclose
                    exact .inr ⟨_, List.mem_cons_self .., hdistance, hclose⟩
                · exact .inr ⟨earlier, List.mem_cons_of_mem _ hearlier, hlt, hclose⟩

theorem prune_ne_nil (apart : V → V → D) {maxNeighbors : Nat} (hmax : 1 ≤ maxNeighbors)
    {cands : List ((D × Nat) × V)} (hsome : cands ≠ []) :
    prune apart maxNeighbors [] cands ≠ [] := by
  have hgrows : ∀ (cands : List ((D × Nat) × V)) selected,
      selected.length ≤ (prune apart maxNeighbors selected cands).length := by
    intro cands
    induction cands with
    | nil => exact fun selected => Nat.le_refl _
    | cons cand rest ih =>
        intro selected
        rw [prune]
        split
        · exact Nat.le_refl _
        · split
          · exact ih selected
          · refine Nat.le_trans ?_ (ih _)
            rw [List.length_append]
            exact Nat.le_add_right _ _
  obtain ⟨cand, rest, rfl⟩ := List.exists_cons_of_ne_nil hsome
  rw [prune, if_neg (by rw [List.length_nil]; omega), if_neg (by simp)]
  intro hnil
  have hlength := hgrows rest ([] ++ [(cand.1.2, cand.2)])
  rw [hnil] at hlength
  exact absurd hlength (by simp)

/-- Two distances that agree on the vectors at hand prune alike. -/
theorem prune_congr {apart apart' : V → V → D} {P : V → Prop} (maxNeighbors : Nat)
    (hsame : ∀ a b, P a → P b → apart a b = apart' a b) {cands : List ((D × Nat) × V)}
    (hcands : ∀ cand ∈ cands, P cand.2) {selected : List (Nat × V)}
    (hselected : ∀ kept ∈ selected, P kept.2) :
    prune apart maxNeighbors selected cands = prune apart' maxNeighbors selected cands := by
  induction cands generalizing selected with
  | nil => rfl
  | cons cand rest ih =>
      obtain ⟨⟨distance, id⟩, vector⟩ := cand
      have hvector : P vector := hcands _ (List.mem_cons_self ..)
      have hrest := fun other hother => hcands other (List.mem_cons_of_mem _ hother)
      have hany : (selected.any fun kept => decide (apart kept.2 vector < distance)) =
          selected.any fun kept => decide (apart' kept.2 vector < distance) := by
        rw [Bool.eq_iff_iff, List.any_eq_true, List.any_eq_true]
        refine exists_congr fun kept => and_congr_right fun hkept => ?_
        rw [hsame _ _ (hselected kept hkept) hvector]
      rw [prune, prune, hany, ih hrest hselected, ih hrest fun kept hkept => ?_]
      rcases List.mem_append.mp hkept with hold | hnew
      · exact hselected kept hold
      · rw [List.mem_singleton.mp hnew]
        exact hvector

/-! The candidates -/

variable {space : Space V D} {x : Index V} {layer : Nat} {points : Nat → V} {ids : List Nat}

/-- Every candidate has its vector: a location on layer 0, a node above it. -/
def Located (x : Index V) (layer : Nat) (points : Nat → V) (ids : List Nat) : Prop :=
  ∀ id ∈ ids, if layer = 0 then x.vectors id = some (points id)
    else ∃ node, x.nodes id = some node ∧ node.point = points id

theorem Located.pointAt (hlocated : Located x layer points ids) {id : Nat} (hid : id ∈ ids) :
    x.pointAt layer id = some (points id) := by
  have hat := hlocated id hid
  unfold Index.pointAt
  split at hat
  · rename_i hzero
    rw [if_pos hzero, hat]
  · rename_i hupper
    obtain ⟨node, hnode, hpoint⟩ := hat
    rw [if_neg hupper, hnode, ← hpoint]

theorem mapM_eq_some {α β : Type} {f : α → Option β} {g : α → β} {list : List α}
    (hall : ∀ a ∈ list, f a = some (g a)) : list.mapM f = some (list.map g) := by
  induction list with
  | nil => rfl
  | cons a list ih =>
      rw [List.mapM_cons, hall a (List.mem_cons_self ..),
        ih fun b hb => hall b (List.mem_cons_of_mem _ hb)]
      rfl

theorem Located.candVecs (hlocated : Located x layer points ids) :
    candVecs space x layer ids = some (ids.map points) := by
  unfold IndexGraph.candVecs
  split
  · rename_i hzero
    refine mapM_eq_some fun id hid => ?_
    have hat := hlocated id hid
    rwa [if_pos hzero] at hat
  · rename_i hupper
    refine congrArg some (List.map_congr_left fun id hid => ?_)
    have hat := hlocated id hid
    rw [if_neg hupper] at hat
    obtain ⟨node, hnode, hpoint⟩ := hat
    rw [hnode, ← hpoint]
    rfl

/-- The distances of the candidates, as they are computed. -/
def infos (space : Space V D) (query : V) (points : Nat → V) (ids : List Nat) :
    List (D × Nat) :=
  ids.map fun id => (space.distance query (points id), id)

theorem Located.scored (hlocated : Located x layer points ids) (query : V) :
    scored space x query ids layer = .hits (infos space query points ids) := by
  unfold IndexGraph.scored
  rw [mapM_eq_some fun id hid => by rw [hlocated.pointAt hid]; rfl]
  rfl

theorem diversify_eq {read : List Nat → Option (List V)} {apart : V → V → D}
    {maxNeighbors : Nat} {candInfos : List (D × Nat)}
    (hread : read ((space.sort candInfos).map Prod.snd) =
      some (((space.sort candInfos).map Prod.snd).map points)) :
    diversify space read apart maxNeighbors candInfos =
      .hits ((prune apart maxNeighbors []
        ((space.sort candInfos).map fun info => (info, points info.2))).map Prod.fst) := by
  simp only [diversify, hread, List.map_map, List.map_prod_left_eq_zip]
  rfl

/-- Candidates with distinct distances have one order. -/
theorem sort_eq {query : V} {results : List (D × Nat)}
    (hdistinct : (ids.map fun id => space.distance query (points id)).Nodup)
    (hresults : results.Perm (infos space query points ids)) :
    space.sort results = space.sort (infos space query points ids) := by
  refine List.Perm.eq_of_pairwise (fun a b ha hb hab hba => ?_) (space.sort_sorted _)
    (space.sort_sorted _) ((space.sort_perm _).trans (hresults.trans (space.sort_perm _).symm))
  have hmem : ∀ info, info ∈ space.sort (infos space query points ids) →
      ∃ id ∈ ids, info = (space.distance query (points id), id) := by
    intro info hinfo
    obtain ⟨id, hid, rfl⟩ := List.mem_map.mp ((space.sort_perm _).mem_iff.mp hinfo)
    exact ⟨id, hid, rfl⟩
  have ha' := hresults.mem_iff.mp ((space.sort_perm _).mem_iff.mp ha)
  obtain ⟨id, hid, rfl⟩ := List.mem_map.mp ha'
  obtain ⟨other, hother, rfl⟩ := hmem b hb
  have hsame := List.inj_on_of_nodup_map hdistinct hid hother (le_antisymm hab hba)
  rw [hsame]

theorem sort_strict {query : V}
    (hdistinct : (ids.map fun id => space.distance query (points id)).Nodup) :
    (space.sort (infos space query points ids)).Pairwise fun a b => a.1 < b.1 := by
  have hnodup : ((space.sort (infos space query points ids)).map Prod.fst).Nodup := by
    rw [((space.sort_perm (infos space query points ids)).map Prod.fst).nodup_iff, infos,
      List.map_map]
    exact hdistinct
  refine ((space.sort_sorted _).and (List.pairwise_map.mp hnodup)).imp fun hboth => ?_
  exact lt_of_le_of_ne hboth.1 hboth.2

/-- What a selection among `ids` keeps, in the order of the distances. -/
structure Selection (space : Space V D) (points : Nat → V) (query : V) (maxNeighbors : Nat)
    (ids selected : List Nat) : Prop where
  length_le : selected.length ≤ maxNeighbors
  subset : ∀ id ∈ selected, id ∈ ids
  nearest : ∀ id ∈ ids, (∀ other ∈ ids,
    space.distance query (points id) ≤ space.distance query (points other)) → id ∈ selected
  diverse : selected.Pairwise fun earlier later =>
    space.distance query (points earlier) < space.distance query (points later) ∧
      ¬ space.distance (points earlier) (points later) < space.distance query (points later)
  rejected : ∀ id ∈ ids, id ∉ selected →
    (∃ last ∈ selected,
      space.distance query (points id) < space.distance query (points last)) →
    ∃ earlier ∈ selected,
      space.distance query (points earlier) < space.distance query (points id) ∧
        space.distance (points earlier) (points id) < space.distance query (points id)

/-- The candidates in their order, with their vectors. -/
def inOrder (space : Space V D) (query : V) (points : Nat → V) (ids : List Nat) :
    List ((D × Nat) × V) :=
  (space.sort (infos space query points ids)).map fun info => (info, points info.2)

theorem mem_inOrder {query : V} {cand : (D × Nat) × V} :
    cand ∈ inOrder space query points ids ↔
      ∃ id ∈ ids, cand = ((space.distance query (points id), id), points id) := by
  unfold inOrder infos
  rw [List.mem_map]
  constructor
  · rintro ⟨info, hinfo, rfl⟩
    obtain ⟨id, hid, rfl⟩ := List.mem_map.mp ((space.sort_perm _).mem_iff.mp hinfo)
    exact ⟨id, hid, rfl⟩
  · rintro ⟨id, hid, rfl⟩
    exact ⟨_, (space.sort_perm _).mem_iff.mpr (List.mem_map_of_mem hid), rfl⟩

theorem selection_prune {query : V} {maxNeighbors : Nat} (hmax : 1 ≤ maxNeighbors)
    (hdistinct : (ids.map fun id => space.distance query (points id)).Nodup) :
    Selection space points query maxNeighbors ids
      ((prune space.distance maxNeighbors [] (inOrder space query points ids)).map Prod.fst) := by
  have hsorted : (inOrder space query points ids).Pairwise fun a b => a.1.1 < b.1.1 :=
    List.pairwise_map.mpr (sort_strict hdistinct)
  obtain ⟨kept, heq, hdiverse⟩ := prune_diverse space.distance maxNeighbors hsorted []
  have hselected : (prune space.distance maxNeighbors []
      (inOrder space query points ids)).map Prod.fst = kept.map fun cand => cand.1.2 := by
    rw [heq, List.nil_append, List.map_map]
    rfl
  have hcand : ∀ cand ∈ kept, ∃ id ∈ ids,
      cand = ((space.distance query (points id), id), points id) :=
    fun cand hkept => mem_inOrder.mp (hdiverse.sublist.subset hkept)
  have hkept : ∀ id, id ∈ kept.map (fun cand => cand.1.2) ↔
      ((space.distance query (points id), id), points id) ∈ kept := by
    intro id
    rw [List.mem_map]
    constructor
    · rintro ⟨cand, hin, rfl⟩
      obtain ⟨id, -, rfl⟩ := hcand cand hin
      exact hin
    · exact fun hin => ⟨_, hin, rfl⟩
  rw [hselected]
  refine ⟨?_, fun id hid => ?_, fun id hid hleast => ?_, ?_, ?_⟩
  · rw [List.length_map]
    simpa using hdiverse.length_le (Nat.zero_le _)
  · obtain ⟨found, hfound, hsame⟩ := hcand _ ((hkept id).mp hid)
    have hid' : id = found := congrArg (fun cand => cand.1.2) hsame
    exact hid' ▸ hfound
  · have hin : ((space.distance query (points id), id), points id) ∈
        inOrder space query points ids := mem_inOrder.mpr ⟨id, hid, rfl⟩
    rw [hkept]
    by_contra hout
    obtain ⟨first, hfirst⟩ : ∃ first, first ∈ kept := by
      apply List.exists_mem_of_ne_nil
      rintro rfl
      exact prune_ne_nil space.distance hmax (List.ne_nil_of_mem hin) heq
    obtain ⟨other, hother, rfl⟩ := hcand first hfirst
    have hle := hleast other hother
    have hlt : space.distance query (points id) < space.distance query (points other) := by
      refine lt_of_le_of_ne hle fun hsame => hout ?_
      rwa [List.inj_on_of_nodup_map hdistinct hid hother hsame]
    rcases hdiverse.rejected _ hin hout ⟨_, hfirst, hlt⟩ with ⟨_, hnone, -⟩ | hearlier
    · cases hnone
    · obtain ⟨earlier, hmem, hbefore, -⟩ := hearlier
      obtain ⟨found, hfound, rfl⟩ := hcand earlier hmem
      exact absurd hbefore (not_lt_of_ge (hleast found hfound))
  · rw [List.pairwise_map]
    refine ((hsorted.sublist hdiverse.sublist).and hdiverse.apart_kept).imp_of_mem ?_
    intro earlier later hearlier hlater hboth
    obtain ⟨a, -, rfl⟩ := hcand earlier hearlier
    obtain ⟨b, -, rfl⟩ := hcand later hlater
    exact hboth
  · rintro id hid hout ⟨last, hlast, hbefore⟩
    rw [hkept] at hout hlast
    rcases hdiverse.rejected _ (mem_inOrder.mpr ⟨id, hid, rfl⟩) hout ⟨_, hlast, hbefore⟩ with
      ⟨_, hnone, -⟩ | ⟨earlier, hmem, hlt, hclose⟩
    · cases hnone
    · obtain ⟨found, -, rfl⟩ := hcand earlier hmem
      exact ⟨found, (hkept found).mpr hmem, hlt, hclose⟩

end

/-! The two versions -/

/-- Both versions of the heuristic find the same candidates: all of them when they are few,
and otherwise a selection that is diverse. -/
theorem heuristics_agree {F : Type} [LinearOrder F] (ops : FloatArithmetic F)
    (metric : DistanceMetric) (dim : Nat) (space : Space (List F) F)
    (hspace : ∀ a b, a.length = dim → b.length = dim →
      ops.computeDistance metric a b = some (space.distance a b))
    (x : Index (List F)) (query : List F) (layer : Nat) (points : Nat → List F)
    {ids : List Nat} (hdim : ∀ id ∈ ids, (points id).length = dim)
    (hlocated : Located x layer points ids)
    (hdistinct : (ids.map fun id => space.distance query (points id)).Nodup)
    {maxNeighbors : Nat} (hmax : 1 ≤ maxNeighbors) :
    ∃ selected,
      selectNeighborsHeuristic2 space x query ids maxNeighbors layer = .hits selected ∧
      (∀ results, results.Perm (infos space query points ids) →
        ∃ selected', selectResultsHeuristic2 space x results maxNeighbors layer =
            .hits selected' ∧ ∀ id, id ∈ selected' ↔ id ∈ selected) ∧
      (ids.length ≤ maxNeighbors → selected = ids) ∧
      (maxNeighbors < ids.length →
        Selection space points query maxNeighbors ids selected) := by
  rcases Nat.lt_or_ge maxNeighbors ids.length with hmany | hfew
  · have hmem : ∀ id ∈ (space.sort (infos space query points ids)).map Prod.snd, id ∈ ids := by
      intro id hid
      obtain ⟨info, hinfo, rfl⟩ := List.mem_map.mp hid
      obtain ⟨found, hfound, rfl⟩ := List.mem_map.mp ((space.sort_perm _).mem_iff.mp hinfo)
      exact hfound
    have hsorted : Located x layer points
        ((space.sort (infos space query points ids)).map Prod.snd) :=
      fun id hid => hlocated id (hmem id hid)
    refine ⟨(prune space.distance maxNeighbors [] (inOrder space query points ids)).map Prod.fst,
      ?_, ?_, fun hfew => absurd hfew (Nat.not_le.mpr hmany),
      fun _ => selection_prune hmax hdistinct⟩
    · unfold selectNeighborsHeuristic2
      rw [if_neg (Nat.not_le.mpr hmany), hlocated.scored]
      exact diversify_eq (mapM_eq_some fun id hid => hlocated.pointAt (hmem id hid))
    · intro results hresults
      have hlength : results.length = ids.length := by
        rw [hresults.length_eq, infos, List.length_map]
      have hsort := sort_eq hdistinct hresults
      refine ⟨_, ?_, fun id => Iff.rfl⟩
      unfold selectResultsHeuristic2
      rw [if_neg (by omega), diversify_eq (by rw [hsort]; exact hsorted.candVecs), hsort]
      refine congrArg (fun kept : List (Nat × List F) => SearchEnd.hits (kept.map Prod.fst)) ?_
      refine prune_congr (P := fun point : List F => point.length = dim) maxNeighbors ?_ ?_ ?_
      · intro a b ha hb
        have hcomm := ops.computeDistance_comm metric b a
        rw [hspace b a hb ha, hspace a b ha hb] at hcomm
        exact Option.some.inj hcomm
      · intro cand hcand
        obtain ⟨id, hid, rfl⟩ := mem_inOrder.mp hcand
        exact hdim id hid
      · exact fun kept hkept => by cases hkept
  · refine ⟨ids, if_pos hfew, fun results hresults => ?_, fun _ => rfl,
      fun hmany => absurd hfew (Nat.not_le.mpr hmany)⟩
    refine ⟨results.map Prod.snd, if_pos ?_, fun id => ?_⟩
    · rw [hresults.length_eq, infos, List.length_map]
      exact hfew
    · rw [(hresults.map Prod.snd).mem_iff, infos, List.map_map]
      simp

/-- Whole numbers, with the roots of squares. -/
def wholeNumbers : FloatArithmetic Int where
  zero := 0
  one := 1
  infinity := 2 ^ 31
  sub := (· - ·)
  mul := (· * ·)
  div := (· / ·)
  sqrt a := (((List.range (a.toNat + 1)).find? fun n => n * n == a.toNat).getD 0 : Nat)
  sumOfProducts pairs := (pairs.map fun pair => pair.1 * pair.2).sum
  mul_comm := Int.mul_comm
  products_comm pairs := by
    rw [List.map_map]
    exact congrArg List.sum (List.map_congr_left fun pair _ => Int.mul_comm _ _)
  squares_comm a b := by
    have hsquare : (fun x y : Int => (y - x) * (y - x)) = fun x y => (x - y) * (x - y) := by
      funext x y
      rw [← Int.neg_sub x y, Int.neg_mul_neg]
    rw [List.map_zipWith, List.map_zipWith, List.zipWith_comm]
    exact congrArg (fun square : Int → Int → Int => (List.zipWith square b a).sum) hsquare

def wholeLine : Space (List Int) Int where
  distance := wholeNumbers.l2Distance
  sort := List.insertionSort fun a b => a.1 ≤ b.1
  sort_perm := List.perm_insertionSort _
  sort_sorted := List.pairwise_insertionSort _
  quantized := id
  zeros := [0]

def onTheLine (id : Nat) : List Int := [[1], [2], [-3]].getD id [0]

/-- Of two vectors on one side only the nearer is kept. -/
theorem heuristics_agree_line :
    selectNeighborsHeuristic2 wholeLine ⟨fun _ => none, none, -1, fun _ => [], fun id =>
      some (onTheLine id)⟩ [0] [0, 1, 2] 2 0 = .hits [0, 2] ∧
      Selection wholeLine onTheLine [0] 2 [0, 1, 2] [0, 2] := by
  have hvalue : selectNeighborsHeuristic2 wholeLine ⟨fun _ => none, none, -1, fun _ => [], fun id =>
      some (onTheLine id)⟩ [0] [0, 1, 2] 2 0 = .hits [0, 2] := by rfl
  obtain ⟨selected, hselected, -, -, hselection⟩ := heuristics_agree wholeNumbers .kL2 1 wholeLine
    (fun a b ha hb => if_neg (not_not.mpr (ha.trans hb.symm)))
    ⟨fun _ => none, none, -1, fun _ => [], fun id => some (onTheLine id)⟩ [0] 0 onTheLine
    (by decide : ∀ id ∈ [0, 1, 2], _) (fun id _ => rfl) (by decide) (by decide : 1 ≤ 2)
  rw [hvalue] at hselected
  obtain rfl := SearchEnd.hits.inj hselected
  exact ⟨hvalue, hselection (by decide)⟩

end IndexGraph

end AsterVec

import Mathlib.Algebra.BigOperators.Group.List.Lemmas
import AsterVec.RnnDescent

/-!
The output of the builder: when it is a well-formed graph.  Offsets are added as `int`, and
only neighbors that follow each other in the order of the distance are compared when
duplicates are removed.
-/

namespace AsterVec.RnnDescent

open AsterVec.SortedRuns

variable {D : Type} [LinearOrder D]

/-- The list of a node: at most `R` other nodes, without repetition, the nearest first. -/
structure Row (space : DistanceFunction D) (n R u : Nat) (ids : List Int) : Prop where
  length_le : ids.length ≤ R
  range : ∀ id ∈ ids, 0 ≤ id ∧ id < n
  ne_self : ∀ id ∈ ids, id ≠ u
  nodup : ids.Nodup
  nearest : ids.Pairwise fun a b => space.dist u a.toNat ≤ space.dist u b.toNat

structure Csr.WellFormed (space : DistanceFunction D) (n R : Nat) (csr : Csr) : Prop where
  length : csr.offsets.length = n + 1
  start : csr.offsets.head? = some 0
  sorted : csr.offsets.Pairwise (· ≤ ·)
  stop : csr.offsets.getLast? = some (csr.finalGraph.length : Int)
  rows : ∀ u < n, Row space n R u (csr.neighbors u)

/-! Offsets -/

/-- Where a row begins. -/
def startOf (rows : List (List Nat)) (u : Nat) : Nat := ((rows.map List.length).take u).sum

def total (rows : List (List Nat)) : Nat := (rows.map List.length).sum

theorem bmod_of_lt {off : Nat} (hlt : off < 2 ^ 31) : (off : Int).bmod (2 ^ 32) = off := by
  rw [Int.bmod_eq_of_le]
  · omega
  · omega

theorem csrOffsets_eq {rows : List (List Nat)} {off : Nat} (hsum : off + total rows < 2 ^ 31) :
    csrOffsets off rows =
      (List.range (rows.length + 1)).map fun u => ((off + startOf rows u : Nat) : Int) := by
  induction rows generalizing off with
  | nil => rfl
  | cons row rows ih =>
      have htotal : total (row :: rows) = row.length + total rows := rfl
      have hnext : ((off : Int) + row.length).bmod (2 ^ 32) = ((off + row.length : Nat) : Int) := by
        rw [← Nat.cast_add]
        exact bmod_of_lt (by omega)
      rw [csrOffsets, hnext, ih (by omega), List.length_cons,
        List.range_succ_eq_map (n := rows.length + 1), List.map_cons, List.map_map]
      refine congrArg₂ List.cons rfl (List.map_congr_left fun u _ => ?_)
      simp only [Function.comp, startOf, List.map_cons, List.take_succ_cons, List.sum_cons,
        Nat.add_assoc]

/-- A sum that leaves the range of `int` comes out below an offset before it. -/
theorem not_sorted_of_overflow {rows : List (List Nat)} (hrows : ∀ row ∈ rows,
      row.length < 2 ^ 31) {off : Nat} (hoff : off < 2 ^ 31) (hsum : 2 ^ 31 ≤ off + total rows) :
    ¬ (csrOffsets off rows).Pairwise (· ≤ ·) := by
  induction rows generalizing off with
  | nil => exact absurd hsum (Nat.not_le.mpr hoff)
  | cons row rows ih =>
      have htotal : total (row :: rows) = row.length + total rows := rfl
      have hrow := hrows row List.mem_cons_self
      intro hsorted
      rw [csrOffsets] at hsorted
      rcases Nat.lt_or_ge (off + row.length) (2 ^ 31) with hfits | hover
      · have hnext : ((off : Int) + row.length).bmod (2 ^ 32) =
            ((off + row.length : Nat) : Int) := by
          rw [← Nat.cast_add]
          exact bmod_of_lt hfits
        rw [hnext] at hsorted
        exact ih (fun row hrow => hrows row (List.mem_cons_of_mem _ hrow)) hfits (by omega)
          (List.pairwise_cons.mp hsorted).2
      · have hfirst : ((off : Int) + row.length).bmod (2 ^ 32) < 0 := by
          rw [Int.bmod_def]
          split
          · omega
          · omega
        have hnext : ((off : Int) + row.length).bmod (2 ^ 32) ∈
            csrOffsets (((off : Int) + row.length).bmod (2 ^ 32)) rows := by
          cases rows with
          | nil => exact List.mem_singleton.mpr rfl
          | cons next rows => exact List.mem_cons_self
        have hle := (List.pairwise_cons.mp hsorted).1 _ hnext
        omega

/-! The array -/

/-- Ids as the output has them. -/
def toInts (ids : List Nat) : List Int := List.map (fun id : Nat => (id : Int)) ids

@[simp] theorem toInts_nil : toInts [] = [] := rfl

@[simp] theorem toInts_cons (id : Nat) (ids : List Nat) :
    toInts (id :: ids) = (id : Int) :: toInts ids := rfl

@[simp] theorem toInts_append (ids others : List Nat) :
    toInts (ids ++ others) = toInts ids ++ toInts others := List.map_append

@[simp] theorem length_toInts (ids : List Nat) : (toInts ids).length = ids.length :=
  List.length_map _

theorem writeRow_eq (ids : List Nat) (written : List Int) (k : Nat) :
    writeRow written.length ids (written ++ List.replicate (ids.length + k) (-1)) =
      written ++ toInts ids ++ List.replicate k (-1) := by
  induction ids generalizing written with
  | nil => simp [writeRow]
  | cons id ids ih =>
      have hset : (written ++ List.replicate ((id :: ids).length + k) (-1)).set
          (written.length : Int).toNat (id : Int) =
            (written ++ [(id : Int)]) ++ List.replicate (ids.length + k) (-1) := by
        rw [List.length_cons, Nat.add_right_comm, List.replicate_succ, Int.toNat_natCast,
          List.set_append_right _ _ (Nat.le_refl _), Nat.sub_self, List.append_assoc]
        rfl
      have hnext : (written.length : Int) + 1 = ((written ++ [(id : Int)]).length : Nat) := by
        rw [List.length_append]
        rfl
      rw [writeRow, hset, hnext, ih]
      simp

/-- The rows are written one after the other. -/
theorem writeRows_eq (rows : List (List Nat)) (written : List Int)
    (hsum : written.length + total rows < 2 ^ 31) :
    ((csrOffsets written.length rows).zip rows).foldl
        (fun graph row => writeRow row.1 row.2 graph)
        (written ++ List.replicate (total rows) (-1)) =
      written ++ toInts rows.flatten := by
  induction rows generalizing written with
  | nil => rfl
  | cons row rows ih =>
      have htotal : total (row :: rows) = row.length + total rows := rfl
      have hlength : (written ++ toInts row).length =
          written.length + row.length := by
        rw [List.length_append, length_toInts]
      have hnext : ((written.length : Int) + row.length).bmod (2 ^ 32) =
          ((written ++ toInts row).length : Nat) := by
        rw [hlength, ← Nat.cast_add]
        exact bmod_of_lt (by omega)
      have hrest : (written ++ toInts row).length + total rows < 2 ^ 31 := by omega
      rw [csrOffsets, hnext, List.zip_cons_cons, List.foldl_cons, htotal]
      simp only
      rw [writeRow_eq, ih _ hrest]
      simp

theorem getLast?_offsets (rows : List (List Nat)) :
    ((List.range (rows.length + 1)).map fun u => (startOf rows u : Int)).getLast? =
      some (total rows : Int) := by
  have hall : startOf rows rows.length = total rows := by
    unfold startOf total
    rw [List.take_of_length_le (by rw [List.length_map])]
  rw [List.range_succ, List.map_append, List.map_singleton, hall, List.getLast?_concat]

/-- Without an overflow the output holds the rows. -/
theorem buildCsr_eq {rows : List (List Nat)} (hsum : total rows < 2 ^ 31) :
    buildCsr rows = some ⟨(List.range (rows.length + 1)).map fun u => (startOf rows u : Int),
      toInts rows.flatten⟩ := by
  have hoffsets : csrOffsets 0 rows =
      (List.range (rows.length + 1)).map fun u => (startOf rows u : Int) := by
    have heq := csrOffsets_eq (show 0 + total rows < 2 ^ 31 by omega)
    simpa using heq
  have hlast : (csrOffsets 0 rows).getLastD 0 = (total rows : Int) := by
    rw [hoffsets, List.getLastD_eq_getLast?, getLast?_offsets]
    rfl
  have hgraph := writeRows_eq rows [] (by simpa using hsum)
  unfold buildCsr
  simp only
  rw [hlast, if_neg (Int.not_lt.mpr (Int.natCast_nonneg _)), Int.toNat_natCast]
  simp only [List.length_nil, List.nil_append, Nat.cast_zero] at hgraph
  rw [hgraph, hoffsets]

theorem startOf_mono (rows : List (List Nat)) {u v : Nat} (hle : u ≤ v) :
    startOf rows u ≤ startOf rows v := by
  unfold startOf
  obtain ⟨k, rfl⟩ := Nat.exists_eq_add_of_le hle
  rw [List.take_add, List.sum_append]
  exact Nat.le_add_right _ _

theorem getD_offsets (rows : List (List Nat)) {u : Nat} (hu : u ≤ rows.length) :
    ((List.range (rows.length + 1)).map fun u => (startOf rows u : Int)).getD u 0 =
      startOf rows u := by
  rw [List.getD_eq_getElem?_getD, List.getElem?_map, List.getElem?_range (by omega)]
  rfl

/-- A row of the output. -/
theorem neighbors_eq {rows : List (List Nat)} {csr : Csr} (hsum : total rows < 2 ^ 31)
    (hcsr : buildCsr rows = some csr) {u : Nat} (hu : u < rows.length) :
    csr.neighbors u = toInts rows[u] := by
  rw [buildCsr_eq hsum] at hcsr
  cases hcsr
  have hstep : startOf rows (u + 1) = startOf rows u + rows[u].length := by
    unfold startOf
    rw [List.take_succ_eq_append_getElem (by rwa [List.length_map]), List.sum_append,
      List.getElem_map]
    rfl
  unfold Csr.neighbors
  simp only
  rw [getD_offsets rows hu.le, getD_offsets rows hu, hstep, Int.toNat_natCast, Nat.cast_add,
    add_sub_cancel_left, Int.toNat_natCast, toInts, ← List.map_drop, ← List.map_take]
  refine congrArg toInts ?_
  have hrow := List.drop_take_succ_flatten_eq_getElem rows u hu
  rw [List.drop_take] at hrow
  change (rows.flatten.drop (startOf rows u)).take (startOf rows (u + 1) - startOf rows u) =
    rows[u] at hrow
  rwa [hstep, Nat.add_sub_cancel_left] at hrow

variable {space : DistanceFunction D} {R : Nat}

/-- The output is well formed when its offsets do not overflow and its rows are well formed. -/
theorem wellFormed_iff {rows : List (List Nat)} {n : Nat} (hlength : rows.length = n)
    (hrows : ∀ row ∈ rows, row.length < 2 ^ 31) :
    (∃ csr, buildCsr rows = some csr ∧ csr.WellFormed space n R) ↔
      total rows < 2 ^ 31 ∧
        ∀ u, ∀ hu : u < rows.length, Row space n R u (toInts rows[u]) := by
  subst hlength
  constructor
  · rintro ⟨csr, hcsr, hwell⟩
    have hsum : total rows < 2 ^ 31 := by
      by_contra hover
      have hoffsets : csr.offsets = csrOffsets 0 rows := by
        unfold buildCsr at hcsr
        simp only at hcsr
        split at hcsr
        · cases hcsr
        · cases hcsr
          rfl
      refine not_sorted_of_overflow hrows (show 0 < 2 ^ 31 by decide) (by omega) ?_
      have hsorted := hwell.sorted
      rwa [hoffsets] at hsorted
    refine ⟨hsum, fun u hu => ?_⟩
    rw [← neighbors_eq hsum hcsr hu]
    exact hwell.rows u hu
  · rintro ⟨hsum, hlists⟩
    refine ⟨_, buildCsr_eq hsum, ?_⟩
    refine ⟨by simp, by simp [List.range_succ_eq_map, startOf], ?_, ?_, fun u hu => ?_⟩
    · refine List.pairwise_map.mpr (List.pairwise_lt_range.imp fun hlt => ?_)
      exact Int.ofNat_le.mpr (startOf_mono rows (Nat.le_of_lt hlt))
    · rw [getLast?_offsets, length_toInts, List.length_flatten]
      rfl
    · rw [neighbors_eq hsum (buildCsr_eq hsum) hu]
      exact hlists u hu

/-! The last step -/

/-- A sort that keeps neighbors at one distance in their order. -/
def stableOrder : SortOrder D where
  sort pool := pool.insertionSort fun a b => a.distance ≤ b.distance
  perm pool := List.perm_insertionSort _ pool
  sorted pool :=
    have : Std.Total fun a b : Neighbor D => a.distance ≤ b.distance :=
      ⟨fun a b => le_total a.distance b.distance⟩
    have : IsTrans (Neighbor D) fun a b => a.distance ≤ b.distance :=
      ⟨fun _ _ _ => le_trans⟩
    List.pairwise_insertionSort _ pool

/-- A sort that leaves one pool in a given order. -/
def SortOrder.replace (order : SortOrder D) {pool sorted : List (Neighbor D)}
    (hperm : sorted.Perm pool)
    (hsorted : sorted.Pairwise fun a b => a.distance ≤ b.distance) : SortOrder D where
  sort other := if other = pool then sorted else order.sort other
  perm other := by
    split
    · rename_i hsame
      exact hsame ▸ hperm
    · exact order.perm other
  sorted other := by
    split
    · exact hsorted
    · exact order.sorted other

/-- How many neighbors a pool holds, up to `R`. -/
def kept (R : Nat) (pool : List (Neighbor D)) : Nat :=
  min R (pool.map Neighbor.id).toFinset.card

theorem truncate_eq {pool : List (Neighbor D)} (hsize : pool.length < 2 ^ 31) :
    truncate R pool = pool.take R := by
  unfold truncate
  rw [bmod_of_lt hsize]
  split
  · rfl
  · rename_i hfew
    rw [List.take_of_length_le (by omega)]

theorem finalPool_eq {pool : List (Neighbor D)} (hsize : pool.length < 2 ^ 31)
    (order : SortOrder D) :
    finalPool R order pool = (uniqueBy Neighbor.id (order.sort pool)).take R := by
  refine truncate_eq (Nat.lt_of_le_of_lt ?_ hsize)
  exact uniqueBy_sublist.length_le.trans_eq (order.perm pool).length_eq

variable {n u : Nat} {g : Graph D}

theorem Sound.distance_eq_of_id (hsound : Sound space n g) :
    ∀ a ∈ g u, ∀ b ∈ g u, a.id = b.id → a.distance = b.distance := by
  intro a ha b hb hsame
  rw [(hsound u a ha).distance_eq, (hsound u b hb).distance_eq, hsame]

/-- Only a repetition keeps the list of a node from being well formed. -/
theorem row_iff (hsound : Sound space n g) (hsize : (g u).length < 2 ^ 31)
    (order : SortOrder D) :
    Row space n R u (toInts ((finalPool R order (g u)).map Neighbor.id)) ↔
      ((finalPool R order (g u)).map Neighbor.id).Nodup := by
  have hnodup : (toInts ((finalPool R order (g u)).map Neighbor.id)).Nodup ↔
      ((finalPool R order (g u)).map Neighbor.id).Nodup :=
    List.nodup_map_iff fun _ _ hsame => Int.ofNat.inj hsame
  refine ⟨fun hrow => hnodup.mp hrow.nodup, fun hids => ?_⟩
  have hentry : ∀ nn ∈ finalPool R order (g u), Entry space n u nn := fun nn hnn =>
    hsound u nn ((order.perm _).mem_iff.mp (unique_subset _ (truncate_subset _ _ hnn)))
  have hmem : ∀ id ∈ toInts ((finalPool R order (g u)).map Neighbor.id),
      ∃ nn ∈ finalPool R order (g u), (nn.id : Int) = id := by
    intro id hid
    unfold toInts at hid
    rw [List.map_map] at hid
    exact List.mem_map.mp hid
  refine ⟨?_, ?_, ?_, hnodup.mpr hids, ?_⟩
  · rw [length_toInts, List.length_map, finalPool_eq hsize]
    exact List.length_take_le R _
  · intro id hid
    obtain ⟨nn, hnn, rfl⟩ := hmem id hid
    exact ⟨Int.natCast_nonneg _, Int.ofNat_lt.mpr (hentry nn hnn).id_lt⟩
  · intro id hid
    obtain ⟨nn, hnn, rfl⟩ := hmem id hid
    exact fun hsame => (hentry nn hnn).id_ne (Int.ofNat.inj hsame)
  · have hsorted : (finalPool R order (g u)).Pairwise fun a b => a.distance ≤ b.distance := by
      rw [finalPool_eq hsize]
      exact (order.sorted _).sublist ((List.take_sublist _ _).trans uniqueBy_sublist)
    unfold toInts
    rw [List.map_map]
    refine List.pairwise_map.mpr (hsorted.imp_of_mem fun {a b} ha hb hle => ?_)
    rw [(hentry a ha).distance_eq, (hentry b hb).distance_eq] at hle
    exact hle

theorem nodup_finalPool (hsound : Sound space n g) (hsize : (g u).length < 2 ^ 31)
    (hclean : ¬ Interleaves Neighbor.id Neighbor.distance R (g u)) (order : SortOrder D) :
    ((finalPool R order (g u)).map Neighbor.id).Nodup := by
  rw [finalPool_eq hsize]
  by_contra hrepeat
  exact hclean (interleaves_of_repeat hsound.distance_eq_of_id (order.perm _) (order.sorted _)
    hrepeat)

theorem length_finalPool (hsize : (g u).length < 2 ^ 31) {order : SortOrder D}
    (hnodup : ((finalPool R order (g u)).map Neighbor.id).Nodup) :
    (finalPool R order (g u)).length = kept R (g u) := by
  rw [finalPool_eq hsize] at hnodup ⊢
  exact length_take_uniqueBy (order.perm _) hnodup

theorem finalRows_wellFormed_iff (hsound : Sound space n g) (hR : R < 2 ^ 31)
    (hsizes : ∀ u < n, (g u).length < 2 ^ 31) (final : Nat → SortOrder D) :
    (∃ csr, buildCsr (finalRows final R n g) = some csr ∧ csr.WellFormed space n R) ↔
      total (finalRows final R n g) < 2 ^ 31 ∧
        ∀ u < n, ((finalPool R (final u) (g u)).map Neighbor.id).Nodup := by
  have hlength : (finalRows final R n g).length = n := by simp [finalRows]
  have hrow : ∀ u, ∀ hu : u < (finalRows final R n g).length,
      (finalRows final R n g)[u] = (finalPool R (final u) (g u)).map Neighbor.id := by
    intro u hu
    simp [finalRows]
  have hrows : ∀ row ∈ finalRows final R n g, row.length < 2 ^ 31 := by
    intro row hmem
    obtain ⟨u, hu, rfl⟩ := List.mem_map.mp hmem
    rw [List.length_map]
    rw [finalPool_eq (hsizes u (List.mem_range.mp hu))]
    exact Nat.lt_of_le_of_lt (List.length_take_le R _) hR
  rw [wellFormed_iff hlength hrows]
  refine and_congr_right fun _ => ⟨fun hall u hu => ?_, fun hall u hu => ?_⟩
  · have hlist := hall u (hlength.symm ▸ hu)
    rw [hrow] at hlist
    exact (row_iff hsound (hsizes u hu) (final u)).mp hlist
  · have hlt : u < n := hlength ▸ hu
    rw [hrow]
    exact (row_iff hsound (hsizes u hlt) (final u)).mpr (hall u hlt)

theorem total_finalRows (hsizes : ∀ u < n, (g u).length < 2 ^ 31) {final : Nat → SortOrder D}
    (hnodup : ∀ u < n, ((finalPool R (final u) (g u)).map Neighbor.id).Nodup) :
    total (finalRows final R n g) = ((List.range n).map fun u => kept R (g u)).sum := by
  unfold total finalRows
  rw [List.map_map]
  refine congrArg List.sum (List.map_congr_left fun u hu => ?_)
  have hlt := List.mem_range.mp hu
  rw [Function.comp_apply, List.length_map, length_finalPool (hsizes u hlt) (hnodup u hlt)]

/-- The last step succeeds in every order that the sorts may leave, exactly when in no pool
neighbors at one distance can come between two entries of one of them, and the neighbors that
are left can be counted by an `int`. -/
theorem finish_iff (hsound : Sound space n g) (hR : R < 2 ^ 31)
    (hsizes : ∀ u < n, (g u).length < 2 ^ 31) :
    (∀ final, ∃ csr, buildCsr (finalRows final R n g) = some csr ∧
        csr.WellFormed space n R) ↔
      (∀ u < n, ¬ Interleaves Neighbor.id Neighbor.distance R (g u)) ∧
        ((List.range n).map fun u => kept R (g u)).sum < 2 ^ 31 := by
  simp only [finalRows_wellFormed_iff hsound hR hsizes]
  constructor
  · intro hall
    have hstable := hall fun _ => stableOrder
    rw [total_finalRows hsizes hstable.2] at hstable
    refine ⟨fun u hu hinterleaves => ?_, hstable.1⟩
    obtain ⟨sorted, hperm, hsorted, hrepeat⟩ :=
      exists_repeat_of_interleaves hsound.distance_eq_of_id hinterleaves
    have hnodup := (hall fun _ => stableOrder.replace hperm hsorted).2 u hu
    rw [finalPool_eq (hsizes u hu)] at hnodup
    simp only [SortOrder.replace, if_true] at hnodup
    exact hrepeat hnodup
  · rintro ⟨hclean, hsum⟩ final
    have hnodup : ∀ u < n, ((finalPool R (final u) (g u)).map Neighbor.id).Nodup :=
      fun u hu => nodup_finalPool hsound (hsizes u hu) (hclean u hu) (final u)
    rw [total_finalRows hsizes hnodup]
    exact ⟨hsum, hnodup⟩

/-- The points 0, 1 and -1 with their squared distance. -/
def line : DistanceFunction Nat where
  dist i j :=
    let points : List Int := [0, 1, -1]
    ((points.getD i 0 - points.getD j 0) ^ 2).toNat
  comm i j := by
    simp only
    congr 1
    ring

/-- Each node samples two ids.  The node in the middle of the line keeps both of its
neighbors, and gets both again from them. -/
def lineSamples (i : Nat) : List Nat :=
  genRandom (fun k => if k = 2 then (i + 1) % 3 else 0) 2 3

end AsterVec.RnnDescent

import AsterVec.IdTypes
import AsterVec.Stamps
import Mathlib.Order.Fin.Basic

/-!
The visited set of a search.  Direct ids are marked in an array with 16-bit epochs, all others in
a map with 32-bit epochs; the marks of earlier searches are never erased until an epoch wraps.
Memory is not bounded here.
-/

namespace AsterVec.VisitedSet

open AsterVec.IdTypes
open AsterVec.Stamps

/-- Node ids are 64-bit words. -/
abbrev NodeId := Fin (2 ^ 64)

structure SearchScratch where
  visitedMap : NodeId → Option (Fin (2 ^ 32))
  visitedVersion : Fin (2 ^ 32)
  visitedDense : List (Fin (2 ^ 16))
  denseVersion : Fin (2 ^ 16)

namespace SearchScratch

def init : SearchScratch :=
  { visitedMap := fun _ => none, visitedVersion := 0, visitedDense := [], denseVersion := 0 }

/-- The epoch of the map; the map is cleared when it wraps. -/
def nextVersion (s : SearchScratch) : SearchScratch :=
  let s := { s with visitedVersion := s.visitedVersion + 1 }
  if s.visitedVersion = 0 then { s with visitedMap := fun _ => none, visitedVersion := 1 } else s

/-- The epoch of the array; the array is filled with zeros when it wraps. -/
def nextDenseVersion (s : SearchScratch) : SearchScratch :=
  let s := { s with denseVersion := s.denseVersion + 1 }
  if s.denseVersion = 0 then
    { s with visitedDense := s.visitedDense.map fun _ => 0, denseVersion := 1 }
  else s

def beginSearch (dense : Bool) (s : SearchScratch) : SearchScratch :=
  let s := s.nextVersion
  if dense then s.nextDenseVersion else s

/-- Ids with bit 63 clear are direct. -/
def usesArray (dense : Bool) (id : NodeId) : Bool := dense && isDirectId id

def resizeFor (marks : List (Fin (2 ^ 16))) (i : Nat) : List (Fin (2 ^ 16)) :=
  if marks.length ≤ i then marks ++ List.replicate (i + 4096 - marks.length) 0 else marks

/-- Whether the id was not visited in this search. -/
def visitedInsert (dense : Bool) (id : NodeId) (s : SearchScratch) : Bool × SearchScratch :=
  if usesArray dense id then
    let i := id.val
    let s := { s with visitedDense := resizeFor s.visitedDense i }
    if s.visitedDense[i]? = some s.denseVersion then (false, s)
    else (true, { s with visitedDense := s.visitedDense.set i s.denseVersion })
  else if s.visitedMap id = some s.visitedVersion then (false, s)
  else (true, { s with visitedMap := Function.update s.visitedMap id (some s.visitedVersion) })

end SearchScratch

/-! Searches -/

/-- The answers to a row of ids. -/
def insertAll (dense : Bool) : List NodeId → SearchScratch → List Bool × SearchScratch
  | [], s => ([], s)
  | id :: ids, s =>
      let first := s.visitedInsert dense id
      let rest := insertAll dense ids first.2
      (first.1 :: rest.1, rest.2)

/-- The answers of searches, one after the other on one scratch. -/
def searches (dense : Bool) : List (List NodeId) → SearchScratch → List (List Bool)
  | [], _ => []
  | ids :: later, s =>
      let search := insertAll dense ids (s.beginSearch dense)
      search.1 :: searches dense later search.2

/-! The marks -/

open SearchScratch

/-- The marks of the array. -/
def denseMarks (marks : List (Fin (2 ^ 16))) (id : NodeId) : Option (Fin (2 ^ 16)) := marks[id.val]?

/-- Between two searches, and before the first one. -/
structure Ready (dense : Bool) (s : SearchScratch) : Prop where
  mapMarks : Bounded s.visitedMap s.visitedVersion
  arrayMarks : dense = true → Bounded (denseMarks s.visitedDense) s.denseVersion

/-- In a search that has visited `seen`. -/
structure Visiting (dense : Bool) (s : SearchScratch) (seen : List NodeId) : Prop where
  mapMarks : Exact s.visitedMap s.visitedVersion fun id =>
    id ∈ seen ∧ usesArray dense id = false
  arrayMarks : dense = true → Exact (denseMarks s.visitedDense) s.denseVersion fun id =>
    id ∈ seen ∧ usesArray dense id = true
  started : dense = true → 0 < s.denseVersion

variable {dense : Bool} {s : SearchScratch} {seen : List NodeId} {id : NodeId}

theorem ready_init : Ready dense SearchScratch.init where
  mapMarks id v hv := by cases hv
  arrayMarks _ id v hv := by cases hv

theorem Visiting.ready (hvisiting : Visiting dense s seen) : Ready dense s where
  mapMarks := hvisiting.mapMarks.bounded
  arrayMarks hdense := (hvisiting.arrayMarks hdense).bounded

/-- An epoch that does not wrap grows. -/
theorem lt_add_one {n : Nat} [NeZero n] (hn : 1 < n) {v : Fin n} (hne : v + 1 ≠ 0) : v < v + 1 := by
  have hone : (1 : Fin n).val = 1 := by
    rw [Fin.val_one', Nat.mod_eq_of_lt hn]
  have hval : (v + 1).val = (v.val + 1) % n := by
    rw [Fin.val_add, hone]
  rcases Nat.lt_or_ge (v.val + 1) n with hlt | hge
  · rw [Fin.lt_def, hval, Nat.mod_eq_of_lt hlt]
    exact Nat.lt_succ_self _
  · refine absurd (Fin.ext ?_) hne
    have hlast : v.val + 1 = n := Nat.le_antisymm v.isLt hge
    rw [hval, hlast, Nat.mod_self, Fin.val_zero]

theorem exact_nextVersion (hready : Ready dense s) :
    Exact s.nextVersion.visitedMap s.nextVersion.visitedVersion fun _ => False := by
  unfold nextVersion
  simp only
  split
  · exact exact_of_lt fun id v hv => by cases hv
  · rename_i hne
    exact hready.mapMarks.advance (lt_add_one (by decide) hne)

theorem exact_nextDenseVersion (hbounded : Bounded (denseMarks s.visitedDense) s.denseVersion) :
    Exact (denseMarks s.nextDenseVersion.visitedDense) s.nextDenseVersion.denseVersion
        (fun _ => False) ∧
      0 < s.nextDenseVersion.denseVersion := by
  have hone : (0 : Fin (2 ^ 16)) < 1 := by decide
  unfold nextDenseVersion
  simp only
  split
  · refine ⟨exact_of_lt fun id v hv => ?_, hone⟩
    rw [denseMarks, List.getElem?_map, Option.map_eq_some_iff] at hv
    obtain ⟨old, -, rfl⟩ := hv
    exact hone
  · rename_i hne
    exact ⟨hbounded.advance (lt_add_one (by decide) hne), Fin.pos_of_ne_zero hne⟩

/-- The two epochs do not touch each other. -/
theorem nextVersion_array : s.nextVersion.visitedDense = s.visitedDense ∧
    s.nextVersion.denseVersion = s.denseVersion := by
  unfold nextVersion
  simp only
  split <;> exact ⟨rfl, rfl⟩

theorem nextDenseVersion_map : s.nextDenseVersion.visitedMap = s.visitedMap ∧
    s.nextDenseVersion.visitedVersion = s.visitedVersion := by
  unfold nextDenseVersion
  simp only
  split <;> exact ⟨rfl, rfl⟩

/-- A search starts with nothing visited. -/
theorem Ready.beginSearch (hready : Ready dense s) : Visiting dense (s.beginSearch dense) [] := by
  have hmap := exact_nextVersion hready
  unfold SearchScratch.beginSearch
  cases dense with
  | false =>
      refine ⟨hmap.congr fun id => ?_, fun hdense => absurd hdense Bool.false_ne_true,
        fun hdense => absurd hdense Bool.false_ne_true⟩
      simp
  | true =>
      have hbounded : Bounded (denseMarks s.nextVersion.visitedDense)
          s.nextVersion.denseVersion := by
        rw [nextVersion_array.1, nextVersion_array.2]
        exact hready.arrayMarks rfl
      obtain ⟨harray, hpos⟩ := exact_nextDenseVersion hbounded
      refine ⟨?_, fun _ => harray.congr fun id => ?_, fun _ => hpos⟩
      · simp only [if_true, nextDenseVersion_map.1, nextDenseVersion_map.2]
        refine hmap.congr fun id => ?_
        simp
      · simp

theorem resizeFor_length (marks : List (Fin (2 ^ 16))) (i : Nat) :
    i < (resizeFor marks i).length := by
  unfold resizeFor
  split
  · rw [List.length_append, List.length_replicate]
    omega
  · omega

/-- New marks are zero. -/
theorem exact_resizeFor (harray : Exact (denseMarks s.visitedDense) s.denseVersion
      fun id => id ∈ seen ∧ usesArray dense id = true)
    (hpos : 0 < s.denseVersion) (i : Nat) :
    Exact (denseMarks (resizeFor s.visitedDense i)) s.denseVersion fun id =>
      id ∈ seen ∧ usesArray dense id = true := by
  refine harray.grow fun id => ?_
  unfold SearchScratch.resizeFor denseMarks
  split
  · rename_i hle
    rcases Nat.lt_or_ge id.val s.visitedDense.length with hlt | hge
    · exact .inl (List.getElem?_append_left hlt)
    · rw [List.getElem?_append_right hge]
      have hnone : s.visitedDense[id.val]? = none := List.getElem?_eq_none hge
      rcases Nat.lt_or_ge (id.val - s.visitedDense.length) (i + 4096 - s.visitedDense.length) with
        hin | hout
      · refine .inr ⟨hnone, 0, hpos, ?_⟩
        rw [List.getElem?_replicate, if_pos hin]
      · refine .inl ?_
        rw [List.getElem?_replicate, if_neg (Nat.not_lt.mpr hout), hnone]
  · exact .inl rfl

theorem denseMarks_set {marks : List (Fin (2 ^ 16))} (hlt : id.val < marks.length)
    (v : Fin (2 ^ 16)) :
    denseMarks (marks.set id.val v) = Function.update (denseMarks marks) id (some v) := by
  funext j
  unfold denseMarks
  rcases eq_or_ne j id with rfl | hne
  · rw [Function.update_self, List.getElem?_set_self hlt]
  · rw [Function.update_of_ne hne, List.getElem?_set_ne]
    exact fun hsame => hne (Fin.ext hsame.symm)

/-- Among the ids that are marked in one place a visit counts there only. -/
theorem visited_iff {place : NodeId → Bool} {there : Bool} (hplace : place id = there)
    (j : NodeId) : j = id ∨ j ∈ seen ∧ place j = there ↔ j ∈ id :: seen ∧ place j = there := by
  rw [List.mem_cons]
  refine ⟨?_, ?_⟩
  · rintro (rfl | ⟨hj, hthere⟩)
    · exact ⟨.inl rfl, hplace⟩
    · exact ⟨.inr hj, hthere⟩
  · rintro ⟨rfl | hj, hthere⟩
    · exact .inl rfl
    · exact .inr ⟨hj, hthere⟩

theorem not_visited_iff {place : NodeId → Bool} {there : Bool} (hplace : place id ≠ there)
    (j : NodeId) : j ∈ seen ∧ place j = there ↔ j ∈ id :: seen ∧ place j = there := by
  rw [List.mem_cons]
  refine and_congr_left fun hthere => (or_iff_right ?_).symm
  rintro rfl
  exact hplace hthere

theorem visited_again_iff {place : NodeId → Bool} {there : Bool} (hseen : id ∈ seen)
    (j : NodeId) : j ∈ seen ∧ place j = there ↔ j ∈ id :: seen ∧ place j = there := by
  rw [List.mem_cons]
  refine and_congr_left fun _ => (or_iff_right_of_imp ?_).symm
  rintro rfl
  exact hseen

/-- A call answers whether its id is new, and visits it. -/
theorem Visiting.visitedInsert (hvisiting : Visiting dense s seen) (id : NodeId) :
    (s.visitedInsert dense id).1 = decide (id ∉ seen) ∧
      Visiting dense (s.visitedInsert dense id).2 (id :: seen) := by
  unfold SearchScratch.visitedInsert
  by_cases huses : usesArray dense id = true
  · have hdense : dense = true := (Bool.and_eq_true_iff.mp huses).1
    have harray := exact_resizeFor (hvisiting.arrayMarks hdense) (hvisiting.started hdense) id.val
    have hother : usesArray dense id ≠ false := Bool.ne_false_iff.mpr huses
    have hmap := hvisiting.mapMarks.congr (not_visited_iff hother)
    simp only [if_pos huses]
    by_cases hmarked : (resizeFor s.visitedDense id.val)[id.val]? = some s.denseVersion
    · have hseen : id ∈ seen := ((harray.marked_iff id).mp hmarked).1
      rw [if_pos hmarked]
      refine ⟨by simp [hseen], hmap, fun _ => ?_, hvisiting.started⟩
      exact harray.congr (visited_again_iff hseen)
    · have hnew : id ∉ seen := fun hseen => hmarked ((harray.marked_iff id).mpr ⟨hseen, huses⟩)
      rw [if_neg hmarked]
      refine ⟨by simp [hnew], hmap, fun _ => ?_, hvisiting.started⟩
      simp only
      rw [denseMarks_set (resizeFor_length _ _)]
      exact (harray.mark id).congr (visited_iff huses)
  · have huses' : usesArray dense id = false := Bool.eq_false_iff.mpr huses
    have harray := fun hdense => (hvisiting.arrayMarks hdense).congr (not_visited_iff huses)
    simp only [if_neg huses]
    by_cases hmarked : s.visitedMap id = some s.visitedVersion
    · have hseen : id ∈ seen := ((hvisiting.mapMarks.marked_iff id).mp hmarked).1
      rw [if_pos hmarked]
      refine ⟨by simp [hseen], ?_, harray, hvisiting.started⟩
      exact hvisiting.mapMarks.congr (visited_again_iff hseen)
    · have hnew : id ∉ seen := fun hseen =>
        hmarked ((hvisiting.mapMarks.marked_iff id).mpr ⟨hseen, huses'⟩)
      rw [if_neg hmarked]
      refine ⟨by simp [hnew], ?_, harray, hvisiting.started⟩
      exact (hvisiting.mapMarks.mark id).congr (visited_iff huses')

/-- The answers of one search. -/
theorem Visiting.insertAll (hvisiting : Visiting dense s seen) (ids : List NodeId) :
    (insertAll dense ids s).1 = ids.mapIdx (fun k id => decide (id ∉ seen ∧ id ∉ ids.take k)) ∧
      Ready dense (insertAll dense ids s).2 := by
  induction ids generalizing s seen with
  | nil => exact ⟨rfl, hvisiting.ready⟩
  | cons id ids ih =>
      obtain ⟨hanswer, hnext⟩ := hvisiting.visitedInsert id
      obtain ⟨hanswers, hready⟩ := ih hnext
      refine ⟨?_, hready⟩
      rw [VisitedSet.insertAll, List.mapIdx_cons]
      simp only [hanswer, hanswers, List.take_zero, List.not_mem_nil, not_false_eq_true, and_true,
        List.take_succ_cons, List.mem_cons, not_or, and_assoc, and_left_comm]

/-- Every search answers `true` exactly for the first call with an id, whichever searches came
before it. -/
theorem searches_exact (dense : Bool) (rows : List (List NodeId)) :
    searches dense rows SearchScratch.init =
      rows.map fun ids => ids.mapIdx fun k id => decide (id ∉ ids.take k) := by
  have hruns : ∀ s, Ready dense s → searches dense rows s =
      rows.map fun ids => ids.mapIdx fun k id => decide (id ∉ ids.take k) := by
    induction rows with
    | nil => exact fun _ _ => rfl
    | cons ids rows ih =>
        intro s hready
        obtain ⟨hanswers, hlater⟩ := hready.beginSearch.insertAll ids
        rw [searches, List.map_cons, ih _ hlater, hanswers]
        simp only [List.not_mem_nil, not_false_eq_true, true_and]
  exact hruns _ ready_init

end AsterVec.VisitedSet

import Mathlib.Data.List.GetD
import AsterVec.PagedLayout

/-!
Where ids live.  As long as the two location arrays are as long as the capacity,
every lookup stays inside them, growing the capacity moves no id, and publishing
a location moves only its own id.
-/

namespace AsterVec.PagedVectorStorage

open AsterVec.IdTypes

variable {cfg : Config}

namespace Store

/-- Both location arrays are as long as the capacity. -/
structure LocationsFit (st : Store cfg) : Prop where
  pages_length : st.idToPage.length = st.totalVectors
  slots_length : st.idToSlotInPage.length = st.totalVectors

theorem SameTables.fit {st st' : Store cfg} (hsame : SameTables st st')
    (hfit : st.LocationsFit) : st'.LocationsFit :=
  ⟨by rw [hsame.pages, hsame.total]; exact hfit.pages_length,
    by rw [hsame.slots, hsame.total]; exact hfit.slots_length⟩

/-! The growth loop -/

/-- From a positive target the loop ends at a doubling of it, without leaving
the 64-bit range, when the capacity asked for does not exceed `2^63`. -/
theorem doubleUntil_eq_some {minCapacity : Nat} (hmin : minCapacity ≤ 2 ^ 63) :
    ∀ fuel target, 0 < target → minCapacity ≤ target * 2 ^ fuel →
      ∃ k, doubleUntil minCapacity fuel target = some (target * 2 ^ k) ∧
        minCapacity ≤ target * 2 ^ k := by
  intro fuel
  induction fuel with
  | zero =>
      intro target _ hreach
      unfold doubleUntil
      rw [Nat.pow_zero, Nat.mul_one] at hreach
      exact ⟨0, by simp [Nat.not_lt.mpr hreach], by simpa using hreach⟩
  | succ fuel ih =>
      intro target hpos hreach
      unfold doubleUntil
      by_cases hlt : target < minCapacity
      · have hmod : target * 2 % 2 ^ 64 = target * 2 := Nat.mod_eq_of_lt (by omega)
        have hreach' : minCapacity ≤ target * 2 * 2 ^ fuel := by
          rw [Nat.mul_assoc, Nat.mul_comm 2]
          exact hreach
        obtain ⟨k, hsome, hle⟩ := ih (target * 2) (by omega) hreach'
        refine ⟨k + 1, ?_, ?_⟩
        · simp only [if_pos hlt, hmod, hsome]
          rw [Nat.pow_succ, Nat.mul_comm (2 ^ k), Nat.mul_assoc]
        · rw [Nat.pow_succ, Nat.mul_comm (2 ^ k), ← Nat.mul_assoc]
          exact hle
      · exact ⟨0, by simp [hlt], by omega⟩

theorem growCapacity_eq_some (totalVectors : Nat) {minCapacity : Nat}
    (hmin : minCapacity ≤ 2 ^ 63) (hpos : 0 < minCapacity) :
    ∃ target, growCapacity totalVectors minCapacity = some target ∧
      minCapacity ≤ target := by
  have hstart : 0 < if totalVectors = 0 then minCapacity else totalVectors := by
    split <;> omega
  have hreach : minCapacity ≤
      (if totalVectors = 0 then minCapacity else totalVectors) * 2 ^ 64 := by
    have hpow : (2 : Nat) ^ 63 ≤ 2 ^ 64 := by decide
    calc minCapacity ≤ 2 ^ 64 := Nat.le_trans hmin hpow
      _ = 1 * 2 ^ 64 := (Nat.one_mul _).symm
      _ ≤ _ := Nat.mul_le_mul_right _ hstart
  obtain ⟨k, hsome, hle⟩ := doubleUntil_eq_some hmin 64 _ hstart hreach
  exact ⟨_, hsome, hle⟩

theorem resize_length {α : Type} (items : List α) (n : Nat) (fill : α) :
    (resize items n fill).length = n := by
  unfold resize
  rw [List.length_append, List.length_take, List.length_replicate]
  omega

theorem resize_of_le {α : Type} {items : List α} {n : Nat} (fill : α)
    (hle : items.length ≤ n) :
    resize items n fill = items ++ List.replicate (n - items.length) fill := by
  rw [resize, List.take_of_length_le hle]

/-- Entries behind the old end of a grown array are the fill value, which is
also what a lookup behind the end of an array yields. -/
theorem getD_resize {α : Type} {items : List α} {n : Nat} (fill : α)
    (hle : items.length ≤ n) (i : Nat) :
    (resize items n fill).getD i fill = items.getD i fill := by
  rw [resize_of_le fill hle]
  by_cases hi : i < items.length
  · rw [List.getD_append _ _ _ _ hi]
  · rw [List.getD_append_right _ _ _ _ (Nat.not_lt.mp hi),
      List.getD_eq_default items fill (Nat.not_lt.mp hi)]
    simp [List.getD_eq_getElem?_getD, List.getElem?_replicate]
    split <;> rfl

/-! Lookups inside the arrays -/

theorem getElem?_eq_getD {α : Type} {items : List α} {i : Nat} (fill : α)
    (hi : i < items.length) : items[i]? = some (items.getD i fill) := by
  rw [List.getD_eq_getElem _ _ hi, List.getElem?_eq_getElem hi]

theorem pageOf_eq {st : Store cfg} (hfit : st.LocationsFit) (id : Nat) :
    st.pageOf id = some (if isDirectId id then st.idToPage.getD id (-1)
      else (st.updateLocations.lookup id).elim (-1) UpdateLoc.page) := by
  unfold pageOf
  split
  · split
    · rename_i hlt
      exact getElem?_eq_getD _ (by rw [hfit.pages_length]; exact hlt)
    · rfl
  · rfl

theorem slotOf_eq {st : Store cfg} (hfit : st.LocationsFit) (id : Nat) :
    st.slotOf id = some (if isDirectId id then st.idToSlotInPage.getD id 0
      else (st.updateLocations.lookup id).elim 0 UpdateLoc.slot) := by
  unfold slotOf
  split
  · split
    · rename_i hlt
      exact getElem?_eq_getD _ (by rw [hfit.slots_length]; exact hlt)
    · rfl
  · rfl

theorem location_eq_some {st : Store cfg} {id pageId slot : Nat}
    (hlocation : st.location id = some (pageId, slot)) :
    st.pageOf id = some (.ofNat pageId) ∧ st.slotOf id = some slot := by
  unfold location at hlocation
  split at hlocation
  · rename_i hpage hslot
    cases hlocation
    exact ⟨hpage, hslot⟩
  · cases hlocation

theorem location_isSome {st : Store cfg} (hfit : st.LocationsFit) (id : Nat) :
    (st.location id).isSome = st.hasLocation id := by
  unfold location hasLocation
  rw [pageOf_eq hfit, slotOf_eq hfit]
  simp only [Option.elim_some]
  cases (if isDirectId id then st.idToPage.getD id (-1)
      else (st.updateLocations.lookup id).elim (-1) UpdateLoc.page) with
  | ofNat page => simp
  | negSucc n => simp

/-! Growing the capacity -/

/-- Growing the capacity succeeds or throws, and moves no id. -/
theorem ensureDenseCapacity_spec {st : Store cfg} (hfit : st.LocationsFit)
    (id : Nat) :
    (st.ensureDenseCapacity id).1 ≠ .undefined ∧
      (st.ensureDenseCapacity id).2.LocationsFit ∧
      (∀ other, (st.ensureDenseCapacity id).2.pageOf other = st.pageOf other ∧
        (st.ensureDenseCapacity id).2.slotOf other = st.slotOf other) ∧
      ((st.ensureDenseCapacity id).1 = .returned () → isDirectId id = true →
        id < (st.ensureDenseCapacity id).2.totalVectors) ∧
      ∃ target idToPage idToSlotInPage, (st.ensureDenseCapacity id).2 =
        { st with
          totalVectors := target
          idToPage := idToPage
          idToSlotInPage := idToSlotInPage } := by
  unfold ensureDenseCapacity
  by_cases hgrow : isDirectId id = true ∧ st.totalVectors ≤ id
  · rw [if_pos hgrow]
    have hid : id < 2 ^ 63 := (isDirectId_iff id).mp hgrow.1
    unfold expandCapacity
    rw [if_neg (by omega)]
    have hmin : id + 1 ≤ 2 ^ 63 := by omega
    obtain ⟨target, hsome, hle⟩ :=
      growCapacity_eq_some st.totalVectors hmin (Nat.succ_pos id)
    rw [hsome]
    simp only
    by_cases hmax : maxVectorElements < target
    · rw [if_pos hmax]
      exact ⟨by simp, hfit, fun _ => ⟨rfl, rfl⟩, by simp, _, _, _, rfl⟩
    · rw [if_neg hmax]
      have hpages : st.idToPage.length ≤ target := by
        rw [hfit.pages_length]
        omega
      have hslots : st.idToSlotInPage.length ≤ target := by
        rw [hfit.slots_length]
        omega
      have hfit' : ({ st with
          idToPage := resize st.idToPage target (-1)
          idToSlotInPage := resize st.idToSlotInPage target 0
          totalVectors := target } : Store cfg).LocationsFit :=
        ⟨resize_length _ _ _, resize_length _ _ _⟩
      refine ⟨by simp, hfit', ?_, fun _ _ => ?_, _, _, _, rfl⟩
      · intro other
        rw [pageOf_eq hfit', slotOf_eq hfit', pageOf_eq hfit, slotOf_eq hfit]
        simp only [getD_resize _ hpages, getD_resize _ hslots, and_self]
      · change id < target
        omega
  · rw [if_neg hgrow]
    refine ⟨by simp, hfit, fun _ => ⟨rfl, rfl⟩, fun _ hdirect => ?_, _, _, _, rfl⟩
    change id < st.totalVectors
    by_contra hle
    exact hgrow ⟨hdirect, by omega⟩

theorem totalVectors_le_ensureDenseCapacity (st : Store cfg) (id : Nat) :
    st.totalVectors ≤ (st.ensureDenseCapacity id).2.totalVectors := by
  unfold ensureDenseCapacity
  split
  · rename_i hgrow
    have hid : id < 2 ^ 63 := (isDirectId_iff id).mp hgrow.1
    obtain ⟨target, hsome, hle⟩ := growCapacity_eq_some st.totalVectors
      (show id + 1 ≤ 2 ^ 63 by omega) (Nat.succ_pos id)
    unfold expandCapacity
    rw [if_neg (by omega), hsome]
    simp only
    split
    · exact Nat.le_refl _
    · change st.totalVectors ≤ target
      omega
  · exact Nat.le_refl _

/-! Publishing a location -/

theorem totalVectors_assignLocation (st : Store cfg) (id page slot : Nat) :
    (st.assignLocation id page slot).2.totalVectors = st.totalVectors := by
  unfold assignLocation
  split
  · split
    · rfl
    · split <;> rfl
  · rfl

/-- Publishing succeeds or, for a page beyond the 32-bit range, throws without
a change; it moves no other id. -/
theorem assignLocation_spec {st : Store cfg} (hfit : st.LocationsFit)
    {id : Nat} (page slot : Nat)
    (hid : isDirectId id = true → id < st.totalVectors) :
    (st.assignLocation id page slot).1 ≠ .undefined ∧
      (st.assignLocation id page slot).2.LocationsFit ∧
      (∀ other, other ≠ id →
        (st.assignLocation id page slot).2.pageOf other = st.pageOf other ∧
        (st.assignLocation id page slot).2.slotOf other = st.slotOf other) ∧
      ((st.assignLocation id page slot).1 = .returned () →
        (st.assignLocation id page slot).2.location id = some (page, slot)) ∧
      ((st.assignLocation id page slot).1 ≠ .returned () →
        (st.assignLocation id page slot).2 = st) := by
  unfold assignLocation
  cases hdirect : isDirectId id with
  | true =>
      have hlt := hid hdirect
      rw [if_pos rfl]
      by_cases hbig : int32Max < page
      · rw [if_pos hbig]
        exact ⟨by simp, hfit, fun _ _ => ⟨rfl, rfl⟩, by simp, fun _ => rfl⟩
      · rw [if_neg hbig, if_pos (by
          rw [hfit.pages_length, hfit.slots_length]
          exact ⟨hlt, hlt⟩)]
        have hfit' : ({ st with
            idToPage := st.idToPage.set id page
            idToSlotInPage := st.idToSlotInPage.set id slot } :
              Store cfg).LocationsFit :=
          ⟨by simpa using hfit.pages_length, by simpa using hfit.slots_length⟩
        refine ⟨by simp, hfit', ?_, fun _ => ?_, by simp⟩
        · intro other hne
          rw [pageOf_eq hfit', slotOf_eq hfit', pageOf_eq hfit, slotOf_eq hfit]
          simp only [List.getD_eq_getElem?_getD, List.getElem?_set_ne hne.symm,
            and_self]
        · unfold location
          rw [pageOf_eq hfit', slotOf_eq hfit']
          have hpageLt : id < st.idToPage.length := by
            rw [hfit.pages_length]
            exact hlt
          have hslotLt : id < st.idToSlotInPage.length := by
            rw [hfit.slots_length]
            exact hlt
          simp only [hdirect, if_true, List.getD_eq_getElem?_getD,
            List.getElem?_set_self hpageLt, List.getElem?_set_self hslotLt,
            Option.getD_some]
  | false =>
      have hfit' : ({ st with
          updateLocations := st.updateLocations.insert id ⟨page, slot⟩ } :
            Store cfg).LocationsFit := ⟨hfit.pages_length, hfit.slots_length⟩
      simp only [Bool.false_eq_true, if_false]
      refine ⟨by simp, hfit', ?_, fun _ => ?_, by simp⟩
      · intro other hne
        rw [pageOf_eq hfit', slotOf_eq hfit', pageOf_eq hfit, slotOf_eq hfit]
        simp only [AList.lookup_insert_ne hne, and_self]
      · unfold location
        rw [pageOf_eq hfit', slotOf_eq hfit']
        simp only [hdirect, Bool.false_eq_true, if_false, AList.lookup_insert,
          Option.elim_some]

end Store

end AsterVec.PagedVectorStorage

import AsterVec.PagedBounds
import AsterVec.PagedSessions

/-!
Stores over the tables of one capacity.  The capacity grows by doubling, so a store opened
with the first one grows to the last; every used slot belongs to an id.
-/

namespace AsterVec.PagedVectorStorage

open AsterVec.ByteBuffer
open AsterVec.IdTypes

variable {cfg : Config}

namespace Store

/-! Capacities of one store -/

/-- A capacity that grew from `capacity` by doubling, or from nothing. -/
def Doubled (capacity total : Nat) : Prop :=
  capacity = 0 ∨ ∃ k, total = capacity * 2 ^ k

theorem doubleUntil_doubled {minCapacity : Nat} (hmin : minCapacity ≤ 2 ^ 63) :
    ∀ fuel target found, doubleUntil minCapacity fuel target = some found →
      ∃ k, found = target * 2 ^ k := by
  intro fuel
  induction fuel with
  | zero =>
      intro target found hfound
      unfold doubleUntil at hfound
      split at hfound
      · cases hfound
      · cases hfound
        exact ⟨0, by rw [Nat.pow_zero, Nat.mul_one]⟩
  | succ fuel ih =>
      intro target found hfound
      unfold doubleUntil at hfound
      split at hfound
      · rename_i hlt
        obtain ⟨k, hk⟩ := ih _ _ hfound
        rw [Nat.mod_eq_of_lt (by omega)] at hk
        exact ⟨k + 1, by rw [hk, Nat.pow_succ, Nat.mul_comm (2 ^ k), Nat.mul_assoc]⟩
      · cases hfound
        exact ⟨0, by rw [Nat.pow_zero, Nat.mul_one]⟩

/-- From `target` the loop finds its own doublings again. -/
theorem doubleUntil_self (k : Nat) :
    ∀ fuel target, k ≤ fuel → 0 < target → target * 2 ^ k ≤ 2 ^ 63 →
      doubleUntil (target * 2 ^ k) fuel target = some (target * 2 ^ k) := by
  induction k with
  | zero =>
      intro fuel target _ _ _
      unfold doubleUntil
      rw [Nat.pow_zero, Nat.mul_one, if_neg (Nat.lt_irrefl _)]
  | succ k ih =>
      intro fuel target hfuel hpos hle
      have hstep : target * 2 ^ (k + 1) = target * 2 * 2 ^ k := by
        rw [Nat.pow_succ, Nat.mul_comm (2 ^ k), Nat.mul_assoc]
      have hpow : 1 ≤ 2 ^ k := Nat.one_le_two_pow
      have hge : target * 2 * 1 ≤ target * 2 * 2 ^ k := Nat.mul_le_mul_left _ hpow
      rw [hstep] at hle ⊢
      cases fuel with
      | zero => omega
      | succ fuel =>
          unfold doubleUntil
          rw [if_pos (by omega)]
          simp only
          rw [Nat.mod_eq_of_lt (by omega)]
          exact ih fuel (target * 2) (by omega) (by omega) hle

/-- A store opened with the capacity it once started from grows to the one it saved. -/
theorem capacityFits_of_doubled {capacity : Nat} {st : Store cfg}
    (htotal : st.totalVectors ≤ maxVectorElements)
    (hdoubled : Doubled capacity st.totalVectors) : CapacityFits capacity st := by
  unfold CapacityFits growCapacity
  unfold maxVectorElements at htotal
  rcases hdoubled with rfl | ⟨k, hk⟩
  · rw [if_pos rfl]
    unfold doubleUntil
    rw [if_neg (Nat.lt_irrefl _)]
  · by_cases hzero : capacity = 0
    · rw [if_pos hzero]
      unfold doubleUntil
      rw [if_neg (Nat.lt_irrefl _)]
    · rw [if_neg hzero, hk]
      rw [hk] at htotal
      have hpow : 2 ^ k ≤ capacity * 2 ^ k :=
        Nat.le_mul_of_pos_left _ (Nat.pos_of_ne_zero hzero)
      have hfuel : k ≤ 64 := by
        by_contra hgt
        have := Nat.pow_le_pow_right (show 0 < 2 by decide) (show 64 ≤ k by omega)
        omega
      exact doubleUntil_self k 64 capacity hfuel (Nat.pos_of_ne_zero hzero) (by omega)

theorem doubled_ensureDenseCapacity {capacity : Nat} {st : Store cfg} (id : Nat)
    (hdoubled : Doubled capacity st.totalVectors) :
    Doubled capacity (st.ensureDenseCapacity id).2.totalVectors := by
  unfold ensureDenseCapacity
  split
  · rename_i hgrow
    have hid : id < 2 ^ 63 := (isDirectId_iff id).mp hgrow.1
    unfold expandCapacity
    split
    · exact hdoubled
    · split
      · exact hdoubled
      · rename_i target htarget
        split
        · exact hdoubled
        · rcases hdoubled with hzero | ⟨k, hk⟩
          · exact .inl hzero
          · by_cases hempty : st.totalVectors = 0
            · rw [hempty] at hk
              exact .inl ((Nat.mul_eq_zero.mp hk.symm).resolve_right
                (Nat.ne_of_gt (Nat.pow_pos (by decide))))
            · unfold growCapacity at htarget
              rw [if_neg hempty] at htarget
              obtain ⟨j, hj⟩ := doubleUntil_doubled (by omega) _ _ _ htarget
              refine .inr ⟨k + j, ?_⟩
              change target = _
              rw [hj, hk, Nat.pow_add, Nat.mul_assoc]
  · exact hdoubled

theorem doubled_storeEncoded {capacity : Nat} {st : Store cfg} (id : Nat)
    (record : Record cfg) (sectionKey : Nat) (hdoubled : Doubled capacity st.totalVectors) :
    Doubled capacity (storeEncoded id record sectionKey st).2.totalVectors := by
  refine storeEncoded_induct
    (motive := fun later => Doubled capacity later.totalVectors) ?_ ?_ ?_ ?_
  · exact doubled_ensureDenseCapacity id hdoubled
  · intro grown pageId slot hgrown
    have hlayout : ((updateCacheAfterWrite pageId slot record
        (writeRecord pageId slot record grown)).markDeletedAt id false).layout =
          grown.layout := by simp
    rw [(sameTables_of_layout_eq hlayout).total]
    exact hgrown
  · intro grown hgrown
    rw [(sameTables_allocateSlotForSection sectionKey grown).total]
    exact hgrown
  · intro allocated written sectionIdx pageId slot hallocated hwrite
    rw [totalVectors_assignLocation, (sameTables_of_layout_eq
      ((layout_markDeletedAt written id false).trans (layout_writeNewRecord hwrite))).total]
    exact hallocated

/-! Used slots -/

/-- `slot` lies below the used count of its page. -/
def Used (st : Store cfg) (pageId slot : Nat) : Prop :=
  ∃ page, st.pages[pageId]? = some page ∧ slot < page.usedSlots

/-- Every used slot belongs to an id. -/
def Filled (st : Store cfg) : Prop :=
  ∀ pageId slot, st.Used pageId slot → ∃ id, st.location id = some (pageId, slot)

/-- The allocator uses no slot but the one it hands out. -/
theorem used_allocateSlotForSection {sectionKey : Nat} {st st' : Store cfg}
    {granted : Option (Int × Nat × Nat)}
    (halloc : allocateSlotForSection sectionKey st = (granted, st')) {pageId slot : Nat}
    (hused : st'.Used pageId slot) :
    st.Used pageId slot ∨ ∃ sectionIdx, granted = some (sectionIdx, pageId, slot) := by
  have hsame : ∀ {a b : Store cfg}, b.layout.pages = a.layout.pages → b.Used pageId slot →
      a.Used pageId slot := by
    rintro a b hpages ⟨page, hpage, hslot⟩
    exact ⟨page, (congrArg (fun pages : List PageMeta => pages[pageId]?)
      hpages).symm.trans hpage, hslot⟩
  unfold allocateSlotForSection at halloc
  split at halloc
  · cases halloc
    exact .inl hused
  · rename_i sectionIdx found hlookup
    have hfound : found.layout.pages = st.layout.pages := by
      rw [lookupSection_layout hlookup]
    -- Phase A uses the next slot of an open page at most.
    have htaken : ∀ taken next, takeSectionSlot sectionIdx found = (taken, next) →
        next.Used pageId slot → st.Used pageId slot ∨ taken = some (pageId, slot) := by
      intro taken next htake hnext
      rcases takeSectionSlot_cases sectionIdx found with
        ⟨_, _, _, -, -, hlayout⟩ |
        ⟨openPage, _, _, used, -, -, hpage, -, -, hsome, hlayout⟩ | ⟨_, -, -, hlayout⟩
      · rw [htake] at hlayout
        exact .inl (hsame (by rw [hlayout]; exact hfound) hnext)
      · rw [htake] at hlayout hsome
        obtain ⟨page, hat, hslot⟩ := hnext
        have hat' : next.layout.pages[pageId]? = some page := hat
        rw [hlayout, Layout.getElem?_useSlot] at hat'
        obtain ⟨old, hold, heq⟩ := Option.map_eq_some_iff.mp hat'
        change found.layout.pages[pageId]? = some old at hold
        split at heq
        · rename_i hopen
          subst hopen heq
          change found.pages[openPage]? = some old at hold
          rw [hold] at hpage
          change old.usedSlots = used at hpage
          change slot < old.usedSlots + 1 at hslot
          by_cases hlast : slot = used
          · exact .inr (by rw [hlast]; exact hsome)
          · refine .inl (hsame hfound ⟨old, hold, by omega⟩)
        · subst heq
          exact .inl (hsame hfound ⟨old, hold, hslot⟩)
      · rw [htake] at hlayout
        exact .inl (hsame (by rw [hlayout]; exact hfound) hnext)
    cases htake : takeSectionSlot sectionIdx found with
    | mk taken next =>
        rw [htake] at halloc
        cases taken with
        | some entry =>
            cases halloc
            rcases htaken _ _ htake hused with hold | hnew
            · exact .inl hold
            · cases hnew
              exact .inr ⟨sectionIdx, rfl⟩
        | none =>
            have hnext : next.Used pageId slot → st.Used pageId slot := fun hnext =>
              (htaken _ _ htake hnext).resolve_right (by simp)
            simp only at halloc
            split at halloc
            · cases halloc
              exact .inl (hnext hused)
            · rename_i newPage appended happend
              cases halloc
              obtain ⟨rfl, hlayout⟩ := appendPage_eq_some happend
              have happended : appended.Used pageId slot := by
                rcases layout_publishOpenPage sectionIdx next.pages.length appended with
                  hpublish | hpublish
                · exact hsame (by rw [hpublish]) hused
                · exact hsame (by rw [hpublish]; rfl) hused
              obtain ⟨page, hat, hslot⟩ := happended
              have hat' : appended.layout.pages[pageId]? = some page := hat
              rw [hlayout] at hat'
              change (next.pages ++ [⟨sectionIdx, 1⟩])[pageId]? = some page at hat'
              by_cases hlt : pageId < next.pages.length
              · rw [List.getElem?_append_left hlt] at hat'
                exact .inl (hnext ⟨page, hat', hslot⟩)
              · rw [List.getElem?_append_right (Nat.not_lt.mp hlt)] at hat'
                rw [List.getElem?_singleton] at hat'
                split at hat'
                · cases hat'
                  change slot < 1 at hslot
                  refine .inr ⟨sectionIdx, ?_⟩
                  rw [show pageId = next.pages.length by omega, show slot = 0 by omega]
                · cases hat'

theorem Filled.congr {st st' : Store cfg} (hfilled : st.Filled)
    (hused : ∀ pageId slot, st'.Used pageId slot → st.Used pageId slot)
    (hlocation : ∀ id, st'.location id = st.location id) : st'.Filled := by
  intro pageId slot hslot
  obtain ⟨id, hid⟩ := hfilled pageId slot (hused pageId slot hslot)
  exact ⟨id, (hlocation id).trans hid⟩

theorem Filled.of_layout {st st' : Store cfg} (hfilled : st.Filled)
    (hlayout : st'.layout = st.layout) : st'.Filled := by
  refine hfilled.congr ?_ fun id => ((sameTables_of_layout_eq hlayout).location id).1
  rintro pageId slot ⟨page, hpage, hslot⟩
  exact ⟨page, (congrArg (fun layout : Layout => layout.pages[pageId]?) hlayout).symm.trans
    hpage, hslot⟩

/-- A page number of 32 bits can be published. -/
theorem assignLocation_returned {st : Store cfg} (hfit : st.LocationsFit) {id page : Nat}
    (slot : Nat) (hpage : page ≤ int32Max) (hid : isDirectId id = true → id < st.totalVectors) :
    (st.assignLocation id page slot).1 = .returned () := by
  unfold assignLocation
  split
  · rename_i hdirect
    have hlt := hid hdirect
    rw [if_neg (Nat.not_lt.mpr hpage), if_pos]
    exact ⟨by rw [hfit.pages_length]; exact hlt, by rw [hfit.slots_length]; exact hlt⟩
  · rfl

/-- As long as every page has a 32-bit number, a store leaves no used slot without an
id. -/
theorem filled_storeEncoded {st : Store cfg} (hsound : st.Sound) {id : Nat}
    (hid : st.hasLocation id = false) (record : Record cfg) (sectionKey : Nat)
    (hfilled : st.Filled)
    (hpages : (storeEncoded id record sectionKey st).2.pages.length ≤ 2 ^ 31) :
    (storeEncoded id record sectionKey st).2.Filled := by
  obtain ⟨-, hfit, hlocation, hroom, _, _, _, hgrownEq⟩ :=
    ensureDenseCapacity_spec hsound.fit id
  have hgrown : (st.ensureDenseCapacity id).2.Filled := by
    refine hfilled.congr ?_ fun other =>
      (location_of_tables (hlocation other).1 (hlocation other).2).1
    rw [hgrownEq]
    exact fun _ _ hused => hused
  have hgrownSound := (preserves_ensureDenseCapacity hsound id).sound
  have hnone := (location_of_tables (hlocation id).1 (hlocation id).2).2.trans hid
  rcases storeEncoded_cases hsound hid record sectionKey with
    ⟨grown, hensure, heq⟩ | ⟨grown, hensure, ⟨allocated, halloc, heq⟩ |
      ⟨sectionIdx, pageId, slot, allocated, written, halloc, hwrite, heq⟩⟩
  · rw [hensure] at hgrown
    rw [heq]
    exact hgrown
  · have htables := sameTables_allocateSlotForSection sectionKey grown
    rw [hensure] at hgrown
    rw [halloc] at htables
    rw [heq]
    refine hgrown.congr ?_ fun other => (htables.location other).1
    intro page found hused
    rcases used_allocateSlotForSection halloc hused with hold | ⟨_, hsome⟩
    · exact hold
    · cases hsome
  · have htables := sameTables_allocateSlotForSection sectionKey grown
    rw [hensure] at hgrown hfit hroom hgrownSound hnone
    rw [halloc] at htables
    have hgrants := allocateSlotForSection_grants hgrownSound.offers halloc
    have hlayout := (layout_markDeletedAt written id false).trans
      (layout_writeNewRecord hwrite)
    have hsame := htables.trans (sameTables_of_layout_eq hlayout)
    have hidLt : isDirectId id = true →
        id < (written.markDeletedAt id false).totalVectors := by
      intro hdirect
      rw [hsame.total]
      exact hroom rfl hdirect
    rw [heq] at hpages ⊢
    have hlength : (written.markDeletedAt id false).pages.length = allocated.pages.length :=
      congrArg (fun layout : Layout => layout.pages.length) hlayout
    have hpage : pageId ≤ int32Max := by
      have hlt : pageId < allocated.pages.length := hgrants.reserved.pageId_lt
      rw [pages_length_assignLocation, hlength] at hpages
      unfold int32Max
      omega
    have hreturned := assignLocation_returned (hsame.fit hfit) slot hpage hidLt
    obtain ⟨-, -, hothers, hplaced, -⟩ := assignLocation_spec (hsame.fit hfit) pageId slot hidLt
    intro page found hused
    have hallocated : allocated.Used page found := by
      obtain ⟨meta', hmeta, hslot⟩ := hused
      refine ⟨meta', ?_, hslot⟩
      have hpagesEq := (lists_assignLocation (written.markDeletedAt id false) id pageId
        slot).2.2.trans (congrArg Layout.pages hlayout)
      exact (congrArg (fun pages : List PageMeta => pages[page]?) hpagesEq).symm.trans hmeta
    rcases used_allocateSlotForSection halloc hallocated with hold | ⟨_, hnew⟩
    · obtain ⟨other, hother⟩ := hgrown page found hold
      have hne : other ≠ id := by
        rintro rfl
        rw [← location_isSome hgrownSound.fit, hother] at hnone
        cases hnone
      refine ⟨other, ?_⟩
      rw [(location_of_tables (hothers other hne).1 (hothers other hne).2).1,
        (hsame.location other).1]
      exact hother
    · cases hnew
      exact ⟨id, hplaced hreturned⟩

theorem Quiet.pages_length_le {st st' : Store cfg} (hquiet : Quiet st st') :
    st.pages.length ≤ st'.pages.length := by
  by_contra hlt
  have hlast : st'.pages.length < st.pages.length := Nat.not_le.mp hlt
  obtain ⟨page, hpage, -⟩ := hquiet.pages _ _ (List.getElem?_eq_getElem hlast)
  exact Nat.lt_irrefl _ (List.getElem?_eq_some_iff.mp hpage).1

/-- The page table never shrinks. -/
theorem pages_length_le_storeEncoded (id : Nat) (record : Record cfg) (sectionKey : Nat)
    (st : Store cfg) :
    st.pages.length ≤ (storeEncoded id record sectionKey st).2.pages.length := by
  refine storeEncoded_induct
    (motive := fun later => st.pages.length ≤ later.pages.length) ?_ ?_ ?_ ?_
  · exact (quiet_ensureDenseCapacity st id).pages_length_le
  · intro grown pageId slot hgrown
    have hlayout : ((updateCacheAfterWrite pageId slot record
        (writeRecord pageId slot record grown)).markDeletedAt id false).layout =
          grown.layout := by simp
    exact Nat.le_trans hgrown (Nat.le_of_eq
      (congrArg (fun layout : Layout => layout.pages.length) hlayout).symm)
  · intro grown hgrown
    exact Nat.le_trans hgrown (quiet_allocateSlotForSection sectionKey grown).pages_length_le
  · intro allocated written sectionIdx pageId slot hallocated hwrite
    have hlayout := (layout_markDeletedAt written id false).trans (layout_writeNewRecord hwrite)
    rw [pages_length_assignLocation]
    exact Nat.le_trans hallocated (Nat.le_of_eq
      (congrArg (fun layout : Layout => layout.pages.length) hlayout).symm)

/-- In tables fit to be saved, every location is a used slot. -/
theorem used_of_location {st : Store cfg} (hsaved : st.Saved) {id pageId slot : Nat}
    (hlocation : st.location id = some (pageId, slot)) : st.Used pageId slot := by
  obtain ⟨hpage, hslot⟩ := location_eq_some hlocation
  rw [pageOf_eq hsaved.fit] at hpage
  rw [slotOf_eq hsaved.fit] at hslot
  cases hdirect : isDirectId id with
  | true =>
      simp only [hdirect, if_true, Option.some.injEq] at hpage hslot
      have hlt : id < st.idToPage.length := by
        by_contra hge
        rw [List.getD_eq_default _ _ (Nat.not_lt.mp hge)] at hpage
        cases hpage
      have hltSlot : id < st.idToSlotInPage.length := by
        rw [hsaved.fit.slots_length, ← hsaved.fit.pages_length]
        exact hlt
      rw [List.getD_eq_getElem _ _ hlt] at hpage
      rw [List.getD_eq_getElem _ _ hltSlot] at hslot
      have hmem : ((pageId : Int), slot) ∈ st.idToPage.zip st.idToSlotInPage :=
        List.mem_iff_getElem.mpr ⟨id, by simp [hlt, hltSlot], by simp [hpage, hslot]⟩
      exact hsaved.savable.direct _ hmem (Int.natCast_nonneg _)
  | false =>
      simp only [hdirect, Bool.false_eq_true, if_false, Option.some.injEq] at hpage hslot
      cases hlookup : st.updateLocations.lookup id with
      | none =>
          rw [hlookup] at hpage
          cases hpage
      | some loc =>
          obtain ⟨page, slot'⟩ := loc
          rw [hlookup] at hpage hslot
          change page = Int.ofNat pageId at hpage
          change slot' = slot at hslot
          subst hpage hslot
          exact (hsaved.savable.update ⟨id, _⟩ (AList.mem_lookup_iff.mp hlookup)).2.2.2

end Store

end AsterVec.PagedVectorStorage

import AsterVec.PagedReload

/-!
Sessions of the paged store.  A session stores records and then saves; the next
one constructs a store of any capacity and loads the stream.  The reopened store
grows by doubling, but its location arrays take the saved length, so the stream
it writes in turn can be loaded only if the two agree.
-/

namespace AsterVec.PagedVectorStorage

open AsterVec.ByteBuffer
open AsterVec.IdTypes
open AsterVec.LittleEndian

variable {cfg : Config}

namespace Layout

/-- Locations stay inside a page table that only grows. -/
theorem Places.mono {layout layout' : Layout} {page : Int} {slot : Nat}
    (hplaces : layout.Places page slot)
    (hpages : ∀ (pageId : Nat) (found : PageMeta), layout.pages[pageId]? = some found →
      ∃ found', layout'.pages[pageId]? = some found' ∧
        found.usedSlots ≤ found'.usedSlots) : layout'.Places page slot := by
  obtain ⟨found, hfound, hslot⟩ := hplaces
  obtain ⟨found', hfound', hle⟩ := hpages _ found hfound
  exact ⟨found', hfound', by omega⟩

theorem Savable.setOpen {layout : Layout} (hsavable : layout.Savable)
    (sectionIdx : Int) (pages : List Nat) :
    (layout.setOpen sectionIdx pages).Savable :=
  ⟨hsavable.total_le, hsavable.pages_le, hsavable.keys_le, hsavable.keys_lt,
    hsavable.index_range, hsavable.section_range, hsavable.page_range,
    hsavable.slot_lt, hsavable.direct, hsavable.update⟩

theorem Savable.setFree {layout : Layout} (hsavable : layout.Savable)
    (sectionIdx : Int) (slots : List (Nat × Nat)) :
    (layout.setFree sectionIdx slots).Savable :=
  ⟨hsavable.total_le, hsavable.pages_le, hsavable.keys_le, hsavable.keys_lt,
    hsavable.index_range, hsavable.section_range, hsavable.page_range,
    hsavable.slot_lt, hsavable.direct, hsavable.update⟩

theorem Savable.useSlot {layout : Layout} (hsavable : layout.Savable)
    (pageId : Nat) : (layout.useSlot pageId).Savable := by
  have hgrows : ∀ (other : Nat) (found : PageMeta), layout.pages[other]? = some found →
      ∃ found', (layout.useSlot pageId).pages[other]? = some found' ∧
        found.usedSlots ≤ found'.usedSlots := fun other found hfound =>
    have ⟨found', hfound', _, hle⟩ := useSlot_page pageId hfound
    ⟨found', hfound', hle⟩
  refine ⟨hsavable.total_le, ?_, hsavable.keys_le, hsavable.keys_lt,
    hsavable.index_range, ?_, hsavable.page_range, hsavable.slot_lt,
    fun loc hloc hpos => (hsavable.direct loc hloc hpos).mono hgrows,
    fun entry hentry => ?_⟩
  · change (layout.pages.modify _ _).length ≤ _
    rw [List.length_modify]
    exact hsavable.pages_le
  · intro page hmem
    obtain ⟨i, hi⟩ := List.mem_iff_getElem?.mp hmem
    rw [getElem?_useSlot] at hi
    obtain ⟨old, hold, heq⟩ := Option.map_eq_some_iff.mp hi
    have hrange := hsavable.section_range old (List.mem_of_getElem? hold)
    split at heq <;> subst heq <;> exact hrange
  · obtain ⟨hlow, hhigh, hpos, hplaces⟩ := hsavable.update entry hentry
    exact ⟨hlow, hhigh, hpos, hplaces.mono hgrows⟩

theorem Savable.addPage {layout : Layout} (hsavable : layout.Savable)
    {page : PageMeta} (hroom : layout.pages.length < Store.maxTableElements)
    (hrange : -2 ^ 31 ≤ page.sectionIdx ∧ page.sectionIdx < 2 ^ 31) :
    (layout.addPage page).Savable := by
  have hgrows : ∀ (other : Nat) (found : PageMeta), layout.pages[other]? = some found →
      ∃ found', (layout.addPage page).pages[other]? = some found' ∧
        found.usedSlots ≤ found'.usedSlots := fun other found hfound =>
    ⟨found, getElem?_addPage hfound, Nat.le_refl _⟩
  refine ⟨hsavable.total_le, ?_, hsavable.keys_le, hsavable.keys_lt,
    hsavable.index_range, ?_, hsavable.page_range, hsavable.slot_lt,
    fun loc hloc hpos => (hsavable.direct loc hloc hpos).mono hgrows,
    fun entry hentry => ?_⟩
  · change (layout.pages ++ [page]).length ≤ _
    rw [List.length_append]
    exact hroom
  · intro other hmem
    rcases List.mem_append.mp hmem with hmem | hmem
    · exact hsavable.section_range other hmem
    · rw [List.mem_singleton.mp hmem]
      exact hrange
  · obtain ⟨hlow, hhigh, hpos, hplaces⟩ := hsavable.update entry hentry
    exact ⟨hlow, hhigh, hpos, hplaces.mono hgrows⟩

end Layout

namespace Store

theorem toInt32_range (n : Nat) : -2 ^ 31 ≤ toInt32 n ∧ toInt32 n < 2 ^ 31 := by
  have hmax : int32Max = 2 ^ 31 - 1 := rfl
  unfold toInt32
  split <;> omega

theorem savable_lookupSection {sectionKey : Nat} (hkey : sectionKey < 2 ^ 64)
    {st st' : Store cfg} {sectionIdx : Int} (hsavable : st.layout.Savable)
    (hlookup : lookupSection sectionKey st = some (sectionIdx, st')) :
    st'.layout.Savable ∧ -2 ^ 31 ≤ sectionIdx ∧ sectionIdx < 2 ^ 31 := by
  unfold lookupSection at hlookup
  split at hlookup
  · rename_i found hfound
    cases hlookup
    exact ⟨hsavable, hsavable.index_range _ _ hfound⟩
  · split at hlookup
    · cases hlookup
    · rename_i hroom
      cases hlookup
      refine ⟨⟨hsavable.total_le, hsavable.pages_le, ?_, ?_, ?_,
        hsavable.section_range, hsavable.page_range, hsavable.slot_lt,
        hsavable.direct, hsavable.update⟩, toInt32_range _⟩
      · change (st.sectionIdxToKey ++ [sectionKey]).length ≤ _
        rw [List.length_append]
        exact Nat.not_le.mp hroom
      · intro key hmem
        rcases List.mem_append.mp hmem with hmem | hmem
        · exact hsavable.keys_lt key hmem
        · rw [List.mem_singleton.mp hmem]
          exact hkey
      · intro key idx hidx
        change Function.update st.sectionKeyToIdx sectionKey _ key = some idx at hidx
        rw [Function.update_apply] at hidx
        split at hidx
        · cases hidx
          exact toInt32_range _
        · exact hsavable.index_range key idx hidx

theorem savable_takeSectionSlot (sectionIdx : Int) {st : Store cfg}
    (hsavable : st.layout.Savable) :
    (takeSectionSlot sectionIdx st).2.layout.Savable := by
  rcases takeSectionSlot_cases sectionIdx st with
    ⟨_, _, rest, -, -, hlayout⟩ | ⟨pageId, _, kept, _, -, -, -, -, -, -, hlayout⟩ |
    ⟨kept, -, -, hlayout⟩
  · rw [hlayout]
    exact hsavable.setFree sectionIdx rest
  · rw [hlayout]
    exact (hsavable.setOpen sectionIdx kept).useSlot pageId
  · rw [hlayout]
    exact hsavable.setOpen sectionIdx kept

theorem savable_appendPage {sectionIdx : Int}
    (hrange : -2 ^ 31 ≤ sectionIdx ∧ sectionIdx < 2 ^ 31) {st st' : Store cfg}
    {pageId : Nat} (hsavable : st.layout.Savable)
    (happend : appendPage sectionIdx st = some (pageId, st')) :
    st'.layout.Savable := by
  rw [(appendPage_eq_some happend).2]
  refine hsavable.addPage ?_ hrange
  unfold appendPage at happend
  simp only at happend
  split at happend
  · cases happend
  · rename_i hroom
    exact Nat.not_le.mp hroom

theorem savable_allocateSlotForSection {sectionKey : Nat}
    (hkey : sectionKey < 2 ^ 64) {st : Store cfg} (hsavable : st.layout.Savable) :
    (allocateSlotForSection sectionKey st).2.layout.Savable :=
  allocateSlotForSection_induct (motive := fun later => later.layout.Savable)
    (fun sectionIdx => -2 ^ 31 ≤ sectionIdx ∧ sectionIdx < 2 ^ 31) hsavable
    (fun _ _ hlookup => savable_lookupSection hkey hsavable hlookup)
    (fun sectionIdx _ hfound => savable_takeSectionSlot sectionIdx hfound)
    (fun _ _ _ _ hrange hfound happend => savable_appendPage hrange hfound happend)
    (fun sectionIdx pageId opened hopened => by
      rcases layout_publishOpenPage sectionIdx pageId opened with hlayout | hlayout
      · rw [hlayout]
        exact hopened
      · rw [hlayout]
        exact hopened.setOpen sectionIdx _)

theorem mem_resize {α : Type} {items : List α} {n : Nat} {fill item : α}
    (hmem : item ∈ resize items n fill) : item ∈ items ∨ item = fill := by
  unfold resize at hmem
  rcases List.mem_append.mp hmem with hmem | hmem
  · exact .inl (List.mem_of_mem_take hmem)
  · exact .inr (List.eq_of_mem_replicate hmem)

/-- A grown pair of arrays pairs the old entries and the fill values. -/
theorem mem_zip_resize {pages : List Int} {slots : List Nat} {n : Nat}
    (hlength : pages.length = slots.length) (hle : pages.length ≤ n)
    {loc : Int × Nat} (hmem : loc ∈ (resize pages n (-1)).zip (resize slots n 0)) :
    loc ∈ pages.zip slots ∨ loc.1 = -1 := by
  rw [resize_of_le _ hle, resize_of_le _ (hlength ▸ hle), List.zip_append hlength] at hmem
  rcases List.mem_append.mp hmem with hmem | hmem
  · exact .inl hmem
  · exact .inr (List.eq_of_mem_replicate (List.of_mem_zip hmem).1)

theorem savable_expandCapacity {st : Store cfg} (hfit : st.LocationsFit)
    (hsavable : st.layout.Savable) {minCapacity : Nat} (hpos : 0 < minCapacity)
    (hmin : minCapacity ≤ 2 ^ 63) : (st.expandCapacity minCapacity).2.layout.Savable := by
  unfold expandCapacity
  split
  · exact hsavable
  · rename_i hsmall
    split
    · exact hsavable
    · rename_i target hgrow
      split
      · exact hsavable
      · rename_i hmax
        have hle : st.totalVectors ≤ target := by
          obtain ⟨found, hfound, hfoundLe⟩ :=
            growCapacity_eq_some st.totalVectors hmin hpos
          rw [hgrow] at hfound
          cases hfound
          omega
        refine ⟨Nat.not_lt.mp hmax, hsavable.pages_le, hsavable.keys_le,
          hsavable.keys_lt, hsavable.index_range, hsavable.section_range, ?_, ?_, ?_,
          hsavable.update⟩
        · intro page hmem
          rcases mem_resize hmem with hmem | rfl
          · exact hsavable.page_range page hmem
          · exact ⟨Int.le_refl _, by unfold int32Max; omega⟩
        · intro slot hmem
          rcases mem_resize hmem with hmem | rfl
          · exact hsavable.slot_lt slot hmem
          · exact Nat.pow_pos (by decide)
        · intro loc hmem hloc
          rcases mem_zip_resize (hfit.pages_length.trans hfit.slots_length.symm)
            (hfit.pages_length ▸ hle) hmem with hmem | hneg
          · exact hsavable.direct loc hmem hloc
          · omega

theorem mem_zip_set {pages : List Int} {slots : List Nat} {id : Nat} {page : Int}
    {slot : Nat} {loc : Int × Nat}
    (hmem : loc ∈ (pages.set id page).zip (slots.set id slot)) :
    loc ∈ pages.zip slots ∨ loc = (page, slot) := by
  obtain ⟨i, hi⟩ := List.mem_iff_getElem?.mp hmem
  obtain ⟨hpage, hslot⟩ := List.getElem?_zip_eq_some.mp hi
  rw [List.getElem?_set] at hpage hslot
  by_cases hid : id = i
  · rw [if_pos hid] at hpage hslot
    split at hpage
    · split at hslot
      · exact .inr (Prod.ext (Option.some.inj hpage).symm (Option.some.inj hslot).symm)
      · cases hslot
    · cases hpage
  · rw [if_neg hid] at hpage hslot
    exact .inl (List.mem_of_getElem? (List.getElem?_zip_eq_some.mpr ⟨hpage, hslot⟩))

theorem savable_assignLocation {st : Store cfg} (hsavable : st.layout.Savable)
    {id page slot : Nat} (hid : id < 2 ^ 64) {sectionIdx : Int}
    (hinUse : st.layout.InUse sectionIdx page slot) (hslot : slot < 2 ^ 16) :
    (st.assignLocation id page slot).2.layout.Savable := by
  obtain ⟨found, hfound, -, hused⟩ := hinUse
  have hplaces : st.layout.Places (page : Int) slot := ⟨found, by simpa using hfound, hused⟩
  unfold assignLocation
  cases hdirect : isDirectId id with
  | true =>
      rw [if_pos rfl]
      split
      · exact hsavable
      · rename_i hbig
        split
        · refine ⟨hsavable.total_le, hsavable.pages_le, hsavable.keys_le,
            hsavable.keys_lt, hsavable.index_range, hsavable.section_range, ?_, ?_, ?_,
            hsavable.update⟩
          · intro other hmem
            rcases List.mem_or_eq_of_mem_set hmem with hmem | rfl
            · exact hsavable.page_range other hmem
            · omega
          · intro other hmem
            rcases List.mem_or_eq_of_mem_set hmem with hmem | rfl
            · exact hsavable.slot_lt other hmem
            · exact hslot
          · intro loc hmem hpos
            rcases mem_zip_set hmem with hmem | rfl
            · exact hsavable.direct loc hmem hpos
            · exact hplaces
        · exact hsavable
  | false =>
      simp only [Bool.false_eq_true, if_false]
      refine ⟨hsavable.total_le, hsavable.pages_le, hsavable.keys_le,
        hsavable.keys_lt, hsavable.index_range, hsavable.section_range,
        hsavable.page_range, hsavable.slot_lt, hsavable.direct, ?_⟩
      intro entry hmem
      change entry ∈ (st.updateLocations.insert id ⟨page, slot⟩).entries at hmem
      rw [AList.entries_insert] at hmem
      rcases List.mem_cons.mp hmem with rfl | hmem
      · exact ⟨(isDirectId_eq_false_iff id).mp hdirect, hid, Int.natCast_nonneg page,
          hplaces⟩
      · exact hsavable.update entry ((List.kerase_sublist id _).subset hmem)

/-! One store of a record -/

theorem Saved.congr {st st' : Store cfg} (hsaved : st.Saved)
    (hlayout : st'.layout = st.layout) : st'.Saved :=
  ⟨(offers_congr hlayout).mpr hsaved.offers,
    (sameTables_of_layout_eq hlayout).fit hsaved.fit, hlayout ▸ hsaved.savable⟩

theorem saved_ensureDenseCapacity {st : Store cfg} (hsaved : st.Saved) (id : Nat) :
    (st.ensureDenseCapacity id).2.Saved := by
  obtain ⟨-, hfit, -, -, _, _, _, hst⟩ := ensureDenseCapacity_spec hsaved.fit id
  refine ⟨offers_of_lists hsaved.offers (by rw [hst]; rfl) (by rw [hst]; rfl)
    (by rw [hst]; rfl), hfit, ?_⟩
  unfold ensureDenseCapacity
  split
  · rename_i hgrow
    have hid : id < 2 ^ 63 := (isDirectId_iff id).mp hgrow.1
    exact savable_expandCapacity hsaved.fit hsaved.savable (Nat.succ_pos id) hid
  · exact hsaved.savable

theorem saved_assignLocation {st : Store cfg} (hsaved : st.Saved) {id page slot : Nat}
    (hid : id < 2 ^ 64) (hroom : isDirectId id = true → id < st.totalVectors)
    {sectionIdx : Int} (hinUse : st.layout.InUse sectionIdx page slot) :
    (st.assignLocation id page slot).2.Saved := by
  obtain ⟨hopen, hfree, hpages⟩ := lists_assignLocation st id page slot
  obtain ⟨-, hfit, -⟩ := assignLocation_spec hsaved.fit page slot hroom
  have hslot : slot < 2 ^ 16 := by
    obtain ⟨found, hfound, -, hused⟩ := hinUse
    have hle := hsaved.offers.used_le found (List.mem_of_getElem? hfound)
    have hlt := vectorsPerPage_lt cfg
    omega
  exact ⟨offers_of_lists hsaved.offers hopen hfree hpages, hfit,
    savable_assignLocation hsaved.savable hid hinUse hslot⟩

/-- Whether it returns, throws or finds the id already stored, a store keeps the
tables fit to be saved. -/
theorem saved_storeEncoded {st : Store cfg} (hsaved : st.Saved) {id : Nat}
    (hid : id < 2 ^ 64) (record : Record cfg) {sectionKey : Nat}
    (hkey : sectionKey < 2 ^ 64) :
    (storeEncoded id record sectionKey st).2.Saved := by
  have hgrown := saved_ensureDenseCapacity hsaved id
  obtain ⟨-, -, -, hroom, -⟩ := ensureDenseCapacity_spec hsaved.fit id
  unfold storeEncoded
  cases hensure : st.ensureDenseCapacity id with
  | mk outcome grown =>
      rw [hensure] at hgrown hroom
      change grown.Saved at hgrown
      cases outcome with
      | undefined => exact hgrown
      | threw => exact hgrown
      | returned _ =>
          simp only
          split
          · exact hgrown
          · exact hgrown
          · exact hgrown.congr (by simp)
          · have htables := sameTables_allocateSlotForSection sectionKey grown
            have hsavable := savable_allocateSlotForSection hkey hgrown.savable
            cases halloc : allocateSlotForSection sectionKey grown with
            | mk granted allocated =>
                rw [halloc] at htables hsavable
                cases granted with
                | none =>
                    exact ⟨(allocateSlotForSection_none hgrown.offers halloc).1,
                      htables.fit hgrown.fit, hsavable⟩
                | some entry =>
                    obtain ⟨sectionIdx, pageId, slot⟩ := entry
                    have hgrants := allocateSlotForSection_grants hgrown.offers halloc
                    have hallocated : allocated.Saved :=
                      ⟨hgrants.offers, htables.fit hgrown.fit, hsavable⟩
                    simp only
                    cases hwrite : writeNewRecord sectionIdx pageId slot record
                        allocated with
                    | none => exact hallocated
                    | some written =>
                        have hlayout : (written.markDeletedAt id false).layout =
                            allocated.layout :=
                          (layout_markDeletedAt written id false).trans
                            (layout_writeNewRecord hwrite)
                        have hinUse : (written.markDeletedAt id false).layout.InUse
                            sectionIdx pageId slot := by
                          rw [hlayout]
                          exact hgrants.inUse
                        refine saved_assignLocation (hallocated.congr hlayout) hid
                          (fun hdirect => ?_) hinUse
                        have htotal := congrArg Layout.totalVectors hlayout
                        change (written.markDeletedAt id false).totalVectors =
                          allocated.totalVectors at htotal
                        rw [htotal, htables.total]
                        exact hroom rfl hdirect

/-! One reopening -/

theorem keyToIdx_range {keys : List Nat} {key : Nat} {sectionIdx : Int}
    (hidx : keyToIdx keys key = some sectionIdx) :
    -2 ^ 31 ≤ sectionIdx ∧ sectionIdx < 2 ^ 31 := by
  have hfold : ∀ (entries : List (Nat × Nat)) (map : Nat → Option Int),
      (∀ key sectionIdx, map key = some sectionIdx →
        -2 ^ 31 ≤ sectionIdx ∧ sectionIdx < 2 ^ 31) →
      ∀ key sectionIdx, entries.foldl (fun (map : Nat → Option Int) entry =>
        Function.update map entry.1 (some (toInt32 entry.2))) map key =
          some sectionIdx → -2 ^ 31 ≤ sectionIdx ∧ sectionIdx < 2 ^ 31 := by
    intro entries
    induction entries with
    | nil => exact fun _ hmap => hmap
    | cons entry entries ih =>
        intro map hmap
        refine ih _ fun key sectionIdx hupdate => ?_
        simp only [Function.update_apply] at hupdate
        split at hupdate
        · cases hupdate
          exact toInt32_range _
        · exact hmap key sectionIdx hupdate
  exact hfold _ _ (fun _ _ hnone => by cases hnone) key sectionIdx hidx

/-- Loading the stream of a store into one of its capacity gives a store whose
tables are fit to be saved again. -/
theorem saved_rebuild {st grown : Store cfg} (hsaved : st.Saved)
    (hcapacity : grown.totalVectors = st.totalVectors) :
    (rebuild grown st.tables).Saved := by
  have hsavable := hsaved.savable
  refine ⟨offers_rebuild grown hsaved.offers.used_le,
    ⟨hsaved.fit.pages_length.trans hcapacity.symm,
      hsaved.fit.slots_length.trans hcapacity.symm⟩, ?_⟩
  refine ⟨?_, hsavable.pages_le, hsavable.keys_le, hsavable.keys_lt,
    fun key sectionIdx hidx => keyToIdx_range hidx, hsavable.section_range,
    hsavable.page_range, hsavable.slot_lt, hsavable.direct, ?_⟩
  · change grown.totalVectors ≤ _
    rw [hcapacity]
    exact hsavable.total_le
  · intro entry hentry
    have hlookup : (updateMap st.updateLocations.entries).lookup entry.1 =
        some entry.2 := AList.mem_lookup_iff.mpr hentry
    rw [lookup_updateMap] at hlookup
    exact hsavable.update entry (AList.mem_lookup_iff.mp hlookup)

theorem sameLocations_rebuild {st grown : Store cfg} (hsaved : st.Saved)
    (hcapacity : grown.totalVectors = st.totalVectors) (id : Nat) :
    (rebuild grown st.tables).pageOf id = st.pageOf id ∧
      (rebuild grown st.tables).slotOf id = st.slotOf id := by
  have hlookup : (rebuild grown st.tables).updateLocations.lookup id =
      st.updateLocations.lookup id := lookup_updateMap st.updateLocations id
  have hfit := (saved_rebuild hsaved hcapacity).fit
  rw [pageOf_eq hfit, slotOf_eq hfit, pageOf_eq hsaved.fit, slotOf_eq hsaved.fit,
    hlookup]
  exact ⟨rfl, rfl⟩

theorem saved_construct {capacity : Nat} {file : ByteFile}
    {deletedFlags : Nat → Bool} {fresh : Store cfg}
    (hconstruct : construct cfg capacity file deletedFlags = some fresh) :
    fresh.Saved := by
  obtain ⟨-, hoffers, hfit⟩ := sound_construct hconstruct
  refine ⟨hoffers, hfit, ?_⟩
  unfold construct at hconstruct
  split at hconstruct
  · cases hconstruct
  · rename_i hcapacity
    cases hconstruct
    refine ⟨Nat.not_lt.mp hcapacity, Nat.zero_le _, Nat.zero_le _,
      fun _ hmem => absurd hmem List.not_mem_nil, fun _ _ hidx => (by cases hidx),
      fun _ hmem => absurd hmem List.not_mem_nil, ?_, ?_, ?_,
      fun _ hmem => absurd hmem List.not_mem_nil⟩
    · intro page hmem
      rw [List.eq_of_mem_replicate hmem]
      exact ⟨Int.le_refl _, by unfold int32Max; omega⟩
    · intro slot hmem
      rw [List.eq_of_mem_replicate hmem]
      exact Nat.pow_pos (by decide)
    · intro loc hmem hpos
      rw [List.eq_of_mem_replicate (List.of_mem_zip hmem).1] at hpos
      omega

/-! Runs of several sessions -/

/-- The growth loop of a store of `capacity` vectors stops at exactly the number
of vectors the stream of `st` announces. -/
def CapacityFits (capacity : Nat) (st : Store cfg) : Prop :=
  growCapacity capacity st.totalVectors = some st.totalVectors

instance (capacity : Nat) (st : Store cfg) : Decidable (CapacityFits capacity st) :=
  inferInstanceAs (Decidable (_ = _))

/-- States of runs that start from an empty store, store records of any ids, and
save and reopen with capacities that satisfy `Fits` for the store saved. -/
inductive Reaches (Fits : Nat → Store cfg → Prop) : Store cfg → Prop
  | construct {capacity : Nat} {file : ByteFile} {deletedFlags : Nat → Bool}
      {fresh : Store cfg}
      (hconstruct : Store.construct cfg capacity file deletedFlags = some fresh) :
      Reaches Fits fresh
  | storeEncoded {st : Store cfg} {id sectionKey : Nat} (record : Record cfg)
      (hreaches : Reaches Fits st) (hid : id < 2 ^ 64) (hkey : sectionKey < 2 ^ 64) :
      Reaches Fits (storeEncoded id record sectionKey st).2
  | reopen {st fresh loaded : Store cfg} {capacity : Nat} {file : ByteFile}
      {deletedFlags : Nat → Bool} {rest : List UInt8}
      (hreaches : Reaches Fits st) (hfits : Fits capacity st)
      (hconstruct : Store.construct cfg capacity file deletedFlags = some fresh)
      (hload : fresh.deserializeMetadata (st.serializeMetadata ++ rest) =
        .returned (some (loaded, rest))) :
      Reaches Fits loaded

/-- `fresh` accepts the stream of `st`, whatever follows it, and places every id
as before. -/
def Reloads (st fresh : Store cfg) : Prop :=
  ∀ rest, ∃ loaded, fresh.deserializeMetadata (st.serializeMetadata ++ rest) =
      .returned (some (loaded, rest)) ∧
    ∀ id, loaded.pageOf id = st.pageOf id ∧ loaded.slotOf id = st.slotOf id

/-- A load of the stream of `st` that returns has rebuilt its tables. -/
theorem loaded_eq_rebuild {st fresh loaded : Store cfg} (hsaved : st.Saved)
    {rest rest' : List UInt8}
    (hload : fresh.deserializeMetadata (st.serializeMetadata ++ rest) =
      .returned (some (loaded, rest'))) :
    ∃ grown : Store cfg, loaded = rebuild grown st.tables ∧
      growCapacity fresh.totalVectors st.totalVectors = some grown.totalVectors := by
  obtain ⟨header, tables, grown, haccepts, rfl⟩ := deserializeMetadata_accepts hload
  have hparse := (parseMetadata_serializeMetadata hsaved rest).symm.trans
    haccepts.parse_eq
  cases hparse
  exact ⟨grown, rfl, haccepts.capacity⟩

theorem Reaches.saved {st : Store cfg} (hreaches : Reaches CapacityFits st) :
    st.Saved := by
  induction hreaches with
  | construct hconstruct => exact saved_construct hconstruct
  | storeEncoded record _ hid hkey ih => exact saved_storeEncoded ih hid record hkey
  | reopen _ hfits hconstruct hload ih =>
      obtain ⟨grown, rfl, hgrow⟩ := loaded_eq_rebuild ih hload
      rw [construct_totalVectors hconstruct, hfits] at hgrow
      exact saved_rebuild ih (Option.some.inj hgrow).symm

theorem le_growCapacity {totalVectors minCapacity target : Nat}
    (hmin : minCapacity ≤ 2 ^ 63)
    (hgrow : growCapacity totalVectors minCapacity = some target) :
    minCapacity ≤ target := by
  by_cases hpos : 0 < minCapacity
  · obtain ⟨found, hfound, hle⟩ := growCapacity_eq_some totalVectors hmin hpos
    rw [hgrow] at hfound
    cases hfound
    exact hle
  · omega

/-- A store whose capacity outgrew the arrays it loaded has no entry for the
first id behind them. -/
theorem pageOf_rebuild_eq_none {st grown : Store cfg} (hsaved : st.Saved)
    (hlt : st.totalVectors < grown.totalVectors) :
    (rebuild grown st.tables).pageOf st.totalVectors = none := by
  have hdirect : isDirectId st.totalVectors = true := by
    have hle : st.totalVectors ≤ 2 ^ 61 - 1 := hsaved.savable.total_le
    rw [isDirectId_iff]
    omega
  have hlength := hsaved.fit.pages_length
  unfold pageOf
  rw [if_pos hdirect, if_pos (by exact hlt)]
  exact List.getElem?_eq_none (by change st.idToPage.length ≤ _; omega)

def roomForOne : Store tinyConfig :=
  (Store.construct tinyConfig 1 ByteFile.empty fun _ => false).get rfl

theorem construct_roomForOne :
    Store.construct tinyConfig 1 ByteFile.empty (fun _ => false) = some roomForOne := rfl

/-- One session stores a record and the next one opens its checkpoint with more
room. -/
def reopenedWider : Store tinyConfig :=
  rebuild roomForTwo
    (storeEncoded 0 (tinyRecord 1) 7 roomForOne).2.tables

theorem deserializeMetadata_roomForTwo :
    roomForTwo.deserializeMetadata
      ((storeEncoded 0 ⟨List.replicate 9 1, rfl⟩ 7 roomForOne).2.serializeMetadata ++ [])
      = .returned (some (reopenedWider, [])) := rfl

theorem parseMetadata_reopenedWider :
    (parseMetadata tinyConfig).run (reopenedWider.serializeMetadata ++ []) = none := rfl

end Store

end AsterVec.PagedVectorStorage

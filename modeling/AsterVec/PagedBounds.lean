import AsterVec.PagedBatchReads
import AsterVec.PagedIsolation

/-!
What a store call keeps beyond the records: the page table inside the file, no free
slots, and no location for an id it failed on.  The new bound of a cache keeps every
record.
-/

namespace AsterVec.PagedVectorStorage

open AsterVec.ByteBuffer
open AsterVec.IdTypes

variable {cfg : Config}

namespace Store

/-! The file covers the page table -/

/-- Every page of the page table lies inside the file. -/
def Sized (st : Store cfg) : Prop := st.pages.length * kPageSize ≤ st.file.size

theorem Sized.congr {st st' : Store cfg} (hsized : st.Sized)
    (hpages : st'.pages.length = st.pages.length) (hsize : st.file.size ≤ st'.file.size) :
    st'.Sized := by
  unfold Sized
  rw [hpages]
  exact Nat.le_trans hsized hsize

theorem Sized.of_layout {st st' : Store cfg} (hsized : st.Sized)
    (hlayout : st'.layout = st.layout) (hsteady : Steady st st') : st'.Sized :=
  hsized.congr (congrArg (fun layout : Layout => layout.pages.length) hlayout)
    hsteady.size_le

theorem pages_length_takeSectionSlot (sectionIdx : Int) (st : Store cfg) :
    (takeSectionSlot sectionIdx st).2.pages.length = st.pages.length := by
  change (takeSectionSlot sectionIdx st).2.layout.pages.length = _
  rcases takeSectionSlot_cases sectionIdx st with
    ⟨_, _, _, -, -, hlayout⟩ | ⟨_, _, _, _, -, -, -, -, -, -, hlayout⟩ | ⟨_, -, -, hlayout⟩
  · rw [hlayout]
    rfl
  · rw [hlayout]
    exact List.length_modify _ _ _
  · rw [hlayout]
    rfl

theorem sized_allocateSlotForSection (sectionKey : Nat) {st : Store cfg}
    (hsized : st.Sized) : (allocateSlotForSection sectionKey st).2.Sized := by
  refine allocateSlotForSection_induct (motive := Sized) (fun _ => True) hsized ?_ ?_ ?_ ?_
  · intro sectionIdx found hlookup
    have hpages := congrArg (fun layout : Layout => layout.pages.length)
      (lookupSection_layout hlookup)
    exact ⟨hsized.congr hpages (quiet_lookupSection hlookup).size_le, trivial⟩
  · intro sectionIdx found hfound
    exact hfound.congr (pages_length_takeSectionSlot _ _)
      (quiet_takeSectionSlot sectionIdx found).size_le
  · intro sectionIdx found pageId opened _ _ happend
    unfold appendPage at happend
    simp only at happend
    split at happend
    · cases happend
    · cases happend
      have hpage : kPageSize = 4096 := rfl
      have hsize : ∀ offset, (found.file.pwrite offset 1 zeros).size =
          max found.file.size (offset + 1) := fun _ => rfl
      simp only [Sized, List.length_append, List.length_singleton]
      split
      · rw [hsize, hpage]
        omega
      · omega
  · intro sectionIdx pageId opened hopened
    refine hopened.congr ?_ (quiet_publishOpenPage sectionIdx pageId opened).size_le
    unfold publishOpenPage
    split <;> rfl

theorem pages_length_assignLocation (st : Store cfg) (id page slot : Nat) :
    (st.assignLocation id page slot).2.pages.length = st.pages.length :=
  congrArg List.length (lists_assignLocation st id page slot).2.2

theorem sized_storeEncoded {st : Store cfg} (hsized : st.Sized) (hfit : st.LocationsFit)
    (id : Nat) (record : Record cfg) (sectionKey : Nat) :
    (storeEncoded id record sectionKey st).2.Sized := by
  refine storeEncoded_induct (motive := Sized) ?_ ?_ ?_ ?_
  · obtain ⟨-, -, -, -, _, _, _, heq⟩ := ensureDenseCapacity_spec hfit id
    refine hsized.congr ?_ (quiet_ensureDenseCapacity st id).size_le
    rw [heq]
  · intro grown pageId slot hgrown
    exact hgrown.of_layout (by simp)
      (((steady_writeRecord _ _ _ _).trans (steady_updateCacheAfterWrite _ _ _ _)).trans
        (quiet_markDeletedAt _ _ _).steady)
  · exact fun grown hgrown => sized_allocateSlotForSection sectionKey hgrown
  · intro allocated written sectionIdx pageId slot hallocated hwrite
    have hmarked : (written.markDeletedAt id false).Sized :=
      hallocated.of_layout ((layout_markDeletedAt _ _ _).trans (layout_writeNewRecord hwrite))
        ((steady_writeNewRecord hwrite).trans (quiet_markDeletedAt _ _ _).steady)
    exact hmarked.congr (pages_length_assignLocation _ _ _ _)
      (quiet_assignLocation _ _ _ _).size_le

/-- A store that does not return leaves the id where it was. -/
theorem location_of_not_returned {st : Store cfg} (hsound : st.Sound) {id : Nat}
    (hid : st.hasLocation id = false) (record : Record cfg) (sectionKey : Nat)
    (hfailed : (storeEncoded id record sectionKey st).1 ≠ .returned ()) :
    (storeEncoded id record sectionKey st).2.hasLocation id = false := by
  obtain ⟨-, hfit, hlocation, hroom, -⟩ := ensureDenseCapacity_spec hsound.fit id
  have hgrown : (st.ensureDenseCapacity id).2.hasLocation id = false :=
    (location_of_tables (hlocation id).1 (hlocation id).2).2.trans hid
  rcases storeEncoded_cases hsound hid record sectionKey with
    ⟨grown, hensure, heq⟩ | ⟨grown, hensure, ⟨allocated, halloc, heq⟩ |
      ⟨sectionIdx, pageId, slot, allocated, written, halloc, hwrite, heq⟩⟩
  · rw [hensure] at hgrown
    rw [heq]
    exact hgrown
  · have htables := sameTables_allocateSlotForSection sectionKey grown
    rw [hensure] at hgrown
    rw [halloc] at htables
    rw [heq]
    exact (htables.location id).2.trans hgrown
  · have htables := sameTables_allocateSlotForSection sectionKey grown
    rw [hensure] at hgrown hfit hroom
    rw [halloc] at htables
    have hlayout := (layout_markDeletedAt written id false).trans
      (layout_writeNewRecord hwrite)
    have hsame := htables.trans (sameTables_of_layout_eq hlayout)
    have hidLt : isDirectId id = true →
        id < (written.markDeletedAt id false).totalVectors := by
      intro hdirect
      rw [hsame.total]
      exact hroom rfl hdirect
    obtain ⟨-, -, -, -, hunchanged⟩ := assignLocation_spec (hsame.fit hfit) pageId slot hidLt
    rw [heq] at hfailed ⊢
    rw [hunchanged hfailed]
    exact (hsame.location id).2.trans hgrown

/-! No free slots -/

/-- No section has a slot of a used page to give away. -/
def Unfree (st : Store cfg) : Prop := ∀ sectionIdx, st.freeSlots sectionIdx = []

/-- Without free slots, slot 0 of a page with a reserved slot is reserved as well. -/
theorem Unfree.guarded {st : Store cfg} (hunfree : st.Unfree) {pageId slot : Nat}
    (hreserved : st.Reserved pageId slot) : st.Guarded pageId slot := by
  refine ⟨hreserved, fun _ => ⟨cfg.vectorsPerPage_pos, ?_, ?_⟩⟩
  · intro sectionIdx hmem
    change (pageId, 0) ∈ st.freeSlots sectionIdx at hmem
    rw [hunfree sectionIdx] at hmem
    cases hmem
  · obtain ⟨page, hpage, hused⟩ := hreserved.used_or_closed
    exact ⟨page, hpage, hused.imp_left fun hlt => by omega⟩

theorem Unfree.of_layout {st st' : Store cfg} (hunfree : st.Unfree)
    (hfree : st'.layout.freeSlots = st.layout.freeSlots) : st'.Unfree :=
  fun sectionIdx => (congrFun hfree sectionIdx).trans (hunfree sectionIdx)

theorem unfree_allocateSlotForSection (sectionKey : Nat) {st : Store cfg}
    (hunfree : st.Unfree) : (allocateSlotForSection sectionKey st).2.Unfree := by
  refine allocateSlotForSection_induct (motive := Unfree) (fun _ => True) hunfree ?_ ?_ ?_ ?_
  · intro sectionIdx found hlookup
    exact ⟨hunfree.of_layout (by rw [lookupSection_layout hlookup]), trivial⟩
  · intro sectionIdx found hfound
    rcases takeSectionSlot_cases sectionIdx found with
      ⟨_, _, rest, hfree, -, -⟩ | ⟨_, _, _, _, -, -, -, -, -, -, hlayout⟩ | ⟨_, -, -, hlayout⟩
    · rw [hfound sectionIdx] at hfree
      cases hfree
    · exact hfound.of_layout (by rw [hlayout]; rfl)
    · exact hfound.of_layout (by rw [hlayout]; rfl)
  · intro sectionIdx found pageId opened _ hfound happend
    exact hfound.of_layout (by rw [(appendPage_eq_some happend).2]; rfl)
  · intro sectionIdx pageId opened hopened
    rcases layout_publishOpenPage sectionIdx pageId opened with hlayout | hlayout
    · exact hopened.of_layout (by rw [hlayout])
    · exact hopened.of_layout (by rw [hlayout]; rfl)

theorem unfree_storeEncoded {st : Store cfg} (hunfree : st.Unfree) (hfit : st.LocationsFit)
    (id : Nat) (record : Record cfg) (sectionKey : Nat) :
    (storeEncoded id record sectionKey st).2.Unfree := by
  refine storeEncoded_induct (motive := Unfree) ?_ ?_ ?_ ?_
  · obtain ⟨-, -, -, -, _, _, _, heq⟩ := ensureDenseCapacity_spec hfit id
    rw [heq]
    exact hunfree
  · exact fun grown pageId slot hgrown => hgrown.of_layout (by simp)
  · exact fun grown hgrown => unfree_allocateSlotForSection sectionKey hgrown
  · intro allocated written sectionIdx pageId slot hallocated hwrite
    refine hallocated.of_layout ((lists_assignLocation _ _ _ _).2.1.trans ?_)
    rw [layout_markDeletedAt, layout_writeNewRecord hwrite]

/-! Another bound for the cache -/

@[simp] theorem layout_setMaxCachedPages (m : Nat) (st : Store cfg) :
    (setMaxCachedPages m st).layout = st.layout := by
  unfold setMaxCachedPages evictIfNeeded
  split <;> rfl

theorem location_setMaxCachedPages (m : Nat) (st : Store cfg) (id : Nat) :
    (setMaxCachedPages m st).location id = st.location id ∧
      (setMaxCachedPages m st).hasLocation id = st.hasLocation id := by
  unfold setMaxCachedPages evictIfNeeded
  split <;> exact ⟨rfl, rfl⟩

theorem file_setMaxCachedPages (m : Nat) (st : Store cfg) :
    (setMaxCachedPages m st).file = st.file := by
  unfold setMaxCachedPages evictIfNeeded
  split <;> rfl

theorem overlaidPage_setMaxCachedPages (m : Nat) (st : Store cfg) (pageId : Nat) :
    (setMaxCachedPages m st).overlaidPage pageId = st.overlaidPage pageId := by
  unfold setMaxCachedPages evictIfNeeded
  split <;> rfl

theorem buffers_setMaxCachedPages (m : Nat) {st : Store cfg} (hwf : st.BuffersWellFormed) :
    (setMaxCachedPages m st).BuffersWellFormed := by
  unfold setMaxCachedPages evictIfNeeded
  split <;> exact ⟨hwf.buf_page, hwf.buf_shard, hwf.buf_count⟩

/-- The cache survives whole, within the new bound, or is empty. -/
theorem cache_setMaxCachedPages (m : Nat) {st : Store cfg} (hwf : st.CacheWellFormed)
    (hexact : st.cacheTable.Exact) :
    (setMaxCachedPages m st).CacheWellFormed ∧
      (setMaxCachedPages m st).cacheTable.Exact ∧
      ∀ pageId image, (setMaxCachedPages m st).cachedImage pageId = some image →
        st.cachedImage pageId = some image := by
  unfold setMaxCachedPages evictIfNeeded
  split
  · refine ⟨⟨?_, Nat.zero_le _, Nat.zero_le _, id⟩, ⟨?_, .inl rfl⟩, ?_⟩
    · intro pageId cs hmap
      cases hmap
    · intro cs pageId hcs
      exact absurd hcs (Nat.not_lt_zero _)
    · intro pageId image himage
      cases himage
  · rename_i hkept
    obtain ⟨hpos, hle⟩ := not_or.mp hkept
    change ¬m = 0 at hpos
    change ¬m < st.cachedCount at hle
    refine ⟨⟨hwf.mapped, Nat.not_lt.mp hle, hwf.count_le_slots, ?_⟩,
      ⟨hexact.published, hexact.hand⟩, fun _ _ himage => himage⟩
    intro _
    change st.fifoHand < m
    rcases hexact.hand with hzero | hlt
    · change st.fifoHand = 0 at hzero
      omega
    · change st.fifoHand < st.cachedCount at hlt
      omega

theorem wellFormed_setMaxCachedPages (m : Nat) {st : Store cfg} (hwf : st.WellFormed)
    (hexact : st.cacheTable.Exact) : (setMaxCachedPages m st).WellFormed := by
  refine ⟨buffers_setMaxCachedPages m hwf.buffers, ?_,
    (cache_setMaxCachedPages m hwf.cache hexact).1⟩
  unfold setMaxCachedPages evictIfNeeded
  split <;> exact hwf.queued

theorem sound_setMaxCachedPages (m : Nat) {st : Store cfg} (hsound : st.Sound)
    (hexact : st.cacheTable.Exact) : (setMaxCachedPages m st).Sound := by
  refine ⟨wellFormed_setMaxCachedPages m hsound.wellFormed hexact, ?_, ?_⟩
  · have hold := hsound.offers
    unfold Offers
    rw [layout_setMaxCachedPages]
    exact ⟨hold.used_le, hold.open_page, hold.free_slot, hold.free_nodup⟩
  · have hold := hsound.fit
    unfold setMaxCachedPages evictIfNeeded
    split <;> exact ⟨hold.pages_length, hold.slots_length⟩

theorem sized_setMaxCachedPages (m : Nat) {st : Store cfg} (hsized : st.Sized) :
    (setMaxCachedPages m st).Sized := by
  change (setMaxCachedPages m st).layout.pages.length * kPageSize ≤
    (setMaxCachedPages m st).file.size
  rw [layout_setMaxCachedPages, file_setMaxCachedPages]
  exact hsized

/-- A slot inside the file is read the same under the new bound. -/
theorem holds_setMaxCachedPages (m : Nat) {st : Store cfg} (hwf : st.WellFormed)
    (hexact : st.cacheTable.Exact) {pageId slot : Nat} {record : Record cfg}
    (hholds : st.Holds pageId slot record)
    (hbacked : pageId * kPageSize + slot * cfg.recordSize + cfg.recordSize ≤
      st.file.size) :
    (setMaxCachedPages m st).Holds pageId slot (record.under m) := by
  have hunder : ∀ image : Buffer, recordAt cfg image slot = record →
      recordAt (cfg.withMaxCachedPages m) image slot = record.under m := by
    rintro image rfl
    rfl
  refine ⟨?_, ?_, ?_⟩
  · rw [overlaidPage_setMaxCachedPages]
    exact hunder _ hholds.content
  · intro image himage
    exact hunder _ (hholds.cached image
      ((cache_setMaxCachedPages m hwf.cache hexact).2.2 pageId image himage))
  · intro _ _
    rw [file_setMaxCachedPages]
    exact hbacked

/-! A new store -/

/-- A new store has an empty cache, no pages, no free slots and no location. -/
theorem construct_empty {capacity : Nat} {file : ByteFile} {deletedFlags : Nat → Bool}
    {fresh : Store cfg}
    (hconstruct : construct cfg capacity file deletedFlags = some fresh) :
    fresh.cacheTable.Exact ∧ fresh.Sized ∧ fresh.Unfree ∧
      ∀ id, fresh.hasLocation id = false := by
  have hfit := (sound_construct hconstruct).fit
  have hlocation : ∀ id, fresh.hasLocation id = false := by
    intro id
    unfold hasLocation
    rw [pageOf_eq hfit]
    unfold construct at hconstruct
    split at hconstruct
    · cases hconstruct
    · cases hconstruct
      simp
  unfold construct at hconstruct
  split at hconstruct
  · cases hconstruct
  · cases hconstruct
    refine ⟨⟨fun cs _ hcs => absurd hcs (Nat.not_lt_zero cs), .inl rfl⟩, ?_, fun _ => rfl,
      hlocation⟩
    change 0 * kPageSize ≤ _
    omega

/-! No read is undefined -/

theorem missEntries_defined {st : Store cfg} (hfit : st.LocationsFit) (ids : List Nat) :
    ∀ idx, st.missEntries idx ids ≠ .undefined := by
  induction ids with
  | nil => exact fun _ hnil => by cases hnil
  | cons id ids ih =>
      intro idx
      unfold missEntries
      rw [pageOf_eq hfit, slotOf_eq hfit]
      split
      · rename_i hnone
        cases hnone
      · simp
      · rename_i hnone
        cases hnone
      · cases hrest : st.missEntries (idx + 1) ids with
        | undefined => exact absurd hrest (ih _)
        | returned entries => simp
        | threw => simp

theorem readVectorsBatch_defined {st : Store cfg} (hfit : st.LocationsFit)
    (orders : Orders) (ids : List Nat) :
    (readVectorsBatch orders ids st).1 ≠ .undefined := by
  unfold readVectorsBatch
  split
  · rename_i hundefined
    exact absurd hundefined (missEntries_defined hfit ids 0)
  · simp
  · simp

theorem readVectorsBatchFlat_defined {st : Store cfg} (hfit : st.LocationsFit)
    (orders : Orders) (ids : List Nat) :
    (readVectorsBatchFlat orders ids st).1 ≠ .undefined := by
  unfold readVectorsBatchFlat
  split
  · rename_i hundefined
    exact absurd hundefined (missEntries_defined hfit ids 0)
  · simp
  · simp

theorem prefetchByIds_defined {st : Store cfg} (hfit : st.LocationsFit) (ids : List Nat) :
    (prefetchByIds ids st).1 ≠ .undefined := by
  have hpages : ∀ (ids seenPage : List Nat) (st : Store cfg), st.LocationsFit →
      (prefetchPages ids seenPage st).1 ≠ .undefined := by
    intro ids
    induction ids with
    | nil => exact fun _ _ _ hnil => by cases hnil
    | cons id ids ih =>
        intro seenPage st hfit
        unfold prefetchPages
        rw [pageOf_eq hfit]
        split
        · rename_i hnone
          cases hnone
        · exact ih _ _ hfit
        · split
          · exact ih _ _ hfit
          · exact ih _ _ ((sameTables_of_layout_eq (layout_loadPageToCache _ _)).fit hfit)
  unfold prefetchByIds
  split
  · simp
  · exact hpages ids [] st hfit

end Store

end AsterVec.PagedVectorStorage

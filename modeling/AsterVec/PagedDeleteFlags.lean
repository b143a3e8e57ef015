import AsterVec.PagedStores

/-!
The delete flags of the paged store.  A store of a record lowers the flag of its id and
raises none; a read leaves them as they are.
-/

namespace AsterVec.PagedVectorStorage

variable {cfg : Config}

namespace Store

theorem deletedFlags_evictOldest {sectionIdx : Int} {st next : Store cfg}
    (hturn : evictOldest sectionIdx st = some next) : next.deletedFlags = st.deletedFlags := by
  obtain ⟨victim, rest, -, hcases⟩ := evictOldest_cases hturn
  rcases hcases with ⟨-, rfl⟩ | ⟨-, -, rfl⟩ | ⟨-, swb, -, rfl⟩ <;> rfl

theorem deletedFlags_openWriteBuf {sectionIdx : Int} {pageId : Nat} {st opened : Store cfg}
    (hopen : openWriteBuf sectionIdx pageId st = some opened) :
    opened.deletedFlags = st.deletedFlags := by
  unfold openWriteBuf at hopen
  split at hopen
  · simp only at hopen
    split at hopen
    · exact evictOverCap_induct (motive := fun later => later.deletedFlags = st.deletedFlags)
        (fun _ _ hlater hturn => (deletedFlags_evictOldest hturn).trans hlater)
        (show (createWriteBuf sectionIdx pageId st).deletedFlags = st.deletedFlags from rfl)
        hopen
    · cases hopen
      rfl
  · split at hopen <;> cases hopen <;> rfl

theorem deletedFlags_fillWriteBuf (sectionIdx : Int) (slot : Nat) (record : Record cfg)
    (st : Store cfg) :
    (fillWriteBuf sectionIdx slot record st).deletedFlags = st.deletedFlags := by
  unfold fillWriteBuf
  split
  · rfl
  · simp only
    split <;> rfl

theorem deletedFlags_updateCacheAfterWrite (pageId slot : Nat) (record : Record cfg)
    (st : Store cfg) :
    (updateCacheAfterWrite pageId slot record st).deletedFlags = st.deletedFlags := by
  unfold updateCacheAfterWrite
  split
  · rfl
  · split
    · rfl
    · split <;> rfl

theorem deletedFlags_writeToSectionBufferLocked {sectionIdx : Int} {pageId slot : Nat}
    {record : Record cfg} {taken : Bool} {st written : Store cfg}
    (hwrite : writeToSectionBufferLocked sectionIdx pageId slot record st =
      some (taken, written)) : written.deletedFlags = st.deletedFlags := by
  unfold writeToSectionBufferLocked at hwrite
  split at hwrite
  · cases hwrite
    rfl
  · cases hopen : openWriteBuf sectionIdx pageId st with
    | none =>
        rw [hopen] at hwrite
        cases hwrite
    | some opened =>
        rw [hopen] at hwrite
        cases hwrite
        rw [deletedFlags_fillWriteBuf, deletedFlags_openWriteBuf hopen]

theorem deletedFlags_writeNewRecord {sectionIdx : Int} {pageId slot : Nat}
    {record : Record cfg} {st written : Store cfg}
    (hwrite : writeNewRecord sectionIdx pageId slot record st = some written) :
    written.deletedFlags = st.deletedFlags := by
  unfold writeNewRecord at hwrite
  split at hwrite
  · cases hwrite
    exact deletedFlags_updateCacheAfterWrite _ _ _ _
  · split at hwrite
    · cases hwrite
    · rename_i taken hlocked
      cases hwrite
      rw [deletedFlags_updateCacheAfterWrite, deletedFlags_writeToSectionBufferLocked hlocked]
    · rename_i refused hlocked
      cases hwrite
      rw [deletedFlags_updateCacheAfterWrite]
      exact (show (writeRecord pageId slot record refused).deletedFlags =
        refused.deletedFlags from rfl).trans (deletedFlags_writeToSectionBufferLocked hlocked)

theorem deletedFlags_takeSectionSlot (sectionIdx : Int) (st : Store cfg) :
    (takeSectionSlot sectionIdx st).2.deletedFlags = st.deletedFlags := by
  unfold takeSectionSlot
  split
  · rfl
  · split
    · rfl
    · simp only
      split <;> rfl

theorem deletedFlags_allocateSlotForSection (sectionKey : Nat) (st : Store cfg) :
    (allocateSlotForSection sectionKey st).2.deletedFlags = st.deletedFlags := by
  have hlookup : ∀ sectionIdx found, lookupSection sectionKey st = some (sectionIdx, found) →
      found.deletedFlags = st.deletedFlags := by
    intro sectionIdx found hfound
    unfold lookupSection at hfound
    split at hfound
    · cases hfound
      rfl
    · split at hfound
      · cases hfound
      · cases hfound
        rfl
  have happend : ∀ sectionIdx pageId (taken found : Store cfg),
      appendPage sectionIdx taken = some (pageId, found) →
      found.deletedFlags = taken.deletedFlags := by
    intro sectionIdx pageId taken found hfound
    unfold appendPage at hfound
    simp only at hfound
    split at hfound
    · cases hfound
    · cases hfound
      rfl
  have hpublish : ∀ sectionIdx pageId (appended : Store cfg),
      (publishOpenPage sectionIdx pageId appended).deletedFlags = appended.deletedFlags := by
    intro sectionIdx pageId appended
    unfold publishOpenPage
    split <;> rfl
  unfold allocateSlotForSection
  split
  · rfl
  · rename_i sectionIdx found hfound
    have htake := deletedFlags_takeSectionSlot sectionIdx found
    rw [hlookup _ _ hfound] at htake
    split
    · rename_i htaken
      rw [htaken] at htake
      exact htake
    · rename_i taken htaken
      rw [htaken] at htake
      split
      · exact htake
      · rename_i pageId appended happended
        rw [hpublish, happend _ _ _ _ happended]
        exact htake

/-- No store of a record raises a delete flag. -/
theorem deletedFlags_storeEncoded {st : Store cfg}
    (hflags : ∀ id, st.deletedFlags id = false) (id : Nat) (record : Record cfg)
    (sectionKey other : Nat) :
    (storeEncoded id record sectionKey st).2.deletedFlags other = false := by
  have hmark : ∀ marked : Store cfg, (∀ w, marked.deletedFlags w = false) →
      ∀ w, (marked.markDeletedAt id false).deletedFlags w = false := by
    intro marked hmarked w
    unfold markDeletedAt
    split
    · rename_i hchange
      exact absurd (hmarked id) hchange.2.2
    · exact hmarked w
  have hassign : ∀ (assigned : Store cfg) pageId slot,
      (assigned.assignLocation id pageId slot).2.deletedFlags = assigned.deletedFlags := by
    intro assigned pageId slot
    unfold assignLocation
    split
    · split
      · rfl
      · split <;> rfl
    · rfl
  refine storeEncoded_induct (motive := fun later => ∀ w, later.deletedFlags w = false)
    ?_ ?_ ?_ ?_ other
  · intro w
    have hgrow : (st.ensureDenseCapacity id).2.deletedFlags = st.deletedFlags := by
      unfold ensureDenseCapacity expandCapacity
      split
      · split
        · rfl
        · split
          · rfl
          · split <;> rfl
      · rfl
    rw [hgrow]
    exact hflags w
  · intro grown pageId slot hgrown
    refine hmark _ fun w => ?_
    rw [deletedFlags_updateCacheAfterWrite]
    exact hgrown w
  · intro grown hgrown w
    rw [deletedFlags_allocateSlotForSection]
    exact hgrown w
  · intro allocated written sectionIdx pageId slot hallocated hwritten w
    rw [hassign]
    refine hmark _ (fun v => ?_) w
    rw [deletedFlags_writeNewRecord hwritten]
    exact hallocated v

theorem deletedFlags_readVectorFromDisk (id : Nat) (st : Store cfg) :
    (readVectorFromDisk id st).2.deletedFlags = st.deletedFlags := by
  have hload : ∀ pageId, (loadPageToCache pageId st).deletedFlags = st.deletedFlags := by
    intro pageId
    unfold loadPageToCache publishPage takeCacheSlot
    split
    · rfl
    · split
      · rfl
      · simp only
        split <;> rfl
  unfold readVectorFromDisk
  split
  · rfl
  · rfl
  · rfl
  · unfold readRecordAt
    split
    · rfl
    · split
      · rfl
      · simp only
        split
        · exact hload _
        · exact hload _

end Store

end AsterVec.PagedVectorStorage

import AsterVec.PagedAllocation
import AsterVec.PagedLocations
import AsterVec.PagedReads

/-!
A store of a new id, without interruption.  Its bookkeeping steps change no
record; its one record write goes to a slot that was not reserved, so every
record in a reserved slot is kept as long as slot 0 of its page is reserved as
well.
-/

namespace AsterVec.PagedVectorStorage

open AsterVec.ByteBuffer
open AsterVec.IdTypes

variable {cfg : Config}

namespace Store

/-! Steps that move no record -/

/-- The step leaves buffers, cache and file bytes alone, and pages in their
sections. -/
structure Quiet (st st' : Store cfg) : Prop where
  shards : ∀ i, (st'.sectionShards i).writeBufs = (st.sectionShards i).writeBufs ∧
    (st'.sectionShards i).bufOrder = (st.sectionShards i).bufOrder
  pages : ∀ (pageId : Nat) (page : PageMeta), st.pages[pageId]? = some page →
    ∃ page', st'.pages[pageId]? = some page' ∧ page'.sectionIdx = page.sectionIdx
  count : st'.sectionWriteBufsCount = st.sectionWriteBufsCount
  cacheSlots : st'.cacheSlots = st.cacheSlots
  pageToSlot : st'.pageToSlot = st.pageToSlot
  cachedCount : st'.cachedCount = st.cachedCount
  fifoHand : st'.fifoHand = st.fifoHand
  bytes : st'.file.bytes = st.file.bytes
  size_le : st.file.size ≤ st'.file.size

theorem Quiet.refl (st : Store cfg) : Quiet st st :=
  ⟨fun _ => ⟨rfl, rfl⟩, fun _ page hpage => ⟨page, hpage, rfl⟩, rfl, rfl, rfl, rfl,
    rfl, rfl, Nat.le_refl _⟩

theorem Quiet.trans {st st' st'' : Store cfg} (hfirst : Quiet st st')
    (hsecond : Quiet st' st'') : Quiet st st'' := by
  refine ⟨fun i => ⟨(hsecond.shards i).1.trans (hfirst.shards i).1,
      (hsecond.shards i).2.trans (hfirst.shards i).2⟩, ?_,
    hsecond.count.trans hfirst.count, hsecond.cacheSlots.trans hfirst.cacheSlots,
    hsecond.pageToSlot.trans hfirst.pageToSlot,
    hsecond.cachedCount.trans hfirst.cachedCount,
    hsecond.fifoHand.trans hfirst.fifoHand, hsecond.bytes.trans hfirst.bytes,
    Nat.le_trans hfirst.size_le hsecond.size_le⟩
  intro pageId page hpage
  obtain ⟨page', hpage', hsection'⟩ := hfirst.pages pageId page hpage
  obtain ⟨page'', hpage'', hsection''⟩ := hsecond.pages pageId page' hpage'
  exact ⟨page'', hpage'', hsection''.trans hsection'⟩

theorem Quiet.wellFormed {st st' : Store cfg} (hquiet : Quiet st st')
    (hwf : st.WellFormed) : st'.WellFormed := by
  refine ⟨hwf.buffers.congr (fun i => (hquiet.shards i).1) ?_ hquiet.count, ?_,
    hwf.cache.congr hquiet.cacheSlots hquiet.pageToSlot hquiet.cachedCount
      hquiet.fifoHand⟩
  · intro pageId page hpage
    obtain ⟨page', hpage', hsection⟩ := hquiet.pages pageId page hpage
    rw [sectionIdxOfPage, hpage']
    exact hsection
  · intro hcap i sectionIdx hmem
    rw [(hquiet.shards i).1] at hmem
    rw [(hquiet.shards i).2]
    exact hwf.queued hcap i sectionIdx hmem

theorem Quiet.bufferHolding {st st' : Store cfg} (hquiet : Quiet st st')
    (hwf : st.WellFormed) (pageId : Nat) :
    st'.bufferHolding pageId = st.bufferHolding pageId := by
  have hbufs : ∀ sectionIdx, st'.writeBuf sectionIdx = st.writeBuf sectionIdx := by
    intro sectionIdx
    simp only [writeBuf, sectionShardState, (hquiet.shards _).1]
  exact bufferHolding_congr hwf.buffers (hquiet.wellFormed hwf).buffers
    fun sectionIdx swb _ => by rw [hbufs]

theorem Quiet.keeps {st st' : Store cfg} (hquiet : Quiet st st')
    (hwf : st.WellFormed) (pageId : Nat) : Keeps pageId st st' := by
  have hheld := hquiet.bufferHolding hwf pageId
  refine ⟨?_, ?_, fun hnone => .inl (hheld ▸ hnone), hquiet.size_le⟩
  · intro i _
    unfold overlaidPage
    rw [hheld, hquiet.bytes]
  · intro image himage
    unfold cachedImage at himage ⊢
    rw [hquiet.pageToSlot, hquiet.cacheSlots] at himage
    exact .inl himage

theorem quiet_setShard (st : Store cfg) (sectionIdx : Int) (shard : SectionShard)
    (hbufs : shard.writeBufs = (st.sectionShardState sectionIdx).writeBufs)
    (horder : shard.bufOrder = (st.sectionShardState sectionIdx).bufOrder) :
    Quiet st (st.setShard sectionIdx shard) := by
  refine ⟨?_, fun _ page hpage => ⟨page, hpage, rfl⟩, rfl, rfl, rfl, rfl, rfl, rfl,
    Nat.le_refl _⟩
  intro i
  rw [setShard_sectionShards]
  split
  · rename_i hsame
    rw [hbufs, horder, sectionShardState, hsame]
    exact ⟨rfl, rfl⟩
  · exact ⟨rfl, rfl⟩

theorem quiet_lookupSection {sectionKey : Nat} {st st' : Store cfg}
    {sectionIdx : Int}
    (hlookup : lookupSection sectionKey st = some (sectionIdx, st')) :
    Quiet st st' := by
  unfold lookupSection at hlookup
  split at hlookup
  · cases hlookup
    exact Quiet.refl st
  · split at hlookup <;> cases hlookup
    exact ⟨fun _ => ⟨rfl, rfl⟩, fun _ page hpage => ⟨page, hpage, rfl⟩, rfl, rfl, rfl,
      rfl, rfl, rfl, Nat.le_refl _⟩

theorem quiet_setOpenPages (sectionIdx : Int) (pages : List Nat) (st : Store cfg) :
    Quiet st (setOpenPages sectionIdx pages st) :=
  quiet_setShard st sectionIdx _ rfl rfl

theorem quiet_setFreeSlots (sectionIdx : Int) (slots : List (Nat × Nat))
    (st : Store cfg) : Quiet st (setFreeSlots sectionIdx slots st) :=
  quiet_setShard st sectionIdx _ rfl rfl

theorem quiet_useSlot (pageId : Nat) (st : Store cfg) :
    Quiet st (useSlot pageId st) := by
  refine ⟨fun _ => ⟨rfl, rfl⟩, ?_, rfl, rfl, rfl, rfl, rfl, rfl, Nat.le_refl _⟩
  intro other page hpage
  change st.layout.pages[other]? = some page at hpage
  obtain ⟨page', hpage', hsection, -⟩ := Layout.useSlot_page pageId hpage
  exact ⟨page', hpage', hsection⟩

theorem quiet_takeSectionSlot (sectionIdx : Int) (st : Store cfg) :
    Quiet st (takeSectionSlot sectionIdx st).2 := by
  unfold takeSectionSlot
  split
  · exact quiet_setFreeSlots sectionIdx _ st
  · split
    · exact Quiet.refl st
    · simp only
      split
      · exact (quiet_setOpenPages sectionIdx _ st).trans (quiet_useSlot _ _)
      · exact quiet_setOpenPages sectionIdx _ st

theorem quiet_appendPage {sectionIdx : Int} {st st' : Store cfg} {pageId : Nat}
    (happend : appendPage sectionIdx st = some (pageId, st')) : Quiet st st' := by
  unfold appendPage at happend
  simp only at happend
  split at happend
  · cases happend
  · cases happend
    refine ⟨fun _ => ⟨rfl, rfl⟩, ?_, rfl, rfl, rfl, rfl, rfl, ?_, ?_⟩
    · intro other page hpage
      refine ⟨page, ?_, rfl⟩
      change (st.pages ++ _)[other]? = _
      rw [List.getElem?_append_left (List.getElem?_eq_some_iff.mp hpage).1]
      exact hpage
    · -- The byte written to extend the file lies behind its end, where a reader
      -- already saw zero.
      by_cases hshort : st.file.size < (st.pages.length + 1) * kPageSize
      · simp only [if_pos hshort]
        funext i
        change (if _ then zeros _ else st.file.bytes i) = _
        split
        · rename_i hin
          rw [st.file.zero_beyond i (by omega)]
          rfl
        · rfl
      · simp only [if_neg hshort]
    · by_cases hshort : st.file.size < (st.pages.length + 1) * kPageSize
      · simp only [if_pos hshort]
        exact ByteFile.size_le_pwrite _ _ _ _
      · simp only [if_neg hshort, Nat.le_refl]

theorem quiet_publishOpenPage (sectionIdx : Int) (pageId : Nat) (st : Store cfg) :
    Quiet st (publishOpenPage sectionIdx pageId st) := by
  unfold publishOpenPage
  split
  · exact quiet_setShard st sectionIdx _ rfl rfl
  · exact Quiet.refl st

theorem quiet_allocateSlotForSection (sectionKey : Nat) (st : Store cfg) :
    Quiet st (allocateSlotForSection sectionKey st).2 :=
  allocateSlotForSection_induct (motive := Quiet st) (fun _ => True) (Quiet.refl st)
    (fun _ _ hlookup => ⟨quiet_lookupSection hlookup, trivial⟩)
    (fun sectionIdx found hfound =>
      hfound.trans (quiet_takeSectionSlot sectionIdx found))
    (fun _ _ _ _ _ hfound happend => hfound.trans (quiet_appendPage happend))
    (fun sectionIdx pageId opened hopened =>
      hopened.trans (quiet_publishOpenPage sectionIdx pageId opened))

theorem quiet_markDeletedAt (st : Store cfg) (id : Nat) (deleted : Bool) :
    Quiet st (st.markDeletedAt id deleted) := by
  unfold markDeletedAt
  split
  · exact ⟨fun _ => ⟨rfl, rfl⟩, fun _ page hpage => ⟨page, hpage, rfl⟩, rfl, rfl, rfl,
      rfl, rfl, rfl, Nat.le_refl _⟩
  · exact Quiet.refl st

theorem quiet_expandCapacity (st : Store cfg) (minCapacity : Nat) :
    Quiet st (st.expandCapacity minCapacity).2 := by
  unfold expandCapacity
  split
  · exact Quiet.refl st
  · split
    · exact Quiet.refl st
    · split
      · exact Quiet.refl st
      · exact ⟨fun _ => ⟨rfl, rfl⟩, fun _ page hpage => ⟨page, hpage, rfl⟩, rfl, rfl,
          rfl, rfl, rfl, rfl, Nat.le_refl _⟩

theorem quiet_ensureDenseCapacity (st : Store cfg) (id : Nat) :
    Quiet st (st.ensureDenseCapacity id).2 := by
  unfold ensureDenseCapacity
  split
  · exact quiet_expandCapacity st _
  · exact Quiet.refl st

theorem quiet_assignLocation (st : Store cfg) (id page slot : Nat) :
    Quiet st (st.assignLocation id page slot).2 := by
  unfold assignLocation
  split
  · split
    · exact Quiet.refl st
    · split
      · exact ⟨fun _ => ⟨rfl, rfl⟩, fun _ page hpage => ⟨page, hpage, rfl⟩, rfl, rfl,
          rfl, rfl, rfl, rfl, Nat.le_refl _⟩
      · exact Quiet.refl st
  · exact ⟨fun _ => ⟨rfl, rfl⟩, fun _ page hpage => ⟨page, hpage, rfl⟩, rfl, rfl,
      rfl, rfl, rfl, rfl, Nat.le_refl _⟩

/-! A store of an id without a location -/

/-- Everything the operations of one thread keep. -/
structure Sound (st : Store cfg) : Prop where
  wellFormed : st.WellFormed
  offers : st.Offers
  fit : st.LocationsFit

/-- The record in a slot survives a store when no call can be handed the slot,
nor slot 0 of its page, whose record would start a buffer from zeros. -/
def Guarded (st : Store cfg) (pageId slot : Nat) : Prop :=
  st.Reserved pageId slot ∧ (slot ≠ 0 → st.Reserved pageId 0)

/-- What an operation of one thread keeps: the guarded slots with their records,
and the location of every id but one. -/
structure Preserves (id : Nat) (st st' : Store cfg) : Prop where
  sound : st'.Sound
  reserved : ∀ pageId slot, st.Reserved pageId slot → st'.Reserved pageId slot
  holds : ∀ pageId slot record, st.Guarded pageId slot →
    st.Holds pageId slot record → st'.Holds pageId slot record
  location : ∀ other, other ≠ id → st'.location other = st.location other ∧
    st'.hasLocation other = st.hasLocation other

theorem Preserves.guarded {id : Nat} {st st' : Store cfg}
    (hpreserves : Preserves id st st') {pageId slot : Nat}
    (hguarded : st.Guarded pageId slot) : st'.Guarded pageId slot :=
  ⟨hpreserves.reserved _ _ hguarded.1,
    fun hne => hpreserves.reserved _ _ (hguarded.2 hne)⟩

theorem Preserves.trans {id : Nat} {st st' st'' : Store cfg}
    (hfirst : Preserves id st st') (hsecond : Preserves id st' st'') :
    Preserves id st st'' :=
  ⟨hsecond.sound, fun p k h => hsecond.reserved p k (hfirst.reserved p k h),
    fun p k r hguarded h => hsecond.holds p k r (hfirst.guarded hguarded)
      (hfirst.holds p k r hguarded h),
    fun other hne => ⟨(hsecond.location other hne).1.trans (hfirst.location other hne).1,
      (hsecond.location other hne).2.trans (hfirst.location other hne).2⟩⟩

theorem location_of_tables {st st' : Store cfg} {id : Nat}
    (hpage : st'.pageOf id = st.pageOf id) (hslot : st'.slotOf id = st.slotOf id) :
    st'.location id = st.location id ∧ st'.hasLocation id = st.hasLocation id := by
  unfold location hasLocation
  rw [hpage, hslot]
  exact ⟨rfl, rfl⟩

theorem SameTables.location {st st' : Store cfg} (hsame : SameTables st st')
    (id : Nat) :
    st'.location id = st.location id ∧ st'.hasLocation id = st.hasLocation id :=
  location_of_tables (hsame.pageOf id) (hsame.slotOf id)

/-- A quiet step that keeps the offers and the reserved slots. -/
theorem Preserves.of_quiet (id : Nat) {st st' : Store cfg} (hsound : st.Sound)
    (hquiet : Quiet st st') (hoffers : st'.Offers) (hfit : st'.LocationsFit)
    (hreserved : ∀ pageId slot, st.Reserved pageId slot → st'.Reserved pageId slot)
    (hlocation : ∀ other, other ≠ id →
      st'.pageOf other = st.pageOf other ∧ st'.slotOf other = st.slotOf other) :
    Preserves id st st' :=
  ⟨⟨hquiet.wellFormed hsound.wellFormed, hoffers, hfit⟩, hreserved,
    fun pageId _ _ hguarded hholds =>
      (hquiet.keeps hsound.wellFormed pageId).holds hguarded.1.slot_lt hholds,
    fun other hne =>
      location_of_tables (hlocation other hne).1 (hlocation other hne).2⟩

/-- A step that keeps the layout and every page. -/
theorem Preserves.of_keeps (id : Nat) {st st' : Store cfg} (hsound : st.Sound)
    (hlayout : st'.layout = st.layout) (hwf : st'.WellFormed)
    (hkeeps : ∀ pageId, Keeps pageId st st') : Preserves id st st' :=
  ⟨⟨hwf, (offers_congr hlayout).mpr hsound.offers,
      (sameTables_of_layout_eq hlayout).fit hsound.fit⟩,
    fun pageId slot h => (reserved_congr hlayout pageId slot).mpr h,
    fun pageId _ _ hguarded hholds =>
      (hkeeps pageId).holds hguarded.1.slot_lt hholds,
    fun other _ => (sameTables_of_layout_eq hlayout).location other⟩

theorem preserves_ensureDenseCapacity {st : Store cfg} (hsound : st.Sound)
    (id : Nat) : Preserves id st (st.ensureDenseCapacity id).2 := by
  obtain ⟨-, hfit, hlocation, -, target, idToPage, idToSlotInPage, hst⟩ :=
    ensureDenseCapacity_spec hsound.fit id
  have hquiet := quiet_ensureDenseCapacity st id
  refine Preserves.of_quiet id hsound hquiet ?_ hfit ?_ fun other _ => hlocation other
  · rw [hst]
    exact ⟨hsound.offers.used_le, hsound.offers.open_page, hsound.offers.free_slot,
      hsound.offers.free_nodup⟩
  · intro pageId slot hreserved
    rw [hst]
    exact ⟨hreserved.slot_lt, hreserved.not_free, hreserved.used_or_closed⟩

/-- The slots on offer depend on the page table and the two lists alone. -/
theorem offers_of_lists {st st' : Store cfg} (hoffers : st.Offers)
    (hopen : st'.layout.openPages = st.layout.openPages)
    (hfree : st'.layout.freeSlots = st.layout.freeSlots)
    (hpages : st'.layout.pages = st.layout.pages) : st'.Offers := by
  refine ⟨?_, ?_, ?_, ?_⟩
  · rw [hpages]
    exact hoffers.used_le
  · rw [hopen, hpages]
    exact hoffers.open_page
  · rw [hfree, hpages]
    exact hoffers.free_slot
  · rw [hfree]
    exact hoffers.free_nodup

theorem lists_assignLocation (st : Store cfg) (id page slot : Nat) :
    (st.assignLocation id page slot).2.layout.openPages = st.layout.openPages ∧
      (st.assignLocation id page slot).2.layout.freeSlots = st.layout.freeSlots ∧
      (st.assignLocation id page slot).2.layout.pages = st.layout.pages := by
  unfold assignLocation
  split
  · split
    · exact ⟨rfl, rfl, rfl⟩
    · split <;> exact ⟨rfl, rfl, rfl⟩
  · exact ⟨rfl, rfl, rfl⟩

theorem preserves_assignLocation {st : Store cfg} (hsound : st.Sound)
    {id : Nat} (page slot : Nat)
    (hid : isDirectId id = true → id < st.totalVectors) :
    Preserves id st (st.assignLocation id page slot).2 := by
  obtain ⟨-, hfit, hlocation, -, -⟩ := assignLocation_spec hsound.fit page slot hid
  have hquiet := quiet_assignLocation st id page slot
  obtain ⟨hopen, hfree, hpages⟩ := lists_assignLocation st id page slot
  refine Preserves.of_quiet id hsound hquiet
    (offers_of_lists hsound.offers hopen hfree hpages) hfit ?_ hlocation
  intro pageId slot' hreserved
  refine ⟨hreserved.slot_lt, ?_, ?_⟩
  · rw [hfree]
    exact hreserved.not_free
  · rw [hpages, hopen]
    exact hreserved.used_or_closed

theorem sectionIdxOfPage_of_inUse {st : Store cfg} {sectionIdx : Int}
    {pageId slot : Nat} (hinUse : st.layout.InUse sectionIdx pageId slot) :
    st.sectionIdxOfPage pageId = sectionIdx := by
  obtain ⟨page, hpage, hsection, -⟩ := hinUse
  change st.pages[pageId]? = some page at hpage
  rw [sectionIdxOfPage, hpage]
  exact hsection

/-- An id without a location is at page `-1` or below. -/
theorem pageOf_of_unlocated {st : Store cfg} (hfit : st.LocationsFit) {id : Nat}
    (hid : st.hasLocation id = false) : ∃ n, st.pageOf id = some (.negSucc n) := by
  unfold hasLocation at hid
  rw [pageOf_eq hfit] at hid ⊢
  simp only [Option.elim_some, decide_eq_false_iff_not, Int.not_le] at hid
  exact ⟨_, congrArg some (Int.eq_negSucc_of_lt_zero hid).choose_spec⟩

/-- Writing and publishing a record whose slot was allocated before keeps every
guarded slot and every other location. -/
theorem storeAllocated_spec {grown allocated : Store cfg} (hsound : grown.Sound)
    {id : Nat} (hroom : isDirectId id = true → id < grown.totalVectors)
    (hquiet : Quiet grown allocated) (htables : SameTables grown allocated)
    {sectionIdx : Int} {pageId slot : Nat}
    (hgrants : Grants grown allocated sectionIdx pageId slot) (record : Record cfg) :
    ∃ written, writeNewRecord sectionIdx pageId slot record allocated = some written ∧
      ((written.markDeletedAt id false).assignLocation id pageId slot).1 ≠ .undefined ∧
      Preserves id grown
        ((written.markDeletedAt id false).assignLocation id pageId slot).2 ∧
      ((written.markDeletedAt id false).assignLocation id pageId slot).2.Reserved
        pageId slot ∧
      ((written.markDeletedAt id false).assignLocation id pageId slot).2.Holds
        pageId slot record ∧
      (((written.markDeletedAt id false).assignLocation id pageId slot).1 =
          .returned () →
        ((written.markDeletedAt id false).assignLocation id pageId slot).2.location id =
          some (pageId, slot)) := by
  have hallocFit := htables.fit hsound.fit
  have hallocated := Preserves.of_quiet id hsound hquiet hgrants.offers hallocFit
    hgrants.keeps fun other _ => ⟨htables.pageOf other, htables.slotOf other⟩
  obtain ⟨written, hwrite, hwrittenWF, hholds, hothers⟩ :=
    writeNewRecord_spec hallocated.sound.wellFormed record hgrants.reserved.slot_lt
      (sectionIdxOfPage_of_inUse hgrants.inUse)
  have hlayout := layout_writeNewRecord hwrite
  -- The new slot was not reserved, so it is no guarded slot, and it is no slot 0
  -- of a page with one.
  have hwritten : Preserves id grown written := by
    refine ⟨⟨hwrittenWF, (offers_congr hlayout).mpr hgrants.offers,
        (sameTables_of_layout_eq hlayout).fit hallocFit⟩,
      fun p k hold => (reserved_congr hlayout p k).mpr (hgrants.keeps p k hold), ?_, ?_⟩
    · intro p k found hguarded hheld
      refine hothers p k found hguarded.1.slot_lt ?_
        (hallocated.holds p k found hguarded hheld)
      rintro rfl
      refine ⟨?_, ?_⟩
      · rintro rfl
        exact hgrants.not_reserved hguarded.1
      · rintro rfl
        by_cases hzero : k = 0
        · subst hzero
          exact hgrants.not_reserved hguarded.1
        · exact hgrants.not_reserved (hguarded.2 hzero)
    · intro other _
      exact (htables.trans (sameTables_of_layout_eq hlayout)).location other
  have hmarked : Preserves id grown (written.markDeletedAt id false) :=
    hwritten.trans (Preserves.of_keeps id hwritten.sound (layout_markDeletedAt _ _ _)
      ((quiet_markDeletedAt _ _ _).wellFormed hwrittenWF)
      ((quiet_markDeletedAt _ _ _).keeps hwrittenWF))
  have hidLt : isDirectId id = true →
      id < (written.markDeletedAt id false).totalVectors := by
    intro hdirect
    have hmark := congrArg Layout.totalVectors
      ((layout_markDeletedAt written id false).trans hlayout)
    change (written.markDeletedAt id false).totalVectors = allocated.totalVectors at hmark
    rw [hmark, htables.total]
    exact hroom hdirect
  have hassigned := preserves_assignLocation hmarked.sound pageId slot hidLt
  obtain ⟨hassignDefined, -, -, hassignLocation, -⟩ :=
    assignLocation_spec hmarked.sound.fit pageId slot hidLt
  refine ⟨written, hwrite, hassignDefined, hmarked.trans hassigned, ?_, ?_,
    hassignLocation⟩
  · refine hassigned.reserved _ _ ?_
    exact (reserved_congr ((layout_markDeletedAt written id false).trans hlayout) _ _).mpr
      hgrants.reserved
  · exact ((quiet_assignLocation _ _ _ _).keeps hmarked.sound.wellFormed pageId).holds
      hgrants.reserved.slot_lt (((quiet_markDeletedAt _ _ _).keeps hwrittenWF pageId).holds
        hgrants.reserved.slot_lt hholds)

/-! The steps of a store -/

/-- What the steps of a store keep, a store keeps. -/
theorem storeEncoded_induct {motive : Store cfg → Prop} {st : Store cfg} {id : Nat}
    {record : Record cfg} {sectionKey : Nat} (hgrow : motive (st.ensureDenseCapacity id).2)
    (hoverwrite : ∀ grown pageId slot, motive grown →
      motive ((updateCacheAfterWrite pageId slot record
        (writeRecord pageId slot record grown)).markDeletedAt id false))
    (hallocate : ∀ grown, motive grown →
      motive (allocateSlotForSection sectionKey grown).2)
    (hwrite : ∀ allocated written sectionIdx pageId slot, motive allocated →
      writeNewRecord sectionIdx pageId slot record allocated = some written →
        motive ((written.markDeletedAt id false).assignLocation id pageId slot).2) :
    motive (storeEncoded id record sectionKey st).2 := by
  unfold storeEncoded
  split
  · rename_i grown hensure
    rw [hensure] at hgrow
    change motive grown at hgrow
    split
    · exact hgrow
    · exact hgrow
    · exact hoverwrite _ _ _ hgrow
    · have hallocated := hallocate grown hgrow
      split
      · rename_i hnone
        rw [hnone] at hallocated
        exact hallocated
      · rename_i hsome
        rw [hsome] at hallocated
        split
        · exact hallocated
        · rename_i hwritten
          exact hwrite _ _ _ _ _ hallocated hwritten
  · rename_i hensure
    rw [hensure] at hgrow
    exact hgrow

/-- How a store of an id without a location ends: without room for the id, without room
for a page, or with the location of the written slot to publish. -/
theorem storeEncoded_cases {st : Store cfg} (hsound : st.Sound) {id : Nat}
    (hid : st.hasLocation id = false) (record : Record cfg) (sectionKey : Nat) :
    (∃ grown, st.ensureDenseCapacity id = (.threw, grown) ∧
      storeEncoded id record sectionKey st = (.threw, grown)) ∨
    ∃ grown, st.ensureDenseCapacity id = (.returned (), grown) ∧
      ((∃ allocated, allocateSlotForSection sectionKey grown = (none, allocated) ∧
        storeEncoded id record sectionKey st = (.threw, allocated)) ∨
      ∃ sectionIdx pageId slot allocated written,
        allocateSlotForSection sectionKey grown =
          (some (sectionIdx, pageId, slot), allocated) ∧
        writeNewRecord sectionIdx pageId slot record allocated = some written ∧
        storeEncoded id record sectionKey st =
          (written.markDeletedAt id false).assignLocation id pageId slot) := by
  obtain ⟨hdefined, hfit, hlocation, -, -⟩ := ensureDenseCapacity_spec hsound.fit id
  have hgrownSound := (preserves_ensureDenseCapacity hsound id).sound
  unfold storeEncoded
  cases hensure : st.ensureDenseCapacity id with
  | mk outcome grown =>
      rw [hensure] at hdefined hfit hlocation hgrownSound
      cases outcome with
      | undefined => exact absurd rfl hdefined
      | threw => exact .inl ⟨grown, rfl, rfl⟩
      | returned _ =>
          refine .inr ⟨grown, rfl, ?_⟩
          have hnone : grown.hasLocation id = false := by
            rw [(location_of_tables (hlocation id).1 (hlocation id).2).2]
            exact hid
          obtain ⟨n, hpage⟩ := pageOf_of_unlocated hfit hnone
          simp only [hpage]
          cases halloc : allocateSlotForSection sectionKey grown with
          | mk granted allocated =>
              cases granted with
              | none => exact .inl ⟨allocated, rfl, rfl⟩
              | some entry =>
                  obtain ⟨sectionIdx, pageId, slot⟩ := entry
                  have hgrants := allocateSlotForSection_grants hgrownSound.offers halloc
                  have hquiet := quiet_allocateSlotForSection sectionKey grown
                  rw [halloc] at hquiet
                  obtain ⟨written, hwrite, -⟩ := writeNewRecord_spec
                    (hquiet.wellFormed hgrownSound.wellFormed) record
                    hgrants.reserved.slot_lt (sectionIdxOfPage_of_inUse hgrants.inUse)
                  refine .inr ⟨sectionIdx, pageId, slot, allocated, written, rfl, hwrite, ?_⟩
                  simp only [hwrite]

/-! One store -/

/-- A store of an id without a location returns or throws.  Either way every
guarded slot keeps its record and every other id its location; if it returns,
the id has a reserved slot, new to it, that holds the record. -/
theorem storeEncoded_spec {st : Store cfg} (hsound : st.Sound) {id : Nat}
    (hid : st.hasLocation id = false) (record : Record cfg) (sectionKey : Nat) :
    (storeEncoded id record sectionKey st).1 ≠ .undefined ∧
      Preserves id st (storeEncoded id record sectionKey st).2 ∧
      ((storeEncoded id record sectionKey st).1 = .returned () →
        ∃ pageId slot,
          (storeEncoded id record sectionKey st).2.location id = some (pageId, slot) ∧
          ¬st.Reserved pageId slot ∧
          (storeEncoded id record sectionKey st).2.Reserved pageId slot ∧
          (storeEncoded id record sectionKey st).2.Holds pageId slot record) := by
  have hensured := preserves_ensureDenseCapacity hsound id
  obtain ⟨-, hgrownFit, -, hroom, -⟩ := ensureDenseCapacity_spec hsound.fit id
  rcases storeEncoded_cases hsound hid record sectionKey with
    ⟨grown, hensure, hstore⟩ | ⟨grown, hensure, hallocating⟩
  · rw [hensure] at hensured
    rw [hstore]
    exact ⟨by simp, hensured, by simp⟩
  rw [hensure] at hensured hgrownFit hroom
  have hquiet := quiet_allocateSlotForSection sectionKey grown
  have htables := sameTables_allocateSlotForSection sectionKey grown
  rcases hallocating with ⟨allocated, halloc, hstore⟩ |
    ⟨sectionIdx, pageId, slot, allocated, written, halloc, hwrite, hstore⟩
  · rw [halloc] at hquiet htables
    obtain ⟨hoffers, hreserved⟩ := allocateSlotForSection_none hensured.sound.offers halloc
    rw [hstore]
    exact ⟨by simp, hensured.trans (Preserves.of_quiet id hensured.sound hquiet hoffers
      (htables.fit hgrownFit) hreserved
      fun other _ => ⟨htables.pageOf other, htables.slotOf other⟩), by simp⟩
  · rw [halloc] at hquiet htables
    have hgrants := allocateSlotForSection_grants hensured.sound.offers halloc
    obtain ⟨found, hfound, hstored, hpreserves, hreserved, hholds, hplaced⟩ :=
      storeAllocated_spec hensured.sound (hroom rfl) hquiet htables hgrants record
    obtain rfl := Option.some.inj (hwrite.symm.trans hfound)
    rw [hstore]
    exact ⟨hstored, hensured.trans hpreserves, fun hreturned =>
      ⟨pageId, slot, hplaced hreturned,
        fun hold => hgrants.not_reserved (hensured.reserved _ _ hold), hreserved, hholds⟩⟩

end Store

end AsterVec.PagedVectorStorage

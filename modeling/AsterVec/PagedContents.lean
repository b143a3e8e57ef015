import AsterVec.PagedCache
import AsterVec.PagedEviction

/-!
What the pages of a store contain.  The content of a page is what a reader
sees: its live write buffer, else the file.  Flushing, evicting and caching keep
the content of every page; a record write changes one slot; starting a buffer
from zeros is the one step that changes a whole page.
-/

namespace AsterVec.PagedVectorStorage

open AsterVec.ByteBuffer
open AsterVec.IdTypes

variable {cfg : Config}

namespace Store

/-- Buffers and page cache are well formed. -/
structure WellFormed (st : Store cfg) : Prop where
  buffers : st.BuffersWellFormed
  queued : st.Queued
  cache : st.CacheWellFormed

/-- The step from `st` to `st'` keeps the content of one page: its overlaid
image, and its cached copy unless the copy was refreshed from that image.  A
page that loses its buffer lies inside the file. -/
structure Keeps (pageId : Nat) (st st' : Store cfg) : Prop where
  overlaid : ∀ i < kPageSize, st'.overlaidPage pageId i = st.overlaidPage pageId i
  cached : ∀ image, st'.cachedImage pageId = some image →
    st.cachedImage pageId = some image ∨
      ∀ i < kPageSize, image i = st.overlaidPage pageId i
  backed : st'.bufferHolding pageId = none →
    st.bufferHolding pageId = none ∨ (pageId + 1) * kPageSize ≤ st'.file.size
  size_le : st.file.size ≤ st'.file.size

theorem Keeps.refl (pageId : Nat) (st : Store cfg) : Keeps pageId st st :=
  ⟨fun _ _ => rfl, fun _ himage => .inl himage, .inl, Nat.le_refl _⟩

theorem Keeps.trans {pageId : Nat} {st st' st'' : Store cfg}
    (hfirst : Keeps pageId st st') (hsecond : Keeps pageId st' st'') :
    Keeps pageId st st'' := by
  refine ⟨?_, ?_, ?_, Nat.le_trans hfirst.size_le hsecond.size_le⟩
  · intro i hi
    rw [hsecond.overlaid i hi, hfirst.overlaid i hi]
  · intro image himage
    rcases hsecond.cached image himage with hold | hfresh
    · exact hfirst.cached image hold
    · exact .inr fun i hi => (hfresh i hi).trans (hfirst.overlaid i hi)
  · intro hnone
    rcases hsecond.backed hnone with hold | hsize
    · exact (hfirst.backed hold).imp_right fun hsize =>
        Nat.le_trans hsize hsecond.size_le
    · exact .inr hsize

/-- A reader of `slot` finds `record`: on the page and, if the page is cached,
in the cached copy.  Without a cache the record lies inside the file, or in a
buffer. -/
structure Holds (st : Store cfg) (pageId slot : Nat) (record : Record cfg) :
    Prop where
  content : recordAt cfg (st.overlaidPage pageId) slot = record
  cached : ∀ image, st.cachedImage pageId = some image →
    recordAt cfg image slot = record
  backed : cfg.maxCachedPages = 0 → st.bufferHolding pageId = none →
    pageId * kPageSize + slot * cfg.recordSize + cfg.recordSize ≤ st.file.size

theorem recordAt_congr {image image' : Buffer} {slot : Nat}
    (hslot : slot < cfg.vectorsPerPage)
    (hsame : ∀ i < kPageSize, image i = image' i) :
    recordAt cfg image slot = recordAt cfg image' slot := by
  have hfits := cfg.slot_fits hslot
  unfold recordAt
  congr 1
  exact slice_congr fun k hk => hsame _ (by omega)

theorem Keeps.holds {pageId slot : Nat} {record : Record cfg} {st st' : Store cfg}
    (hkeeps : Keeps pageId st st') (hslot : slot < cfg.vectorsPerPage)
    (hholds : st.Holds pageId slot record) : st'.Holds pageId slot record := by
  have hfits := cfg.slot_fits hslot
  refine ⟨?_, ?_, ?_⟩
  · rw [recordAt_congr hslot hkeeps.overlaid]
    exact hholds.content
  · intro image himage
    rcases hkeeps.cached image himage with hold | hfresh
    · exact hholds.cached image hold
    · rw [recordAt_congr hslot hfresh]
      exact hholds.content
  · intro hmax hnone
    rcases hkeeps.backed hnone with hold | hsize
    · exact Nat.le_trans (hholds.backed hmax hold) hkeeps.size_le
    · rw [Nat.add_mul, Nat.one_mul] at hsize
      omega

theorem overlaidPage_congr {st st' : Store cfg} {pageId : Nat}
    (hheld : st'.bufferHolding pageId = st.bufferHolding pageId)
    (hfile : st'.file = st.file) :
    st'.overlaidPage pageId = st.overlaidPage pageId := by
  unfold overlaidPage
  rw [hheld, hfile]

/-- Same buffers, cache and file: nothing changes for a reader. -/
theorem Keeps.of_same {pageId : Nat} {st st' : Store cfg}
    (hheld : st'.bufferHolding pageId = st.bufferHolding pageId)
    (hcached : st'.cachedImage pageId = st.cachedImage pageId)
    (hfile : st'.file = st.file) : Keeps pageId st st' := by
  refine ⟨?_, ?_, ?_, ?_⟩
  · intro i _
    rw [overlaidPage_congr hheld hfile]
  · intro image himage
    exact .inl (hcached ▸ himage)
  · intro hnone
    exact .inl (hheld ▸ hnone)
  · rw [hfile]

theorem bufferHolding_congr {st st' : Store cfg} (hwf : st.BuffersWellFormed)
    (hwf' : st'.BuffersWellFormed) {pageId : Nat}
    (hbufs : ∀ sectionIdx swb, swb.pageId = pageId →
      (st'.writeBuf sectionIdx = some swb ↔ st.writeBuf sectionIdx = some swb)) :
    st'.bufferHolding pageId = st.bufferHolding pageId := by
  apply Option.ext
  intro swb
  rw [bufferHolding_eq_some_iff hwf, bufferHolding_eq_some_iff hwf']
  constructor
  · rintro ⟨sectionIdx, hbuf, hpage⟩
    exact ⟨sectionIdx, (hbufs _ _ hpage).mp hbuf, hpage⟩
  · rintro ⟨sectionIdx, hbuf, hpage⟩
    exact ⟨sectionIdx, (hbufs _ _ hpage).mpr hbuf, hpage⟩

/-! Flushing -/

/-- The file holds the image of the buffer. -/
def Flushed (swb : SectionWriteBuf) (st : Store cfg) : Prop :=
  (∀ i < kPageSize, st.file.bytes (swb.pageId * kPageSize + i) = swb.data i) ∧
    (swb.pageId + 1) * kPageSize ≤ st.file.size

theorem file_bytes_pwrite_page (file : ByteFile) (pageId other : Nat)
    (data : Buffer) {i : Nat} (hi : i < kPageSize) :
    (file.pwrite (pageId * kPageSize) kPageSize data).bytes
        (other * kPageSize + i) =
      if other = pageId then data i else file.bytes (other * kPageSize + i) := by
  change (if pageId * kPageSize ≤ other * kPageSize + i ∧
    other * kPageSize + i < pageId * kPageSize + kPageSize then data _ else _) = _
  unfold kPageSize at hi ⊢
  by_cases hsame : other = pageId
  · subst hsame
    rw [if_pos rfl, if_pos (by omega), Nat.add_sub_cancel_left]
  · rw [if_neg hsame, if_neg (by omega)]

theorem flushed_flushSectionWriteBuf (swb : SectionWriteBuf) (st : Store cfg) :
    Flushed swb (flushSectionWriteBuf swb st) := by
  constructor
  · intro i hi
    refine (file_bytes_pwrite_page st.file swb.pageId swb.pageId swb.data hi).trans ?_
    rw [if_pos rfl]
  · change _ ≤ (st.file.pwrite _ _ _).size
    have hpage : kPageSize = 4096 := rfl
    simp only [ByteFile.pwrite, hpage]
    rw [if_neg (by decide)]
    omega

theorem keeps_flushSectionWriteBuf {st : Store cfg}
    (hwf : st.BuffersWellFormed) (hcache : st.CacheWellFormed)
    {sectionIdx : Int} {swb : SectionWriteBuf}
    (hbuf : st.writeBuf sectionIdx = some swb) (pageId : Nat) :
    Keeps pageId st (flushSectionWriteBuf swb st) := by
  have hheld : (flushSectionWriteBuf swb st).bufferHolding pageId =
      st.bufferHolding pageId := rfl
  refine ⟨?_, ?_, fun hnone => .inl (hheld ▸ hnone), ByteFile.size_le_pwrite _ _ _ _⟩
  · intro i hi
    cases hpage : st.bufferHolding pageId with
    | some held =>
        unfold overlaidPage
        rw [hheld, hpage]
    | none =>
        have hne : pageId ≠ swb.pageId := fun hsame =>
          (bufferHolding_eq_none_iff hwf).mp hpage sectionIdx swb hbuf hsame.symm
        rw [overlaidPage_of_none (hheld.trans hpage), overlaidPage_of_none hpage]
        refine (file_bytes_pwrite_page st.file _ pageId _ hi).trans ?_
        rw [if_neg hne]
  · intro image himage
    rw [cachedImage_flushSectionWriteBuf hcache] at himage
    split at himage
    · rename_i hsame
      obtain ⟨-, -, rfl⟩ := Option.map_eq_some_iff.mp himage
      subst hsame
      right
      intro i _
      rw [overlaidPage_of_buffer hwf hbuf]
    · exact .inl himage

/-- Dropping a buffer whose image is in the file keeps every page. -/
theorem keeps_eraseWriteBuf {st : Store cfg} (hwf : st.BuffersWellFormed)
    {sectionIdx : Int} {swb : SectionWriteBuf}
    (hbuf : st.writeBuf sectionIdx = some swb) (hflushed : Flushed swb st)
    (pageId : Nat) : Keeps pageId st (eraseWriteBuf sectionIdx st) := by
  have hwf' := hwf.eraseWriteBuf hbuf
  by_cases hsame : pageId = swb.pageId
  · subst hsame
    have hnone : (eraseWriteBuf sectionIdx st).bufferHolding swb.pageId = none := by
      rw [bufferHolding_eq_none_iff hwf']
      intro other held hheld hpage
      rw [writeBuf_eraseWriteBuf] at hheld
      split at hheld
      · cases hheld
      · rename_i hne
        exact hne (writeBuf_unique hwf hheld hbuf hpage).1
    refine ⟨?_, fun _ himage => .inl himage, fun _ => .inr hflushed.2, Nat.le_refl _⟩
    intro i hi
    rw [overlaidPage_of_none hnone, overlaidPage_of_buffer hwf hbuf]
    exact hflushed.1 i hi
  · refine Keeps.of_same ?_ rfl rfl
    refine bufferHolding_congr hwf hwf' fun other held hpage => ?_
    rw [writeBuf_eraseWriteBuf]
    split
    · rename_i hother
      subst hother
      constructor
      · intro hnone
        cases hnone
      · intro hheld
        rw [hbuf] at hheld
        cases hheld
        exact absurd hpage.symm hsame
    · rfl

theorem Keeps.setShard {st : Store cfg} (hwf : st.BuffersWellFormed)
    {sectionIdx : Int} {shard : SectionShard}
    (hwf' : (st.setShard sectionIdx shard).BuffersWellFormed)
    (hbufs : shard.writeBufs = (st.sectionShardState sectionIdx).writeBufs)
    (pageId : Nat) : Keeps pageId st (st.setShard sectionIdx shard) := by
  refine Keeps.of_same ?_ rfl rfl
  refine bufferHolding_congr hwf hwf' fun other held _ => ?_
  rw [writeBuf_setShard]
  split
  · rename_i hshard
    rw [hbufs, writeBuf, sectionShardState, sectionShardState, hshard]
  · rfl

theorem keeps_setBufOrder {st : Store cfg} (hwf : st.BuffersWellFormed)
    (sectionIdx : Int) (bufOrder : List Int) (pageId : Nat) :
    Keeps pageId st (setBufOrder sectionIdx bufOrder st) := by
  have hwf' := hwf.setBufOrder sectionIdx bufOrder
  unfold setBufOrder at hwf' ⊢
  exact Keeps.setShard hwf hwf' rfl pageId

theorem keeps_recycleBuf {st : Store cfg} (hwf : st.BuffersWellFormed)
    (sectionIdx : Int) (pageId : Nat) :
    Keeps pageId st (recycleBuf sectionIdx st) := by
  have hwf' := hwf.recycleBuf sectionIdx
  unfold recycleBuf at hwf' ⊢
  exact Keeps.setShard hwf hwf' rfl pageId

theorem WellFormed.flushSectionWriteBuf {st : Store cfg} (hwf : st.WellFormed)
    (swb : SectionWriteBuf) : (flushSectionWriteBuf swb st).WellFormed :=
  ⟨hwf.buffers.flushSectionWriteBuf swb, hwf.queued.congr rfl,
    hwf.cache.flushSectionWriteBuf swb⟩

/-- Flushing a live buffer and dropping it keeps every page. -/
theorem keeps_flush_erase {st : Store cfg} (hwf : st.WellFormed)
    {sectionIdx : Int} {swb : SectionWriteBuf}
    (hbuf : st.writeBuf sectionIdx = some swb) (pageId : Nat) :
    Keeps pageId st (eraseWriteBuf sectionIdx (flushSectionWriteBuf swb st)) :=
  (keeps_flushSectionWriteBuf hwf.buffers hwf.cache hbuf pageId).trans
    (keeps_eraseWriteBuf (hwf.buffers.flushSectionWriteBuf swb) hbuf
      (flushed_flushSectionWriteBuf swb st) pageId)

theorem keeps_evictWriteBuf {st : Store cfg} (hwf : st.BuffersWellFormed)
    (hcache : st.CacheWellFormed) {victim : Int} {swb : SectionWriteBuf}
    (hbuf : st.writeBuf victim = some swb) (pageId : Nat) :
    Keeps pageId st (evictWriteBuf victim swb st) := by
  have hflushed := hwf.flushSectionWriteBuf swb
  have hrecycled := hflushed.recycleBuf victim
  have hbuf' : (recycleBuf victim (flushSectionWriteBuf swb st)).writeBuf victim =
      some swb := by simpa using hbuf
  exact ((keeps_flushSectionWriteBuf hwf hcache hbuf pageId).trans
    (keeps_recycleBuf hflushed victim pageId)).trans
      (keeps_eraseWriteBuf hrecycled hbuf' (flushed_flushSectionWriteBuf swb st) pageId)

/-! Evicting -/

theorem WellFormed.eraseWriteBuf {st : Store cfg} (hwf : st.WellFormed)
    {sectionIdx : Int} {swb : SectionWriteBuf}
    (hbuf : st.writeBuf sectionIdx = some swb) :
    (eraseWriteBuf sectionIdx st).WellFormed :=
  ⟨hwf.buffers.eraseWriteBuf hbuf, hwf.queued.eraseWriteBuf sectionIdx,
    ⟨hwf.cache.mapped, hwf.cache.count_le, hwf.cache.count_le_slots,
      hwf.cache.hand_lt⟩⟩

theorem CacheWellFormed.congr {st st' : Store cfg} (hwf : st.CacheWellFormed)
    (hslots : st'.cacheSlots = st.cacheSlots) (hmap : st'.pageToSlot = st.pageToSlot)
    (hcount : st'.cachedCount = st.cachedCount)
    (hhand : st'.fifoHand = st.fifoHand) : st'.CacheWellFormed := by
  refine ⟨?_, ?_, ?_, ?_⟩
  · rw [hslots, hmap, hcount]
    exact hwf.mapped
  · rw [hcount]
    exact hwf.count_le
  · rw [hslots, hcount]
    exact hwf.count_le_slots
  · rw [hhand]
    exact hwf.hand_lt

/-- A turn of the eviction loop keeps every page, and the buffer being
written. -/
theorem evictOldest_keeps {sectionIdx : Int} {st next : Store cfg}
    (hwf : st.WellFormed) (hturn : evictOldest sectionIdx st = some next) :
    next.WellFormed ∧ (∀ pageId, Keeps pageId st next) ∧
      next.writeBuf sectionIdx = st.writeBuf sectionIdx := by
  have hnextWF := hwf.buffers.evictOldest hturn
  have hnextQueued := Queued.evictOldest hwf.buffers.buf_shard hwf.queued hturn
  obtain ⟨victim, rest, -, hcases⟩ := evictOldest_cases hturn
  rcases hcases with ⟨-, rfl⟩ | ⟨-, -, rfl⟩ | ⟨hne, swb, hlive, rfl⟩
  · exact ⟨⟨hnextWF, hnextQueued, hwf.cache.congr rfl rfl rfl rfl⟩,
      keeps_setBufOrder hwf.buffers _ _, writeBuf_setBufOrder _ _ _ _⟩
  · exact ⟨⟨hnextWF, hnextQueued, hwf.cache.congr rfl rfl rfl rfl⟩,
      keeps_setBufOrder hwf.buffers _ _, writeBuf_setBufOrder _ _ _ _⟩
  · -- The queue entry is dropped before the buffer; only their order of use
    -- matters to the loop, so the buffers are followed through both.
    have hpopped := hwf.buffers.setBufOrder sectionIdx rest
    have hbuf : (setBufOrder sectionIdx rest st).writeBuf victim = some swb := by
      rw [writeBuf_setBufOrder, writeBuf, sectionShardState,
        (hwf.buffers.lookup hlive).1]
      exact hlive
    have hcache : (setBufOrder sectionIdx rest st).CacheWellFormed :=
      hwf.cache.congr rfl rfl rfl rfl
    have hflushed := hcache.flushSectionWriteBuf swb
    refine ⟨⟨hnextWF, hnextQueued, hflushed.congr rfl rfl rfl rfl⟩, ?_, ?_⟩
    · intro pageId
      exact (keeps_setBufOrder hwf.buffers sectionIdx rest pageId).trans
        (keeps_evictWriteBuf hpopped hcache hbuf pageId)
    · rw [evictWriteBuf, writeBuf_eraseWriteBuf, if_neg (Ne.symm hne)]
      simp

end Store

end AsterVec.PagedVectorStorage

import AsterVec.PagedContents

/-!
What a record write changes.  A write into a buffer that holds the page, or
straight into a page without a buffer, changes its own slot and nothing else.  A
write that starts a buffer from zeros also sets its own slot, keeps every other
page, and says nothing about the other slots of its page.
-/

namespace AsterVec.PagedVectorStorage

open AsterVec.ByteBuffer
open AsterVec.IdTypes

variable {cfg : Config}

namespace Store

/-! Slots of one page -/

theorem recordAt_copyInto_self (image : Buffer) (slot : Nat) (record : Record cfg) :
    recordAt cfg (copyInto image (slot * cfg.recordSize) record.bytes) slot =
      record := by
  have hslice := slice_copyInto_self image (slot * cfg.recordSize) record.bytes
  rw [record.length_eq] at hslice
  cases record
  simp only [recordAt, Record.mk.injEq]
  exact hslice

theorem recordAt_copyInto_other (image : Buffer) {slot other : Nat}
    (record : Record cfg) (hne : other ≠ slot) :
    recordAt cfg (copyInto image (slot * cfg.recordSize) record.bytes) other =
      recordAt cfg image other := by
  have hdisjoint : other * cfg.recordSize + cfg.recordSize ≤ slot * cfg.recordSize ∨
      slot * cfg.recordSize + record.bytes.length ≤ other * cfg.recordSize := by
    rw [record.length_eq]
    rcases Nat.lt_or_gt_of_ne hne with hlt | hgt
    · have := Nat.mul_le_mul_right cfg.recordSize (Nat.succ_le_of_lt hlt)
      rw [Nat.succ_mul] at this
      exact .inl this
    · have := Nat.mul_le_mul_right cfg.recordSize (Nat.succ_le_of_lt hgt)
      rw [Nat.succ_mul] at this
      exact .inr this
  simp only [recordAt, Record.mk.injEq]
  exact slice_copyInto_disjoint image hdisjoint

/-- The step writes `record` to one slot of a page and refreshes nothing but
the cached copy of the page. -/
structure Fills (pageId slot : Nat) (record : Record cfg) (st st' : Store cfg) :
    Prop where
  overlaid : ∀ i < kPageSize, st'.overlaidPage pageId i =
    copyInto (st.overlaidPage pageId) (slot * cfg.recordSize) record.bytes i
  cached : ∀ image, st'.cachedImage pageId = some image →
    st.cachedImage pageId = some image ∨
      ∀ i < kPageSize, image i = st'.overlaidPage pageId i
  backed : st'.bufferHolding pageId = none →
    pageId * kPageSize + slot * cfg.recordSize + cfg.recordSize ≤ st'.file.size
  backed_other : st'.bufferHolding pageId = none →
    st.bufferHolding pageId = none ∨ (pageId + 1) * kPageSize ≤ st'.file.size
  size_le : st.file.size ≤ st'.file.size

theorem Fills.content {pageId slot : Nat} {record : Record cfg}
    {st st' : Store cfg} (hfills : Fills pageId slot record st st')
    (hslot : slot < cfg.vectorsPerPage) :
    recordAt cfg (st'.overlaidPage pageId) slot = record := by
  rw [recordAt_congr hslot hfills.overlaid, recordAt_copyInto_self]

theorem Fills.holds_other {pageId slot other : Nat} {record found : Record cfg}
    {st st' : Store cfg} (hfills : Fills pageId slot record st st')
    (hother : other < cfg.vectorsPerPage) (hne : other ≠ slot)
    (hholds : st.Holds pageId other found) : st'.Holds pageId other found := by
  have hcontent : recordAt cfg (st'.overlaidPage pageId) other = found := by
    rw [recordAt_congr hother hfills.overlaid, recordAt_copyInto_other _ _ hne]
    exact hholds.content
  refine ⟨hcontent, ?_, ?_⟩
  · intro image himage
    rcases hfills.cached image himage with hold | hfresh
    · exact hholds.cached image hold
    · rw [recordAt_congr hother hfresh]
      exact hcontent
  · intro hmax hnone
    have hfits := cfg.slot_fits hother
    rcases hfills.backed_other hnone with hold | hsize
    · exact Nat.le_trans (hholds.backed hmax hold) hfills.size_le
    · rw [Nat.add_mul, Nat.one_mul] at hsize
      omega

/-! The cached copy after a write -/

theorem bufferHolding_updateCacheAfterWrite (pageId slot : Nat)
    (record : Record cfg) (st : Store cfg) (other : Nat) :
    (updateCacheAfterWrite pageId slot record st).bufferHolding other =
      st.bufferHolding other := by
  unfold updateCacheAfterWrite
  split
  · rfl
  · split
    · rfl
    · split <;> rfl

theorem file_updateCacheAfterWrite (pageId slot : Nat) (record : Record cfg)
    (st : Store cfg) :
    (updateCacheAfterWrite pageId slot record st).file = st.file := by
  unfold updateCacheAfterWrite
  split
  · rfl
  · split
    · rfl
    · split <;> rfl

theorem sectionShards_updateCacheAfterWrite (pageId slot : Nat)
    (record : Record cfg) (st : Store cfg) :
    (updateCacheAfterWrite pageId slot record st).sectionShards =
      st.sectionShards ∧
    (updateCacheAfterWrite pageId slot record st).sectionWriteBufsCount =
      st.sectionWriteBufsCount ∧
    (updateCacheAfterWrite pageId slot record st).pages = st.pages := by
  unfold updateCacheAfterWrite
  split
  · exact ⟨rfl, rfl, rfl⟩
  · split
    · exact ⟨rfl, rfl, rfl⟩
    · split <;> exact ⟨rfl, rfl, rfl⟩

theorem overlaidPage_updateCacheAfterWrite (pageId slot : Nat)
    (record : Record cfg) (st : Store cfg) (other : Nat) :
    (updateCacheAfterWrite pageId slot record st).overlaidPage other =
      st.overlaidPage other := by
  unfold overlaidPage
  rw [bufferHolding_updateCacheAfterWrite, file_updateCacheAfterWrite]

theorem WellFormed.updateCacheAfterWrite {st : Store cfg} (hwf : st.WellFormed)
    (pageId slot : Nat) (record : Record cfg) :
    (updateCacheAfterWrite pageId slot record st).WellFormed := by
  obtain ⟨hshards, hcount, hpages⟩ :=
    sectionShards_updateCacheAfterWrite pageId slot record st
  refine ⟨hwf.buffers.congr (fun i => by rw [hshards]) ?_ hcount,
    hwf.queued.congr hshards, hwf.cache.updateCacheAfterWrite pageId slot record⟩
  intro other page hpage
  rw [sectionIdxOfPage, hpages, hpage]
  rfl

theorem updateCacheAfterWrite_holds_other {st : Store cfg} (hwf : st.WellFormed)
    {pageId slot other otherSlot : Nat} (record : Record cfg) {found : Record cfg}
    (hslot : slot < cfg.vectorsPerPage)
    (hne : other = pageId → otherSlot ≠ slot)
    (hholds : st.Holds other otherSlot found) :
    (updateCacheAfterWrite pageId slot record st).Holds other otherSlot found := by
  refine ⟨?_, ?_, ?_⟩
  · rw [overlaidPage_updateCacheAfterWrite]
    exact hholds.content
  · intro image himage
    rw [cachedImage_updateCacheAfterWrite hwf.cache record hslot] at himage
    split at himage
    · rename_i hsame
      obtain ⟨old, hold, rfl⟩ := Option.map_eq_some_iff.mp himage
      rw [recordAt_copyInto_other _ _ (hne hsame)]
      exact hholds.cached old hold
    · exact hholds.cached image himage
  · rw [bufferHolding_updateCacheAfterWrite, file_updateCacheAfterWrite]
    exact hholds.backed

/-- Once the cached copy is updated, a reader of the slot finds the record. -/
theorem updateCacheAfterWrite_holds {st : Store cfg} (hwf : st.WellFormed)
    {pageId slot : Nat} {record : Record cfg} (hslot : slot < cfg.vectorsPerPage)
    (hcontent : recordAt cfg (st.overlaidPage pageId) slot = record)
    (hbacked : st.bufferHolding pageId = none →
      pageId * kPageSize + slot * cfg.recordSize + cfg.recordSize ≤ st.file.size) :
    (updateCacheAfterWrite pageId slot record st).Holds pageId slot record := by
  refine ⟨?_, ?_, ?_⟩
  · rw [overlaidPage_updateCacheAfterWrite]
    exact hcontent
  · intro image himage
    rw [cachedImage_updateCacheAfterWrite hwf.cache record hslot, if_pos rfl] at himage
    obtain ⟨old, -, rfl⟩ := Option.map_eq_some_iff.mp himage
    exact recordAt_copyInto_self _ _ _
  · rw [bufferHolding_updateCacheAfterWrite, file_updateCacheAfterWrite]
    exact fun _ => hbacked

/-! A write straight to the file -/

theorem WellFormed.writeRecord {st : Store cfg} (hwf : st.WellFormed)
    (pageId slot : Nat) (record : Record cfg) :
    (writeRecord pageId slot record st).WellFormed :=
  ⟨hwf.buffers.congr (fun _ => rfl)
      (fun other page hpage => by
        change (st.pages[other]?).elim (-1) PageMeta.sectionIdx = _
        rw [hpage]
        rfl)
      rfl,
    hwf.queued.congr rfl, hwf.cache.congr rfl rfl rfl rfl⟩

theorem size_pwriteBytes (file : ByteFile) (offset : Nat) (bytes : List UInt8)
    (hbytes : bytes ≠ []) :
    (file.pwriteBytes offset bytes).size = max file.size (offset + bytes.length) := by
  have hlen := List.length_pos_of_ne_nil hbytes
  simp only [ByteFile.pwriteBytes, ByteFile.pwrite]
  rw [if_neg (by omega)]

theorem record_bytes_ne_nil (record : Record cfg) : record.bytes ≠ [] := by
  intro hnil
  have hlen := record.length_eq
  rw [hnil] at hlen
  simp [Config.recordSize] at hlen

theorem writeRecord_fills {st : Store cfg} {pageId slot : Nat}
    (record : Record cfg) (hnone : st.bufferHolding pageId = none) :
    Fills pageId slot record st (writeRecord pageId slot record st) := by
  have hnone' : (writeRecord pageId slot record st).bufferHolding pageId = none := hnone
  have hsize : (writeRecord pageId slot record st).file.size = max st.file.size
      (pageId * kPageSize + slot * cfg.recordSize + record.bytes.length) :=
    size_pwriteBytes _ _ _ (record_bytes_ne_nil record)
  rw [record.length_eq] at hsize
  refine ⟨?_, fun _ himage => .inl himage, fun _ => by omega, fun _ => .inl hnone,
    by omega⟩
  intro i _
  rw [overlaidPage_of_none hnone', overlaidPage_of_none hnone]
  change copyInto st.file.bytes _ record.bytes _ = _
  unfold copyInto
  by_cases hin : slot * cfg.recordSize ≤ i ∧
      i < slot * cfg.recordSize + record.bytes.length
  · rw [if_pos hin, if_pos (by omega)]
    congr 1
    omega
  · rw [if_neg hin, if_neg (by omega)]

/-- A record lies inside its page, so writing it keeps every other page. -/
theorem writeRecord_keeps {st : Store cfg} {pageId slot : Nat}
    (record : Record cfg) (hslot : slot < cfg.vectorsPerPage) {other : Nat}
    (hne : other ≠ pageId) :
    Keeps other st (writeRecord pageId slot record st) := by
  have hfits := cfg.slot_fits hslot
  have hheld : (writeRecord pageId slot record st).bufferHolding other =
      st.bufferHolding other := rfl
  refine ⟨?_, fun _ himage => .inl himage, fun hnone => .inl (hheld ▸ hnone),
    ByteFile.size_le_pwrite _ _ _ _⟩
  intro i hi
  cases hother : st.bufferHolding other with
  | some held =>
      unfold overlaidPage
      rw [hheld, hother]
  | none =>
      rw [overlaidPage_of_none (hheld.trans hother), overlaidPage_of_none hother]
      change copyInto st.file.bytes _ record.bytes _ = _
      unfold copyInto
      rw [record.length_eq, if_neg]
      unfold kPageSize at hfits hi ⊢
      omega

/-! A write through the section buffer -/

theorem WellFormed.setWriteBuf {st : Store cfg} (hwf : st.WellFormed)
    {sectionIdx : Int} {swb : SectionWriteBuf} (swb' : SectionWriteBuf)
    (hbuf : st.writeBuf sectionIdx = some swb)
    (hpage : st.sectionIdxOfPage swb'.pageId = sectionIdx) :
    (setWriteBuf sectionIdx swb' st).WellFormed :=
  ⟨hwf.buffers.setWriteBuf hbuf hpage, hwf.queued.setWriteBuf hbuf swb',
    hwf.cache.congr rfl rfl rfl rfl⟩

/-- Replacing a live buffer keeps the pages neither buffer holds, unless the old
one was not in the file yet. -/
theorem keeps_setWriteBuf {st : Store cfg} (swb' : SectionWriteBuf)
    (hwf : st.WellFormed) {sectionIdx : Int} {swb : SectionWriteBuf}
    (hbuf : st.writeBuf sectionIdx = some swb)
    (hsection : st.sectionIdxOfPage swb'.pageId = sectionIdx)
    {pageId : Nat} (hne : pageId ≠ swb'.pageId)
    (hflushed : pageId = swb.pageId → Flushed swb st) :
    Keeps pageId st (setWriteBuf sectionIdx swb' st) := by
  have hwf' := hwf.buffers.setWriteBuf hbuf hsection
  by_cases hsame : pageId = swb.pageId
  · subst hsame
    obtain ⟨hbytes, hsize⟩ := hflushed rfl
    have hnone : (setWriteBuf sectionIdx swb' st).bufferHolding swb.pageId = none := by
      rw [bufferHolding_eq_none_iff hwf']
      intro other held hheld hpage
      rw [writeBuf_setWriteBuf] at hheld
      split at hheld
      · cases hheld
        exact hne hpage.symm
      · rename_i hother
        exact hother (writeBuf_unique hwf.buffers hheld hbuf hpage).1
    refine ⟨?_, fun _ himage => .inl himage, fun _ => .inr hsize, Nat.le_refl _⟩
    intro i hi
    rw [overlaidPage_of_none hnone, overlaidPage_of_buffer hwf.buffers hbuf]
    exact hbytes i hi
  · refine Keeps.of_same ?_ rfl rfl
    refine bufferHolding_congr hwf.buffers hwf' fun other held hpage => ?_
    rw [writeBuf_setWriteBuf]
    split
    · rename_i hother
      subst hother
      rw [hbuf]
      constructor
      · intro hheld
        cases hheld
        exact absurd hpage.symm hne
      · intro hheld
        cases hheld
        exact absurd hpage.symm hsame
    · rfl

theorem WellFormed.createWriteBuf {st : Store cfg} (hwf : st.WellFormed)
    {sectionIdx : Int} {pageId : Nat} (hnone : st.writeBuf sectionIdx = none)
    (hnonneg : 0 ≤ sectionIdx) (hpage : st.sectionIdxOfPage pageId = sectionIdx) :
    (createWriteBuf sectionIdx pageId st).WellFormed :=
  ⟨hwf.buffers.createWriteBuf hnone hnonneg hpage,
    hwf.queued.createWriteBuf sectionIdx pageId, hwf.cache.congr rfl rfl rfl rfl⟩

theorem keeps_createWriteBuf {st : Store cfg} (hwf : st.WellFormed)
    {sectionIdx : Int} {pageId : Nat} (hnone : st.writeBuf sectionIdx = none)
    (hnonneg : 0 ≤ sectionIdx) (hpage : st.sectionIdxOfPage pageId = sectionIdx)
    {other : Nat} (hne : other ≠ pageId) :
    Keeps other st (createWriteBuf sectionIdx pageId st) := by
  refine Keeps.of_same ?_ rfl rfl
  refine bufferHolding_congr hwf.buffers
    (hwf.buffers.createWriteBuf hnone hnonneg hpage) fun section' held hheld => ?_
  rw [writeBuf_createWriteBuf]
  split
  · rename_i hsame
    subst hsame
    rw [hnone]
    constructor
    · intro hbuf
      cases hbuf
      exact absurd hheld.symm hne
    · intro hbuf
      cases hbuf
  · rfl

/-- The section's buffer holds the page once it is open.  A buffer opened for
another page starts from zeros; every other page keeps its content. -/
theorem openWriteBuf_spec {st : Store cfg} (hwf : st.WellFormed)
    {sectionIdx : Int} {pageId : Nat} (hnonneg : 0 ≤ sectionIdx)
    (hpage : st.sectionIdxOfPage pageId = sectionIdx)
    (hstart : st.holdsPage sectionIdx pageId = false) :
    ∃ st', openWriteBuf sectionIdx pageId st = some st' ∧ st'.WellFormed ∧
      st'.writeBuf sectionIdx = some ⟨zeros, pageId⟩ ∧
      (∀ other, other ≠ pageId → Keeps other st st') := by
  cases hbuf : st.writeBuf sectionIdx with
  | none =>
      have hcreated := hwf.createWriteBuf hbuf hnonneg hpage
      have hkeeps : ∀ other, other ≠ pageId →
          Keeps other st (createWriteBuf sectionIdx pageId st) :=
        fun other hne => keeps_createWriteBuf hwf hbuf hnonneg hpage hne
      have hlive : (createWriteBuf sectionIdx pageId st).writeBuf sectionIdx =
          some ⟨zeros, pageId⟩ := by
        rw [writeBuf_createWriteBuf, if_pos rfl]
      unfold openWriteBuf
      simp only [hbuf]
      by_cases hcap : 0 < cfg.writeBufCap
      · rw [if_pos hcap]
        obtain ⟨st', hevict⟩ := evictOverCap_terminates sectionIdx hcap
          ((createWriteBuf sectionIdx pageId st).sectionShardState sectionIdx).bufOrder
          0 _ _ hcreated.buffers.buf_shard hcreated.queued (by simp) (Nat.le_refl _)
        have hkept := evictOverCap_induct (motive := fun later =>
            later.WellFormed ∧
              (∀ other, Keeps other (createWriteBuf sectionIdx pageId st) later) ∧
              later.writeBuf sectionIdx = some ⟨zeros, pageId⟩)
          (fun _ _ hlater hturn =>
            have hstep := evictOldest_keeps hlater.1 hturn
            ⟨hstep.1, fun other => (hlater.2.1 other).trans (hstep.2.1 other),
              hstep.2.2.trans hlater.2.2⟩)
          ⟨hcreated, fun other => Keeps.refl other _, hlive⟩ hevict
        exact ⟨st', hevict, hkept.1, hkept.2.2, fun other hne =>
          (hkeeps other hne).trans (hkept.2.1 other)⟩
      · rw [if_neg hcap]
        exact ⟨_, rfl, hcreated, hlive, hkeeps⟩
  | some swb =>
      have hne : swb.pageId ≠ pageId := by
        intro hsame
        rw [holdsPage, hbuf] at hstart
        simp [hsame] at hstart
      have hflushWF := hwf.flushSectionWriteBuf swb
      have hbuf' : (flushSectionWriteBuf swb st).writeBuf sectionIdx = some swb := hbuf
      unfold openWriteBuf
      simp only [hbuf, if_neg hne]
      refine ⟨_, rfl, hflushWF.setWriteBuf ⟨zeros, pageId⟩ hbuf' hpage, ?_, ?_⟩
      · rw [writeBuf_setWriteBuf, if_pos rfl]
      · intro other hother
        exact (keeps_flushSectionWriteBuf hwf.buffers hwf.cache hbuf other).trans
          (keeps_setWriteBuf ⟨zeros, pageId⟩ hflushWF hbuf' hpage hother
            fun _ => flushed_flushSectionWriteBuf swb st)

/-- Filling a slot of an open buffer, with the flush of a full page. -/
theorem fillWriteBuf_spec {st : Store cfg} (hwf : st.WellFormed)
    {sectionIdx : Int} {swb : SectionWriteBuf}
    (hbuf : st.writeBuf sectionIdx = some swb) {slot : Nat}
    (hslot : slot < cfg.vectorsPerPage) (record : Record cfg) :
    (fillWriteBuf sectionIdx slot record st).WellFormed ∧
      Fills swb.pageId slot record st (fillWriteBuf sectionIdx slot record st) ∧
      ∀ other, other ≠ swb.pageId →
        Keeps other st (fillWriteBuf sectionIdx slot record st) := by
  have hfits := cfg.slot_fits hslot
  have hsection := (hwf.buffers.buf_page sectionIdx swb hbuf).2
  let filled : SectionWriteBuf := { swb with
    data := copyInto swb.data (slot * cfg.recordSize) record.bytes }
  have hsetWF := hwf.setWriteBuf filled hbuf hsection
  have hsetBuf : (setWriteBuf sectionIdx filled st).writeBuf sectionIdx =
      some filled := by
    rw [writeBuf_setWriteBuf, if_pos rfl]
  have hsetKeeps : ∀ other, other ≠ swb.pageId →
      Keeps other st (setWriteBuf sectionIdx filled st) := fun other hne =>
    keeps_setWriteBuf filled hwf hbuf hsection hne
      fun hsame => absurd hsame hne
  have hsetFills : Fills swb.pageId slot record st
      (setWriteBuf sectionIdx filled st) := by
    have hheld : (setWriteBuf sectionIdx filled st).bufferHolding swb.pageId =
        some filled :=
      (bufferHolding_eq_some_iff hsetWF.buffers).mpr ⟨sectionIdx, hsetBuf, rfl⟩
    refine ⟨?_, fun _ himage => .inl himage, ?_, ?_, Nat.le_refl _⟩
    · intro i _
      rw [overlaidPage_of_buffer hwf.buffers hbuf]
      exact congrFun (overlaidPage_of_buffer hsetWF.buffers hsetBuf) i
    · intro hnone
      rw [hheld] at hnone
      cases hnone
    · intro hnone
      rw [hheld] at hnone
      cases hnone
  unfold fillWriteBuf
  simp only [hbuf]
  split
  · have hkeeps := keeps_flush_erase hsetWF hsetBuf
    refine ⟨(hsetWF.flushSectionWriteBuf filled).eraseWriteBuf hsetBuf, ?_, ?_⟩
    · refine ⟨?_, ?_, ?_, ?_, ?_⟩
      · intro i hi
        rw [(hkeeps swb.pageId).overlaid i hi, hsetFills.overlaid i hi]
      · intro image himage
        rcases (hkeeps swb.pageId).cached image himage with hold | hfresh
        · rcases hsetFills.cached image hold with hold | hfresh
          · exact .inl hold
          · exact .inr fun i hi => by
              rw [hfresh i hi, (hkeeps swb.pageId).overlaid i hi]
        · exact .inr fun i hi => by
            rw [hfresh i hi, (hkeeps swb.pageId).overlaid i hi]
      · intro _
        have hsize := (flushed_flushSectionWriteBuf filled
          (setWriteBuf sectionIdx filled st)).2
        rw [Nat.add_mul, Nat.one_mul] at hsize
        change _ ≤ (flushSectionWriteBuf filled
          (setWriteBuf sectionIdx filled st)).file.size
        change swb.pageId * kPageSize + kPageSize ≤ _ at hsize
        omega
      · intro _
        exact .inr (flushed_flushSectionWriteBuf filled
          (setWriteBuf sectionIdx filled st)).2
      · exact (hkeeps swb.pageId).size_le
    · intro other hne
      exact (hsetKeeps other hne).trans (hkeeps other)
  · exact ⟨hsetWF, hsetFills, hsetKeeps⟩

theorem holdsPage_iff (st : Store cfg) (sectionIdx : Int) (pageId : Nat) :
    st.holdsPage sectionIdx pageId = true ↔
      ∃ swb, st.writeBuf sectionIdx = some swb ∧ swb.pageId = pageId := by
  unfold holdsPage
  cases st.writeBuf sectionIdx <;> simp

/-- The buffer refuses a write in the middle of a page it does not hold. -/
theorem writeToSectionBufferLocked_refuses {st : Store cfg} {sectionIdx : Int}
    {pageId slot : Nat} (record : Record cfg)
    (hheld : st.holdsPage sectionIdx pageId = false) (hslot : slot ≠ 0) :
    writeToSectionBufferLocked sectionIdx pageId slot record st =
      some (false, st) := by
  unfold writeToSectionBufferLocked
  simp [hheld, hslot]

/-- A buffer that holds the page takes the record. -/
theorem writeToSectionBufferLocked_fills {st : Store cfg} (hwf : st.WellFormed)
    {sectionIdx : Int} {pageId slot : Nat} (record : Record cfg)
    (hslot : slot < cfg.vectorsPerPage)
    (hheld : st.holdsPage sectionIdx pageId = true) :
    ∃ st', writeToSectionBufferLocked sectionIdx pageId slot record st =
        some (true, st') ∧ st'.WellFormed ∧ Fills pageId slot record st st' ∧
      ∀ other, other ≠ pageId → Keeps other st st' := by
  obtain ⟨swb, hbuf, rfl⟩ := (holdsPage_iff _ _ _).mp hheld
  obtain ⟨hwf', hfills, hkeeps⟩ := fillWriteBuf_spec hwf hbuf hslot record
  refine ⟨_, ?_, hwf', hfills, hkeeps⟩
  unfold writeToSectionBufferLocked openWriteBuf
  simp [hheld, hbuf]

/-- The first record of a page starts a buffer from zeros. -/
theorem writeToSectionBufferLocked_starts {st : Store cfg} (hwf : st.WellFormed)
    {sectionIdx : Int} {pageId : Nat} (record : Record cfg)
    (hnonneg : 0 ≤ sectionIdx) (hpage : st.sectionIdxOfPage pageId = sectionIdx)
    (hheld : st.holdsPage sectionIdx pageId = false) :
    ∃ st', writeToSectionBufferLocked sectionIdx pageId 0 record st =
        some (true, st') ∧ st'.WellFormed ∧
      recordAt cfg (st'.overlaidPage pageId) 0 = record ∧
      (st'.bufferHolding pageId = none →
        pageId * kPageSize + 0 * cfg.recordSize + cfg.recordSize ≤ st'.file.size) ∧
      ∀ other, other ≠ pageId → Keeps other st st' := by
  obtain ⟨opened, hopen, hopenWF, hbuf, hopenKeeps⟩ :=
    openWriteBuf_spec hwf hnonneg hpage hheld
  obtain ⟨hwf', hfills, hkeeps⟩ :=
    fillWriteBuf_spec hopenWF hbuf cfg.vectorsPerPage_pos record
  refine ⟨_, ?_, hwf', hfills.content cfg.vectorsPerPage_pos, hfills.backed,
    fun other hne => (hopenKeeps other hne).trans (hkeeps other hne)⟩
  unfold writeToSectionBufferLocked
  simp [hheld, hopen]

/-- A page whose section's buffer does not hold it has no buffer at all. -/
theorem bufferHolding_eq_none_of_holdsPage {st : Store cfg}
    (hwf : st.BuffersWellFormed) {sectionIdx : Int} {pageId : Nat}
    (hpage : st.sectionIdxOfPage pageId = sectionIdx)
    (hheld : st.holdsPage sectionIdx pageId = false) :
    st.bufferHolding pageId = none := by
  rw [bufferHolding_eq_none_iff hwf]
  intro other swb hbuf hsame
  have hsection := (hwf.buf_page other swb hbuf).2
  rw [hsame, hpage] at hsection
  subst hsection
  rw [(holdsPage_iff _ _ _).mpr ⟨swb, hbuf, hsame⟩] at hheld
  cases hheld

/-- What follows the change of a slot, wherever it was made: once the cached copy
is refreshed, readers find the record, and what they found in other slots. -/
theorem Fills.updateCacheAfterWrite {st written : Store cfg} {pageId slot : Nat}
    {record : Record cfg} (hfills : Fills pageId slot record st written)
    (hslot : slot < cfg.vectorsPerPage) (hwritten : written.WellFormed)
    (hkeeps : ∀ other, other ≠ pageId → Keeps other st written) :
    (Store.updateCacheAfterWrite pageId slot record written).WellFormed ∧
      (Store.updateCacheAfterWrite pageId slot record written).Holds pageId slot record ∧
      ∀ other otherSlot found, otherSlot < cfg.vectorsPerPage →
        (other = pageId → otherSlot ≠ slot) → st.Holds other otherSlot found →
        (Store.updateCacheAfterWrite pageId slot record written).Holds other otherSlot
          found := by
  refine ⟨hwritten.updateCacheAfterWrite _ _ _,
    updateCacheAfterWrite_holds hwritten hslot (hfills.content hslot) hfills.backed, ?_⟩
  intro other otherSlot found hother hne hholds
  refine updateCacheAfterWrite_holds_other hwritten record hslot hne ?_
  by_cases hsame : other = pageId
  · subst hsame
    exact hfills.holds_other hother (hne rfl) hholds
  · exact (hkeeps other hsame).holds hother hholds

/-- The whole write of a new record, without interruption: the slot holds the
record, every other page keeps what it held, and so does the page itself unless
its buffer was started from zeros. -/
theorem writeNewRecord_spec {st : Store cfg} (hwf : st.WellFormed)
    {sectionIdx : Int} {pageId slot : Nat} (record : Record cfg)
    (hslot : slot < cfg.vectorsPerPage)
    (hpage : st.sectionIdxOfPage pageId = sectionIdx) :
    ∃ st', writeNewRecord sectionIdx pageId slot record st = some st' ∧
      st'.WellFormed ∧ st'.Holds pageId slot record ∧
      ∀ other otherSlot found, otherSlot < cfg.vectorsPerPage →
        (other = pageId → otherSlot ≠ slot ∧ slot ≠ 0) →
        st.Holds other otherSlot found → st'.Holds other otherSlot found := by
  unfold writeNewRecord
  by_cases hneg : sectionIdx < 0
  · rw [if_pos hneg]
    have hnone : st.bufferHolding pageId = none := by
      rw [bufferHolding_eq_none_iff hwf.buffers]
      intro other swb hbuf hsame
      obtain ⟨hnonneg, hsection⟩ := hwf.buffers.buf_page other swb hbuf
      rw [hsame, hpage] at hsection
      omega
    obtain ⟨hdone, hholds, hothers⟩ := (writeRecord_fills record hnone).updateCacheAfterWrite
      hslot (hwf.writeRecord _ _ _) fun other hne => writeRecord_keeps record hslot hne
    exact ⟨_, rfl, hdone, hholds, fun other otherSlot found hother hne =>
      hothers other otherSlot found hother fun hsame => (hne hsame).1⟩
  · rw [if_neg hneg]
    cases hheld : st.holdsPage sectionIdx pageId with
    | true =>
        obtain ⟨written, hwrite, hwritten, hfills, hkeeps⟩ :=
          writeToSectionBufferLocked_fills hwf record hslot hheld
        simp only [hwrite]
        obtain ⟨hdone, hholds, hothers⟩ :=
          hfills.updateCacheAfterWrite hslot hwritten hkeeps
        exact ⟨_, rfl, hdone, hholds, fun other otherSlot found hother hne =>
          hothers other otherSlot found hother fun hsame => (hne hsame).1⟩
    | false =>
        by_cases hzero : slot = 0
        · subst hzero
          obtain ⟨written, hwrite, hwritten, hcontent, hbacked, hkeeps⟩ :=
            writeToSectionBufferLocked_starts hwf record (Int.not_lt.mp hneg) hpage hheld
          simp only [hwrite]
          refine ⟨_, rfl, hwritten.updateCacheAfterWrite _ _ _,
            updateCacheAfterWrite_holds hwritten hslot hcontent hbacked, ?_⟩
          intro other otherSlot found hother hne hholds
          have hsame : other ≠ pageId := fun hsame => (hne hsame).2 rfl
          exact updateCacheAfterWrite_holds_other hwritten record hslot
            (fun heq => absurd heq hsame) ((hkeeps other hsame).holds hother hholds)
        · rw [writeToSectionBufferLocked_refuses record hheld hzero]
          have hnone := bufferHolding_eq_none_of_holdsPage hwf.buffers hpage hheld
          obtain ⟨hdone, hholds, hothers⟩ :=
            (writeRecord_fills record hnone).updateCacheAfterWrite hslot
              (hwf.writeRecord _ _ _) fun other hne => writeRecord_keeps record hslot hne
          exact ⟨_, rfl, hdone, hholds, fun other otherSlot found hother hne =>
            hothers other otherSlot found hother fun hsame => (hne hsame).1⟩

end Store

end AsterVec.PagedVectorStorage

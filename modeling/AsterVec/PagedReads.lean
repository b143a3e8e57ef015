import AsterVec.PagedWrites

/-!
Reads and flushes.  A read returns what its slot holds; neither a read nor a
flush changes what any slot holds.
-/

namespace AsterVec.PagedVectorStorage

open AsterVec.ByteBuffer
open AsterVec.IdTypes

variable {cfg : Config}

namespace Store

/-! Reads -/

theorem publishPage_fields (pageId : Nat) (image : Buffer) (st : Store cfg) :
    (publishPage pageId image st).sectionShards = st.sectionShards ∧
    (publishPage pageId image st).sectionWriteBufsCount = st.sectionWriteBufsCount ∧
    (publishPage pageId image st).pages = st.pages ∧
    (publishPage pageId image st).file = st.file := by
  have htaken : st.takeCacheSlot.2.sectionShards = st.sectionShards ∧
      st.takeCacheSlot.2.sectionWriteBufsCount = st.sectionWriteBufsCount ∧
      st.takeCacheSlot.2.pages = st.pages ∧ st.takeCacheSlot.2.file = st.file := by
    unfold takeCacheSlot
    split <;> exact ⟨rfl, rfl, rfl, rfl⟩
  unfold publishPage
  split
  · exact ⟨rfl, rfl, rfl, rfl⟩
  · exact htaken

/-- Loading a page caches its overlaid image and changes no page. -/
theorem loadPageToCache_spec {st : Store cfg} (hwf : st.WellFormed)
    (pageId : Nat) :
    (loadPageToCache pageId st).WellFormed ∧
      (∀ other, Keeps other st (loadPageToCache pageId st)) ∧
      (0 < cfg.maxCachedPages →
        ((loadPageToCache pageId st).cachedImage pageId).isSome) := by
  unfold loadPageToCache
  by_cases hmax : cfg.maxCachedPages = 0
  · rw [if_pos hmax]
    exact ⟨hwf, fun other => Keeps.refl other st, fun hpos => absurd hmax (by omega)⟩
  · rw [if_neg hmax]
    cases hmap : st.pageToSlot pageId with
    | some cs =>
        obtain ⟨buf, -, himage⟩ := hwf.cache.image_of_mapped hmap
        refine ⟨hwf, fun other => Keeps.refl other st, fun _ => ?_⟩
        simp [himage]
    | none =>
        have hpos : 0 < cfg.maxCachedPages := Nat.pos_of_ne_zero hmax
        simp only [Option.isSome_none, Bool.false_eq_true, if_false]
        obtain ⟨hshards, hcount, hpages, hfile⟩ :=
          publishPage_fields pageId (st.overlaidPage pageId) st
        obtain ⟨hnew, hold⟩ :=
          cachedImage_publishPage (st.overlaidPage pageId) hwf.cache hpos hmap
        have hbuffers : (publishPage pageId (st.overlaidPage pageId)
            st).BuffersWellFormed := by
          refine hwf.buffers.congr (fun i => by rw [hshards]) ?_ hcount
          intro other page hpage
          rw [sectionIdxOfPage, hpages, hpage]
          rfl
        refine ⟨⟨hbuffers, hwf.queued.congr hshards,
          hwf.cache.publishPage hpos _ _⟩, ?_, fun _ => by simp [hnew]⟩
        intro other
        have hheld : (publishPage pageId (st.overlaidPage pageId) st).bufferHolding
            other = st.bufferHolding other := by
          unfold bufferHolding writeBuf sectionShardState sectionIdxOfPage
          rw [hshards, hcount, hpages]
        refine ⟨?_, ?_, fun hnone => .inl (hheld ▸ hnone), Nat.le_of_eq
          (congrArg ByteFile.size hfile.symm)⟩
        · intro i _
          rw [overlaidPage_congr hheld hfile]
        · intro image himage
          by_cases hsame : other = pageId
          · subst hsame
            rw [hnew] at himage
            cases himage
            exact .inr fun _ _ => rfl
          · exact .inl (hold other image hsame himage)

/-- A read of a slot returns the record the slot holds and keeps every page. -/
theorem readRecordAt_spec {st : Store cfg} (hwf : st.WellFormed)
    {pageId slot : Nat} {record : Record cfg} (hslot : slot < cfg.vectorsPerPage)
    (hholds : st.Holds pageId slot record) :
    (readRecordAt pageId slot st).1 = .returned record ∧
      (readRecordAt pageId slot st).2.WellFormed ∧
      ∀ other, Keeps other st (readRecordAt pageId slot st).2 := by
  unfold readRecordAt
  cases hheld : st.bufferHolding pageId with
  | some swb =>
      have hcontent := hholds.content
      unfold overlaidPage at hcontent
      rw [hheld] at hcontent
      simp only [tryReadFromWriteBuf, hheld, Option.map_some]
      exact ⟨congrArg _ hcontent, hwf, fun other => Keeps.refl other st⟩
  | none =>
      simp only [tryReadFromWriteBuf, hheld, Option.map_none]
      rw [tryReadFromCache_eq st hwf.cache hslot]
      cases himage : st.cachedImage pageId with
      | some image =>
          simp only [Option.map_some]
          exact ⟨congrArg _ (hholds.cached image himage), hwf,
            fun other => Keeps.refl other st⟩
      | none =>
          obtain ⟨hloaded, hkeeps, hcached⟩ := loadPageToCache_spec hwf pageId
          have hholds' := (hkeeps pageId).holds hslot hholds
          simp only [Option.map_none]
          rw [tryReadFromCache_eq _ hloaded.cache hslot]
          cases himage' : (loadPageToCache pageId st).cachedImage pageId with
          | some image =>
              simp only [Option.map_some]
              exact ⟨congrArg _ (hholds'.cached image himage'), hloaded, hkeeps⟩
          | none =>
              have hmax : cfg.maxCachedPages = 0 := by
                by_contra hne
                have := hcached (Nat.pos_of_ne_zero hne)
                rw [himage'] at this
                cases this
              have hsame : loadPageToCache pageId st = st := if_pos hmax
              simp only [Option.map_none, hsame]
              refine ⟨?_, hwf, fun other => Keeps.refl other st⟩
              have hsize := hholds.backed hmax hheld
              have hcontent := hholds.content
              rw [overlaidPage_of_none hheld] at hcontent
              unfold preadRecord
              simp only
              rw [if_pos hsize]
              refine congrArg _ ?_
              rw [← hcontent]
              simp only [recordAt, Record.mk.injEq]
              exact slice_congr fun k _ => by rw [Nat.add_assoc]

/-- A read that returned a record found it in the slot. -/
theorem holds_of_readRecordAt {st : Store cfg} (hwf : st.WellFormed)
    {pageId slot : Nat} {record : Record cfg} (hslot : slot < cfg.vectorsPerPage)
    (hcached : st.cachedImage pageId = none)
    (hnone : st.bufferHolding pageId = none)
    (hread : (readRecordAt pageId slot st).1 = .returned record) :
    st.Holds pageId slot record := by
  have hsized : cfg.maxCachedPages = 0 →
      pageId * kPageSize + slot * cfg.recordSize + cfg.recordSize ≤ st.file.size := by
    intro hmax
    have hsame : loadPageToCache pageId st = st := if_pos hmax
    unfold readRecordAt at hread
    simp only [tryReadFromWriteBuf, hnone, Option.map_none,
      tryReadFromCache_eq st hwf.cache hslot, hcached, hsame, preadRecord] at hread
    split at hread
    · assumption
    · cases hread
  have hholds : st.Holds pageId slot
      (recordAt cfg (st.overlaidPage pageId) slot) := by
    refine ⟨rfl, ?_, fun hmax _ => hsized hmax⟩
    intro image himage
    rw [hcached] at himage
    cases himage
  have hreturned := (readRecordAt_spec hwf hslot hholds).1
  rw [hreturned] at hread
  cases hread
  exact hholds

/-- Whatever it returns, a read keeps every page. -/
theorem readRecordAt_keeps {st : Store cfg} (hwf : st.WellFormed)
    (pageId slot : Nat) :
    (readRecordAt pageId slot st).2.WellFormed ∧
      ∀ other, Keeps other st (readRecordAt pageId slot st).2 := by
  obtain ⟨hloaded, hkeeps, -⟩ := loadPageToCache_spec hwf pageId
  unfold readRecordAt
  split
  · exact ⟨hwf, fun other => Keeps.refl other st⟩
  · split
    · exact ⟨hwf, fun other => Keeps.refl other st⟩
    · simp only
      split <;> exact ⟨hloaded, hkeeps⟩

theorem readVectorFromDisk_keeps {st : Store cfg} (hwf : st.WellFormed) (id : Nat) :
    (readVectorFromDisk id st).2.WellFormed ∧
      ∀ other, Keeps other st (readVectorFromDisk id st).2 := by
  unfold readVectorFromDisk
  split
  · exact ⟨hwf, fun other => Keeps.refl other st⟩
  · exact ⟨hwf, fun other => Keeps.refl other st⟩
  · exact ⟨hwf, fun other => Keeps.refl other st⟩
  · exact readRecordAt_keeps hwf _ _

theorem readVectorFromDisk_of_location {st : Store cfg} {id pageId slot : Nat}
    (hlocation : st.location id = some (pageId, slot)) :
    readVectorFromDisk id st = readRecordAt pageId slot st := by
  unfold location at hlocation
  unfold readVectorFromDisk
  split at hlocation
  · rename_i hpage hslot
    cases hlocation
    simp only [hpage, hslot]
  · cases hlocation

/-! Flushing every buffer -/

theorem Flushed.flushSectionWriteBuf {st : Store cfg} (hwf : st.BuffersWellFormed)
    {sectionIdx other : Int} {swb swb' : SectionWriteBuf}
    (hbuf : st.writeBuf sectionIdx = some swb)
    (hbuf' : st.writeBuf other = some swb') (hflushed : Flushed swb st) :
    Flushed swb (flushSectionWriteBuf swb' st) := by
  by_cases hsame : swb.pageId = swb'.pageId
  · obtain ⟨-, rfl⟩ := writeBuf_unique hwf hbuf hbuf' hsame
    exact flushed_flushSectionWriteBuf _ _
  · refine ⟨?_, Nat.le_trans hflushed.2 (ByteFile.size_le_pwrite _ _ _ _)⟩
    intro i hi
    refine (file_bytes_pwrite_page st.file swb'.pageId swb.pageId _ hi).trans ?_
    rw [if_neg hsame]
    exact hflushed.1 i hi

/-- Flushing a list of live buffers brings their images into the file and keeps
every page. -/
theorem foldl_flushSectionWriteBuf_spec
    (entries : List ((_ : Int) × SectionWriteBuf)) :
    ∀ st : Store cfg, st.WellFormed →
      (∀ entry ∈ entries, st.writeBuf entry.1 = some entry.2) →
      let st' := entries.foldl (fun st entry => flushSectionWriteBuf entry.2 st) st
      st'.WellFormed ∧ (∀ pageId, Keeps pageId st st') ∧
        st'.sectionShards = st.sectionShards ∧
        (∀ sectionIdx swb, st.writeBuf sectionIdx = some swb → Flushed swb st →
          Flushed swb st') ∧
        ∀ entry ∈ entries, Flushed entry.2 st' := by
  induction entries with
  | nil =>
      intro st hwf _
      exact ⟨hwf, fun pageId => Keeps.refl pageId st, rfl,
        fun _ _ _ hflushed => hflushed, by simp⟩
  | cons entry entries ih =>
      intro st hwf hlive
      have hentry := hlive entry List.mem_cons_self
      obtain ⟨hwf', hkeeps, hshards, hold, hnew⟩ :=
        ih (flushSectionWriteBuf entry.2 st) (hwf.flushSectionWriteBuf entry.2)
          fun other hother => hlive other (List.mem_cons_of_mem _ hother)
      refine ⟨hwf', fun pageId =>
        (keeps_flushSectionWriteBuf hwf.buffers hwf.cache hentry pageId).trans
          (hkeeps pageId), hshards, ?_, ?_⟩
      · intro sectionIdx swb hbuf hflushed
        exact hold sectionIdx swb hbuf
          (hflushed.flushSectionWriteBuf hwf.buffers hbuf hentry)
      · intro other hother
        rcases List.mem_cons.mp hother with rfl | hother
        · exact hold _ _ hentry (flushed_flushSectionWriteBuf _ _)
        · exact hnew other hother

theorem shardIdx_natCast {i : Nat} (hi : i < kNumSectionShards) :
    shardIdx (i : Int) = i := by
  unfold shardIdx
  have : (i : Int) % (kNumSectionShards : Nat) = i :=
    Int.emod_eq_of_lt (by omega) (by omega)
  rw [this]
  exact Int.toNat_natCast i

theorem flushShard_spec {st : Store cfg} (hwf : st.WellFormed) {i : Nat}
    (hi : i < kNumSectionShards) :
    (flushShard i st).WellFormed ∧ (∀ pageId, Keeps pageId st (flushShard i st)) ∧
      ∀ j, ((flushShard i st).sectionShards j).writeBufs =
        if j = i then ∅ else (st.sectionShards j).writeBufs := by
  have hlive : ∀ entry ∈ (st.sectionShards i).writeBufs.entries,
      st.writeBuf entry.1 = some entry.2 := by
    intro entry hentry
    have hlookup := AList.mem_lookup_iff.mpr hentry
    have hmem : entry.1 ∈ (st.sectionShards i).writeBufs :=
      AList.lookup_isSome.mp (by rw [hlookup]; rfl)
    rw [writeBuf, sectionShardState, hwf.buffers.buf_shard i entry.1 hmem]
    exact hlookup
  obtain ⟨hflushedWF, hkeeps, hshards, -, hflushed⟩ :=
    foldl_flushSectionWriteBuf_spec (st.sectionShards i).writeBufs.entries st hwf hlive
  unfold flushShard
  simp only
  generalize (st.sectionShards i).writeBufs.entries.foldl
    (fun st entry => flushSectionWriteBuf entry.2 st) st = flushed at *
  let dropped : SectionShard :=
    { st.sectionShards i with writeBufs := ∅, bufOrder := [], bufPool := 0 }
  have hset : ({ flushed with
      sectionShards := Function.update flushed.sectionShards i dropped } : Store cfg) =
      flushed.setShard (i : Int) dropped := by
    rw [setShard, shardIdx_natCast hi]
  have hbuffers : (flushed.setShard (i : Int) dropped).BuffersWellFormed := by
    refine hflushedWF.buffers.setShard dropped flushed.sectionWriteBufsCount ?_ ?_
    · intro other swb hbuf
      cases hbuf
    · exact Nat.le_trans (Nat.add_le_add_right hflushedWF.buffers.buf_count _)
        (Nat.add_le_add_left (Nat.zero_le _) _)
  have hbufs : ∀ other, (flushed.setShard (i : Int) dropped).writeBuf other =
      if shardIdx other = i then none else flushed.writeBuf other := by
    intro other
    rw [writeBuf_setShard, shardIdx_natCast hi]
    rfl
  change Store.WellFormed { flushed with sectionShards := Function.update _ i dropped } ∧
    _
  rw [hset]
  refine ⟨⟨hbuffers, hflushedWF.queued.setShard dropped fun _ other hmem => absurd hmem
    (AList.notMem_empty other), hflushedWF.cache.congr rfl rfl rfl rfl⟩, ?_, ?_⟩
  · intro pageId
    refine (hkeeps pageId).trans ?_
    by_cases hheld : ∃ sectionIdx swb, flushed.writeBuf sectionIdx = some swb ∧
        shardIdx sectionIdx = i ∧ swb.pageId = pageId
    · obtain ⟨sectionIdx, swb, hbuf, hshard, rfl⟩ := hheld
      have hnone : (flushed.setShard (i : Int) dropped).bufferHolding swb.pageId =
          none := by
        rw [bufferHolding_eq_none_iff hbuffers]
        intro other held hother hpage
        rw [hbufs] at hother
        split at hother
        · cases hother
        · rename_i hne
          have := (writeBuf_unique hflushedWF.buffers hother hbuf hpage).1
          exact hne (this ▸ hshard)
      have hentry : (⟨sectionIdx, swb⟩ : (_ : Int) × SectionWriteBuf) ∈
          (st.sectionShards i).writeBufs.entries := by
        rw [writeBuf, sectionShardState, hshard, hshards] at hbuf
        exact AList.mem_lookup_iff.mp hbuf
      obtain ⟨hbytes, hsize⟩ := hflushed _ hentry
      refine ⟨?_, fun _ himage => .inl himage, fun _ => .inr hsize, Nat.le_refl _⟩
      intro k hk
      rw [overlaidPage_of_none hnone, overlaidPage_of_buffer hflushedWF.buffers hbuf]
      exact hbytes k hk
    · refine Keeps.of_same ?_ rfl rfl
      refine bufferHolding_congr hflushedWF.buffers hbuffers fun other held hpage => ?_
      rw [hbufs]
      split
      · rename_i hshard
        constructor
        · intro hbuf
          cases hbuf
        · intro hbuf
          exact absurd ⟨other, held, hbuf, hshard, hpage⟩ hheld
      · rfl
  · intro j
    change (Function.update flushed.sectionShards i dropped j).writeBufs = _
    rw [Function.update_apply]
    split
    · rfl
    · rw [hshards]

/-- Flushing leaves no buffer and keeps every page. -/
theorem flushWrites_spec {st : Store cfg} (hwf : st.WellFormed) :
    st.flushWrites.WellFormed ∧ (∀ pageId, Keeps pageId st st.flushWrites) ∧
      ∀ sectionIdx, st.flushWrites.writeBuf sectionIdx = none := by
  have hfold : ∀ (shards : List Nat), (∀ i ∈ shards, i < kNumSectionShards) →
      ∀ st : Store cfg, st.WellFormed →
        (shards.foldl (fun st i => flushShard i st) st).WellFormed ∧
        (∀ pageId, Keeps pageId st (shards.foldl (fun st i => flushShard i st) st)) ∧
        ∀ j, j ∈ shards ∨ (st.sectionShards j).writeBufs = ∅ →
          ((shards.foldl (fun st i => flushShard i st) st).sectionShards j).writeBufs =
            ∅ := by
    intro shards
    induction shards with
    | nil =>
        intro _ st hwf
        exact ⟨hwf, fun pageId => Keeps.refl pageId st, fun j hj => by simpa using hj⟩
    | cons i shards ih =>
        intro hshards st hwf
        obtain ⟨hwf', hkeeps', hempty'⟩ :=
          flushShard_spec hwf (hshards i List.mem_cons_self)
        obtain ⟨hdone, hkeeps, hempty⟩ :=
          ih (fun j hj => hshards j (List.mem_cons_of_mem _ hj)) _ hwf'
        refine ⟨hdone, fun pageId => (hkeeps' pageId).trans (hkeeps pageId), ?_⟩
        intro j hj
        refine hempty j ?_
        rw [hempty']
        by_cases hsame : j = i
        · exact .inr (if_pos hsame)
        · rw [if_neg hsame]
          rcases hj with hmem | hold
          · exact .inl ((List.mem_cons.mp hmem).resolve_left hsame)
          · exact .inr hold
  obtain ⟨hdone, hkeeps, hempty⟩ := hfold (List.range kNumSectionShards)
    (fun i hi => List.mem_range.mp hi) st hwf
  have hnone : ∀ i < kNumSectionShards, (((List.range kNumSectionShards).foldl
      (fun st i => flushShard i st) st).sectionShards i).writeBufs = ∅ :=
    fun i hi => hempty i (.inl (List.mem_range.mpr hi))
  unfold flushWrites
  generalize (List.range kNumSectionShards).foldl (fun st i => flushShard i st) st =
    flushed at *
  have hbufNone : ∀ sectionIdx, flushed.writeBuf sectionIdx = none := by
    intro sectionIdx
    rw [writeBuf, sectionShardState, hnone _ (shardIdx_lt sectionIdx)]
    exact AList.lookup_empty _
  have hlive : flushed.liveBuffers = 0 := by
    unfold liveBuffers
    refine Finset.sum_eq_zero fun i hi => ?_
    rw [hnone i (Finset.mem_range.mp hi)]
    rfl
  have hbuffers : ({ flushed with
      sectionWriteBufsCount := 0 } : Store cfg).BuffersWellFormed :=
    ⟨fun sectionIdx swb hbuf => absurd ((hbufNone sectionIdx).symm.trans hbuf) (by simp),
      hdone.buffers.buf_shard, Nat.le_of_eq hlive⟩
  refine ⟨⟨hbuffers, hdone.queued.congr rfl, hdone.cache.congr rfl rfl rfl rfl⟩, ?_,
    hbufNone⟩
  intro pageId
  refine (hkeeps pageId).trans (Keeps.of_same ?_ rfl rfl)
  exact bufferHolding_congr hdone.buffers hbuffers fun _ _ _ => Iff.rfl

end Store

end AsterVec.PagedVectorStorage

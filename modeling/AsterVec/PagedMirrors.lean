import AsterVec.PagedOverwrites
import AsterVec.PagedArrays

/-!
The cached copy of a page.  Unless a live buffer hides the page, its cached copy is the
page in the file: a write goes to both, a flush refreshes the copy before the buffer is
dropped, and a page is loaded with its buffer on top.  Every reader of a slot therefore
sees the same record, whether or not the record is the one stored last.
-/

namespace AsterVec.PagedVectorStorage

open AsterVec.ByteBuffer
open AsterVec.IdTypes

variable {cfg : Config}

namespace Store

/-- The cached copy of the page, if there is one, is the page. -/
def Mirrored (st : Store cfg) (pageId : Nat) : Prop :=
  ∀ image, st.cachedImage pageId = some image →
    ∀ i < kPageSize, image i = st.overlaidPage pageId i

/-- The cached copy of a page without a buffer is the page in the file. -/
def Clean (st : Store cfg) : Prop :=
  ∀ pageId, st.bufferHolding pageId = none → st.Mirrored pageId

/-- The step keeps the content of the page, and its cached copy is the page when the step
drops the page's buffer. -/
structure Freshens (pageId : Nat) (st st' : Store cfg) : Prop where
  keeps : Keeps pageId st st'
  mirrored : st'.bufferHolding pageId = none →
    st.bufferHolding pageId = none ∨ st'.Mirrored pageId

theorem Mirrored.of_keeps {st st' : Store cfg} {pageId : Nat}
    (hmirrored : st.Mirrored pageId) (hkeeps : Keeps pageId st st') :
    st'.Mirrored pageId := by
  intro image himage i hi
  rw [hkeeps.overlaid i hi]
  rcases hkeeps.cached image himage with hold | hfresh
  · exact hmirrored image hold i hi
  · exact hfresh i hi

theorem Freshens.refl (pageId : Nat) (st : Store cfg) : Freshens pageId st st :=
  ⟨Keeps.refl pageId st, .inl⟩

theorem Freshens.trans {pageId : Nat} {st st' st'' : Store cfg}
    (hfirst : Freshens pageId st st') (hsecond : Freshens pageId st' st'') :
    Freshens pageId st st'' := by
  refine ⟨hfirst.keeps.trans hsecond.keeps, fun hnone => ?_⟩
  rcases hsecond.mirrored hnone with hold | hmirrored
  · exact (hfirst.mirrored hold).imp_right fun hkept => hkept.of_keeps hsecond.keeps
  · exact .inr hmirrored

/-- What leaves the buffer of a page in place freshens the page. -/
theorem Freshens.of_buffers {st st' : Store cfg} {pageId : Nat} (hkeeps : Keeps pageId st st')
    (hwf : st.BuffersWellFormed) (hwf' : st'.BuffersWellFormed)
    (hbufs : ∀ sectionIdx swb, swb.pageId = pageId →
      st.writeBuf sectionIdx = some swb → st'.writeBuf sectionIdx = some swb) :
    Freshens pageId st st' := by
  refine ⟨hkeeps, fun hnone => .inl ?_⟩
  rw [bufferHolding_eq_none_iff hwf]
  intro sectionIdx swb hbuf hpage
  exact (bufferHolding_eq_none_iff hwf').mp hnone sectionIdx swb
    (hbufs sectionIdx swb hpage hbuf) hpage

theorem Clean.freshened {st st' : Store cfg} (hclean : st.Clean) {pageId : Nat}
    (hfreshens : Freshens pageId st st') (hnone : st'.bufferHolding pageId = none) :
    st'.Mirrored pageId := by
  rcases hfreshens.mirrored hnone with hold | hmirrored
  · exact (hclean pageId hold).of_keeps hfreshens.keeps
  · exact hmirrored

theorem Clean.of_freshens {st st' : Store cfg} (hclean : st.Clean)
    (hfreshens : ∀ pageId, Freshens pageId st st') : st'.Clean :=
  fun pageId hnone => hclean.freshened (hfreshens pageId) hnone

theorem Clean.of_uncached {st : Store cfg} (hnone : ∀ pageId, st.cachedImage pageId = none) :
    st.Clean := by
  intro pageId _ image himage
  rw [hnone] at himage
  cases himage

/-! Steps that move no record -/

theorem Quiet.freshens {st st' : Store cfg} (hquiet : Quiet st st') (hwf : st.WellFormed)
    (pageId : Nat) : Freshens pageId st st' := by
  have hheld := hquiet.bufferHolding hwf pageId
  exact ⟨hquiet.keeps hwf pageId, fun hnone => .inl (hheld ▸ hnone)⟩

theorem freshens_loadPageToCache {st : Store cfg} (hwf : st.WellFormed) (page pageId : Nat) :
    Freshens pageId st (loadPageToCache page st) := by
  obtain ⟨hloaded, hkeeps, -⟩ := loadPageToCache_spec hwf page
  have hshards : (loadPageToCache page st).sectionShards = st.sectionShards := by
    unfold loadPageToCache
    split
    · rfl
    · split
      · rfl
      · exact (publishPage_fields _ _ _).1
  refine .of_buffers (hkeeps pageId) hwf.buffers hloaded.buffers fun sectionIdx swb _ hbuf => ?_
  unfold writeBuf sectionShardState
  rw [hshards]
  exact hbuf

theorem freshens_loadPages (pages : List Nat) :
    ∀ st : Store cfg, st.WellFormed → ∀ pageId,
      Freshens pageId st (pages.foldl (fun st page => loadPageToCache page st) st) := by
  induction pages with
  | nil => exact fun st _ pageId => Freshens.refl pageId st
  | cons page pages ih =>
      intro st hwf pageId
      exact (freshens_loadPageToCache hwf page pageId).trans
        (ih _ (loadPageToCache_spec hwf page).1 pageId)

/-! Every read only loads pages -/

/-- The step loads pages into the cache, one after the other. -/
def Loads (st st' : Store cfg) : Prop :=
  ∃ pages : List Nat, st' = pages.foldl (fun st page => loadPageToCache page st) st

theorem Loads.freshens {st st' : Store cfg} (hloads : Loads st st') (hwf : st.WellFormed)
    (pageId : Nat) : Freshens pageId st st' := by
  obtain ⟨pages, rfl⟩ := hloads
  exact freshens_loadPages pages st hwf pageId

theorem Loads.undisturbed {st st' : Store cfg} (hloads : Loads st st')
    (hwf : st.WellFormed) : Undisturbed st st' := by
  obtain ⟨pages, rfl⟩ := hloads
  exact undisturbed_loadPages pages st hwf

theorem loads_readVectorFromDisk (id : Nat) (st : Store cfg) :
    Loads st (readVectorFromDisk id st).2 := by
  unfold readVectorFromDisk
  split
  · exact ⟨[], rfl⟩
  · exact ⟨[], rfl⟩
  · exact ⟨[], rfl⟩
  · rename_i page slot _ _
    unfold readRecordAt
    split
    · exact ⟨[], rfl⟩
    · split
      · exact ⟨[], rfl⟩
      · simp only
        split <;> exact ⟨[page], rfl⟩

theorem loads_prefetchPages (ids : List Nat) :
    ∀ (seenPage : List Nat) (st : Store cfg), Loads st (prefetchPages ids seenPage st).2 := by
  induction ids with
  | nil => exact fun _ st => ⟨[], rfl⟩
  | cons id ids ih =>
      intro seenPage st
      unfold prefetchPages
      split
      · exact ⟨[], rfl⟩
      · exact ih _ st
      · rename_i page _
        split
        · exact ih _ st
        · obtain ⟨pages, hpages⟩ := ih (page :: seenPage) (loadPageToCache page st)
          exact ⟨page :: pages, hpages⟩

theorem loads_readPageRows (entries : List MissEntry) (pages : List Nat) :
    ∀ (rows : Rows cfg) (st : Store cfg),
      Loads st (pages.foldl (readPageRows entries) (rows, st)).2 := by
  induction pages with
  | nil => exact fun _ st => ⟨[], rfl⟩
  | cons page pages ih =>
      intro rows st
      obtain ⟨loaded, hloaded⟩ := ih (readPageRows entries (rows, st) page).1
        (loadPageToCache page st)
      exact ⟨page :: loaded, hloaded⟩

theorem loads_readVectorsBatch (orders : Orders) (ids : List Nat) (st : Store cfg) :
    Loads st (readVectorsBatch orders ids st).2 := by
  unfold readVectorsBatch
  split
  · exact ⟨[], rfl⟩
  · exact ⟨[], rfl⟩
  · exact loads_readPageRows _ _ _ st

theorem loads_readVectorsBatchFlat (orders : Orders) (ids : List Nat) (st : Store cfg) :
    Loads st (readVectorsBatchFlat orders ids st).2 := by
  unfold readVectorsBatchFlat
  split
  · exact ⟨[], rfl⟩
  · exact ⟨[], rfl⟩
  · exact ⟨_, rfl⟩

theorem loads_prefetchByIds (ids : List Nat) (st : Store cfg) :
    Loads st (prefetchByIds ids st).2 := by
  unfold prefetchByIds
  split
  · exact ⟨[], rfl⟩
  · exact loads_prefetchPages ids [] st

/-! Flushing -/

/-- A flushed buffer is what the cache shows of its page. -/
theorem mirrored_flushSectionWriteBuf {st : Store cfg} (hwf : st.BuffersWellFormed)
    (hcache : st.CacheWellFormed) {sectionIdx : Int} {swb : SectionWriteBuf}
    (hbuf : st.writeBuf sectionIdx = some swb) :
    (flushSectionWriteBuf swb st).Mirrored swb.pageId := by
  intro image himage i _
  rw [cachedImage_flushSectionWriteBuf hcache, if_pos rfl] at himage
  obtain ⟨-, -, rfl⟩ := Option.map_eq_some_iff.mp himage
  rw [overlaidPage_of_buffer (hwf.flushSectionWriteBuf swb) hbuf]

theorem freshens_flushSectionWriteBuf {st : Store cfg} (hwf : st.BuffersWellFormed)
    (hcache : st.CacheWellFormed) {sectionIdx : Int} {swb : SectionWriteBuf}
    (hbuf : st.writeBuf sectionIdx = some swb) (pageId : Nat) :
    Freshens pageId st (flushSectionWriteBuf swb st) :=
  ⟨keeps_flushSectionWriteBuf hwf hcache hbuf pageId, .inl⟩

theorem freshens_eraseWriteBuf {st : Store cfg} (hwf : st.BuffersWellFormed)
    {sectionIdx : Int} {swb : SectionWriteBuf} (hbuf : st.writeBuf sectionIdx = some swb)
    (hflushed : Flushed swb st) (hmirrored : st.Mirrored swb.pageId) (pageId : Nat) :
    Freshens pageId st (eraseWriteBuf sectionIdx st) := by
  have hkeeps := keeps_eraseWriteBuf hwf hbuf hflushed pageId
  by_cases hsame : pageId = swb.pageId
  · subst hsame
    exact ⟨hkeeps, fun _ => .inr (hmirrored.of_keeps hkeeps)⟩
  · refine .of_buffers hkeeps hwf (hwf.eraseWriteBuf hbuf) fun other held hpage hheld => ?_
    rw [writeBuf_eraseWriteBuf, if_neg]
    · exact hheld
    · rintro rfl
      cases hbuf.symm.trans hheld
      exact hsame hpage.symm

theorem freshens_flush_erase {st : Store cfg} (hwf : st.WellFormed) {sectionIdx : Int}
    {swb : SectionWriteBuf} (hbuf : st.writeBuf sectionIdx = some swb) (pageId : Nat) :
    Freshens pageId st (eraseWriteBuf sectionIdx (flushSectionWriteBuf swb st)) :=
  (freshens_flushSectionWriteBuf hwf.buffers hwf.cache hbuf pageId).trans
    (freshens_eraseWriteBuf (hwf.buffers.flushSectionWriteBuf swb) hbuf
      (flushed_flushSectionWriteBuf swb st)
      (mirrored_flushSectionWriteBuf hwf.buffers hwf.cache hbuf) pageId)

theorem freshens_setBufOrder {st : Store cfg} (hwf : st.BuffersWellFormed) (sectionIdx : Int)
    (bufOrder : List Int) (pageId : Nat) :
    Freshens pageId st (setBufOrder sectionIdx bufOrder st) :=
  .of_buffers (keeps_setBufOrder hwf sectionIdx bufOrder pageId) hwf
    (hwf.setBufOrder sectionIdx bufOrder) fun _ _ _ hbuf =>
      (writeBuf_setBufOrder _ _ _ _).trans hbuf

theorem freshens_evictWriteBuf {st : Store cfg} (hwf : st.BuffersWellFormed)
    (hcache : st.CacheWellFormed) {victim : Int} {swb : SectionWriteBuf}
    (hbuf : st.writeBuf victim = some swb) (pageId : Nat) :
    Freshens pageId st (evictWriteBuf victim swb st) := by
  have hflushed := hwf.flushSectionWriteBuf swb
  have hrecycled := hflushed.recycleBuf victim
  have hkept := keeps_recycleBuf hflushed victim
  have hrecycle : Freshens pageId (flushSectionWriteBuf swb st)
      (recycleBuf victim (flushSectionWriteBuf swb st)) :=
    .of_buffers (hkept pageId) hflushed hrecycled fun _ _ _ hheld =>
      (writeBuf_recycleBuf _ _ _).trans hheld
  have hbuf' : (recycleBuf victim (flushSectionWriteBuf swb st)).writeBuf victim =
      some swb := by simpa using hbuf
  exact ((freshens_flushSectionWriteBuf hwf hcache hbuf pageId).trans hrecycle).trans
    (freshens_eraseWriteBuf hrecycled hbuf' (flushed_flushSectionWriteBuf swb st)
      ((mirrored_flushSectionWriteBuf hwf hcache hbuf).of_keeps (hkept _)) pageId)

theorem freshens_evictOldest {sectionIdx : Int} {st next : Store cfg} (hwf : st.WellFormed)
    (hturn : evictOldest sectionIdx st = some next) (pageId : Nat) :
    Freshens pageId st next := by
  obtain ⟨victim, rest, -, hcases⟩ := evictOldest_cases hturn
  rcases hcases with ⟨-, rfl⟩ | ⟨-, -, rfl⟩ | ⟨-, swb, hlive, rfl⟩
  · exact freshens_setBufOrder hwf.buffers _ _ pageId
  · exact freshens_setBufOrder hwf.buffers _ _ pageId
  · have hbuf : (setBufOrder sectionIdx rest st).writeBuf victim = some swb := by
      rw [writeBuf_setBufOrder, writeBuf, sectionShardState,
        (hwf.buffers.lookup hlive).1]
      exact hlive
    exact (freshens_setBufOrder hwf.buffers sectionIdx rest pageId).trans
      (freshens_evictWriteBuf (hwf.buffers.setBufOrder sectionIdx rest)
        (hwf.cache.congr rfl rfl rfl rfl) hbuf pageId)

/-! Writes through a buffer -/

theorem freshens_setWriteBuf {st : Store cfg} (swb' : SectionWriteBuf) (hwf : st.WellFormed)
    {sectionIdx : Int} {swb : SectionWriteBuf} (hbuf : st.writeBuf sectionIdx = some swb)
    (hsection : st.sectionIdxOfPage swb'.pageId = sectionIdx) {pageId : Nat}
    (hne : pageId ≠ swb'.pageId)
    (hflushed : pageId = swb.pageId → Flushed swb st ∧ st.Mirrored pageId) :
    Freshens pageId st (setWriteBuf sectionIdx swb' st) := by
  have hkeeps := keeps_setWriteBuf swb' hwf hbuf hsection hne fun hsame => (hflushed hsame).1
  by_cases hsame : pageId = swb.pageId
  · exact ⟨hkeeps, fun _ => .inr ((hflushed hsame).2.of_keeps hkeeps)⟩
  · refine .of_buffers hkeeps hwf.buffers (hwf.buffers.setWriteBuf hbuf hsection)
      fun other held hpage hheld => ?_
    rw [writeBuf_setWriteBuf, if_neg]
    · exact hheld
    · rintro rfl
      cases hbuf.symm.trans hheld
      exact hsame hpage.symm

theorem freshens_createWriteBuf {st : Store cfg} (hwf : st.WellFormed) {sectionIdx : Int}
    {pageId : Nat} (hnone : st.writeBuf sectionIdx = none) (hnonneg : 0 ≤ sectionIdx)
    (hpage : st.sectionIdxOfPage pageId = sectionIdx) {other : Nat} (hne : other ≠ pageId) :
    Freshens other st (createWriteBuf sectionIdx pageId st) := by
  refine .of_buffers (keeps_createWriteBuf hwf hnone hnonneg hpage hne) hwf.buffers
    (hwf.buffers.createWriteBuf hnone hnonneg hpage) fun section' held _ hheld => ?_
  rw [writeBuf_createWriteBuf, if_neg]
  · exact hheld
  · rintro rfl
    cases hnone.symm.trans hheld

/-- Opening a buffer for a page freshens every other page. -/
theorem freshens_openWriteBuf {st st' : Store cfg} (hwf : st.WellFormed) {sectionIdx : Int}
    {pageId : Nat} (hnonneg : 0 ≤ sectionIdx)
    (hpage : st.sectionIdxOfPage pageId = sectionIdx)
    (hopen : openWriteBuf sectionIdx pageId st = some st') {other : Nat}
    (hne : other ≠ pageId) : Freshens other st st' := by
  unfold openWriteBuf at hopen
  cases hbuf : st.writeBuf sectionIdx with
  | none =>
      have hcreated := hwf.createWriteBuf hbuf hnonneg hpage
      have hcreate := freshens_createWriteBuf hwf hbuf hnonneg hpage hne
      simp only [hbuf] at hopen
      split at hopen
      · have hevicted := evictOverCap_induct (motive := fun later =>
            later.WellFormed ∧ Freshens other st later)
          (fun _ _ hlater hturn => ⟨(evictOldest_keeps hlater.1 hturn).1,
            hlater.2.trans (freshens_evictOldest hlater.1 hturn other)⟩)
          ⟨hcreated, hcreate⟩ hopen
        exact hevicted.2
      · cases hopen
        exact hcreate
  | some swb =>
      simp only [hbuf] at hopen
      split at hopen
      · cases hopen
        exact Freshens.refl other st
      · cases hopen
        have hflush := freshens_flushSectionWriteBuf hwf.buffers hwf.cache hbuf other
        refine hflush.trans (freshens_setWriteBuf ⟨zeros, pageId⟩ (hwf.flushSectionWriteBuf swb)
          hbuf hpage hne ?_)
        rintro rfl
        exact ⟨flushed_flushSectionWriteBuf swb st,
          mirrored_flushSectionWriteBuf hwf.buffers hwf.cache hbuf⟩

/-- The section's buffer holds the page once it is open. -/
theorem openWriteBuf_opens {st st' : Store cfg} (hwf : st.WellFormed) {sectionIdx : Int}
    {pageId : Nat} (hnonneg : 0 ≤ sectionIdx)
    (hpage : st.sectionIdxOfPage pageId = sectionIdx)
    (hopen : openWriteBuf sectionIdx pageId st = some st') :
    st'.WellFormed ∧ ∃ swb, st'.writeBuf sectionIdx = some swb ∧ swb.pageId = pageId := by
  cases hheld : st.holdsPage sectionIdx pageId with
  | true =>
      obtain ⟨swb, hbuf, hsame⟩ := (holdsPage_iff _ _ _).mp hheld
      unfold openWriteBuf at hopen
      simp only [hbuf, hsame, if_true] at hopen
      cases hopen
      exact ⟨hwf, swb, hbuf, hsame⟩
  | false =>
      obtain ⟨opened, hopened, hopenedWF, hbuf, -⟩ := openWriteBuf_spec hwf hnonneg hpage hheld
      cases hopened.symm.trans hopen
      exact ⟨hopenedWF, _, hbuf, rfl⟩

/-- Filling a slot of an open buffer freshens every other page, and leaves the page itself
mirrored once its buffer is flushed. -/
theorem freshens_fillWriteBuf {st : Store cfg} (hwf : st.WellFormed) {sectionIdx : Int}
    {swb : SectionWriteBuf} (hbuf : st.writeBuf sectionIdx = some swb) (slot : Nat)
    (record : Record cfg) :
    (∀ other, other ≠ swb.pageId →
      Freshens other st (fillWriteBuf sectionIdx slot record st)) ∧
    ((fillWriteBuf sectionIdx slot record st).bufferHolding swb.pageId = none →
      (fillWriteBuf sectionIdx slot record st).Mirrored swb.pageId) := by
  have hsection := (hwf.buffers.buf_page sectionIdx swb hbuf).2
  let filled : SectionWriteBuf := { swb with
    data := copyInto swb.data (slot * cfg.recordSize) record.bytes }
  have hset := hwf.setWriteBuf filled hbuf hsection
  have hsetBuf : (setWriteBuf sectionIdx filled st).writeBuf sectionIdx =
      some filled := by
    rw [writeBuf_setWriteBuf, if_pos rfl]
  have hheld : (setWriteBuf sectionIdx filled st).bufferHolding swb.pageId = some filled :=
    (bufferHolding_eq_some_iff hset.buffers).mpr ⟨sectionIdx, hsetBuf, rfl⟩
  have hother : ∀ other, other ≠ swb.pageId →
      Freshens other st (setWriteBuf sectionIdx filled st) := fun other hne =>
    freshens_setWriteBuf filled hwf hbuf hsection hne fun hsame => absurd hsame hne
  unfold fillWriteBuf
  simp only [hbuf]
  split
  · refine ⟨fun other hne => (hother other hne).trans (freshens_flush_erase hset hsetBuf other),
      fun hnone => ?_⟩
    rcases (freshens_flush_erase hset hsetBuf swb.pageId).mirrored hnone with hold | hmirrored
    · cases hheld.symm.trans hold
    · exact hmirrored
  · exact ⟨hother, fun hnone => nomatch hheld.symm.trans hnone⟩

/-! Flushing every buffer -/

theorem mirrored_flushed (entries : List ((_ : Int) × SectionWriteBuf)) :
    ∀ st : Store cfg, st.WellFormed →
      (∀ entry ∈ entries, st.writeBuf entry.1 = some entry.2) → ∀ entry ∈ entries,
        (entries.foldl (fun st entry => flushSectionWriteBuf entry.2 st) st).Mirrored
          entry.2.pageId := by
  induction entries with
  | nil => exact fun _ _ _ _ hmem => absurd hmem List.not_mem_nil
  | cons head entries ih =>
      intro st hwf hlive entry hmem
      have hrest : ∀ other ∈ entries,
          (flushSectionWriteBuf head.2 st).writeBuf other.1 = some other.2 :=
        fun other hother => hlive other (List.mem_cons_of_mem _ hother)
      have hflushed := hwf.flushSectionWriteBuf head.2
      rcases List.mem_cons.mp hmem with rfl | hmem
      · have hmirrored := mirrored_flushSectionWriteBuf hwf.buffers hwf.cache
          (hlive entry List.mem_cons_self)
        exact hmirrored.of_keeps
          ((foldl_flushSectionWriteBuf_spec entries _ hflushed hrest).2.1 _)
      · exact ih _ hflushed hrest entry hmem

theorem freshens_flushShard {st : Store cfg} (hwf : st.WellFormed) {i : Nat}
    (hi : i < kNumSectionShards) (pageId : Nat) : Freshens pageId st (flushShard i st) := by
  obtain ⟨hwf', hkeeps, hbufs⟩ := flushShard_spec hwf hi
  have hlive : ∀ entry ∈ (st.sectionShards i).writeBufs.entries,
      st.writeBuf entry.1 = some entry.2 := by
    intro entry hentry
    have hlookup := AList.mem_lookup_iff.mpr hentry
    have hmem : entry.1 ∈ (st.sectionShards i).writeBufs :=
      AList.lookup_isSome.mp (by rw [hlookup]; rfl)
    rw [writeBuf, sectionShardState, hwf.buffers.buf_shard i entry.1 hmem]
    exact hlookup
  by_cases hheld : ∃ entry ∈ (st.sectionShards i).writeBufs.entries, entry.2.pageId = pageId
  · obtain ⟨entry, hentry, rfl⟩ := hheld
    refine ⟨hkeeps _, fun _ => .inr fun image himage k hk => ?_⟩
    have hmirrored := mirrored_flushed _ st hwf hlive entry hentry
    obtain ⟨-, hfold, -⟩ := foldl_flushSectionWriteBuf_spec _ st hwf hlive
    rw [(hkeeps _).overlaid k hk, ← (hfold entry.2.pageId).overlaid k hk]
    exact hmirrored image himage k hk
  · refine .of_buffers (hkeeps pageId) hwf.buffers hwf'.buffers
      fun sectionIdx swb hpage hbuf => ?_
    have hother : shardIdx sectionIdx ≠ i := by
      rintro rfl
      exact hheld ⟨⟨sectionIdx, swb⟩, AList.mem_lookup_iff.mp hbuf, hpage⟩
    rw [writeBuf, sectionShardState, hbufs, if_neg hother]
    exact hbuf

theorem freshens_flushWrites {st : Store cfg} (hwf : st.WellFormed) (pageId : Nat) :
    Freshens pageId st st.flushWrites := by
  have hfold : ∀ (shards : List Nat), (∀ i ∈ shards, i < kNumSectionShards) →
      ∀ st : Store cfg, st.WellFormed →
        (shards.foldl (fun st i => flushShard i st) st).WellFormed ∧
          Freshens pageId st (shards.foldl (fun st i => flushShard i st) st) := by
    intro shards
    induction shards with
    | nil => exact fun _ st hwf => ⟨hwf, Freshens.refl pageId st⟩
    | cons i shards ih =>
        intro hall st hwf
        have hi := hall i List.mem_cons_self
        obtain ⟨hwf', hfreshens⟩ := ih (fun j hj => hall j (List.mem_cons_of_mem _ hj))
          (flushShard i st) (flushShard_spec hwf hi).1
        exact ⟨hwf', (freshens_flushShard hwf hi pageId).trans hfreshens⟩
  obtain ⟨hflushed, hkeeps, hnone⟩ := flushWrites_spec hwf
  obtain ⟨hfolded, hfreshens⟩ := hfold (List.range kNumSectionShards)
    (fun i hi => List.mem_range.mp hi) st hwf
  unfold flushWrites at hkeeps hnone ⊢
  generalize (List.range kNumSectionShards).foldl (fun st i => flushShard i st) st = folded
    at *
  refine ⟨hkeeps pageId, fun _ => ?_⟩
  have hempty : folded.bufferHolding pageId = none := by
    rw [bufferHolding_eq_none_iff hfolded.buffers]
    intro sectionIdx swb hbuf
    cases hbuf.symm.trans (hnone sectionIdx)
  rcases hfreshens.mirrored hempty with hold | hmirrored
  · exact .inl hold
  · refine .inr fun image himage i hi => ?_
    rw [(hkeeps pageId).overlaid i hi, ← hfreshens.keeps.overlaid i hi]
    exact hmirrored image himage i hi

/-! Record writes -/

/-- The refresh of a cached copy that is the page, or the page before the record came. -/
theorem mirrored_updateCacheAfterWrite {st : Store cfg} (hwf : st.WellFormed)
    {pageId slot : Nat} {record : Record cfg} (hslot : slot < cfg.vectorsPerPage)
    (base : Buffer)
    (hwritten : ∀ i < kPageSize, st.overlaidPage pageId i =
      copyInto base (slot * cfg.recordSize) record.bytes i)
    (hcached : ∀ image, st.cachedImage pageId = some image →
      (∀ i < kPageSize, image i = base i) ∨
        ∀ i < kPageSize, image i = st.overlaidPage pageId i) :
    (updateCacheAfterWrite pageId slot record st).Mirrored pageId := by
  intro image himage i hi
  rw [cachedImage_updateCacheAfterWrite hwf.cache record hslot, if_pos rfl] at himage
  obtain ⟨old, hold, rfl⟩ := Option.map_eq_some_iff.mp himage
  rw [overlaidPage_updateCacheAfterWrite, hwritten i hi]
  unfold copyInto
  split
  · rfl
  · rename_i hout
    rcases hcached old hold with hbase | hpage
    · exact hbase i hi
    · rw [hpage i hi, hwritten i hi, copyInto, if_neg hout]

theorem freshens_updateCacheAfterWrite {st : Store cfg} (hwf : st.WellFormed)
    {pageId slot other : Nat} (record : Record cfg) (hslot : slot < cfg.vectorsPerPage)
    (hne : other ≠ pageId) :
    Freshens other st (updateCacheAfterWrite pageId slot record st) := by
  refine ⟨.of_same (bufferHolding_updateCacheAfterWrite _ _ _ _ _) ?_
    (file_updateCacheAfterWrite _ _ _ _), fun hnone => .inl ?_⟩
  · rw [cachedImage_updateCacheAfterWrite hwf.cache record hslot, if_neg hne]
  · rwa [bufferHolding_updateCacheAfterWrite] at hnone

/-- A write straight to the file and to the cached copy, past whatever buffer there is. -/
theorem Clean.writeRecord {st : Store cfg} (hclean : st.Clean) (hwf : st.WellFormed)
    {pageId slot : Nat} (record : Record cfg) (hslot : slot < cfg.vectorsPerPage) :
    (updateCacheAfterWrite pageId slot record
      (Store.writeRecord pageId slot record st)).Clean := by
  have hwritten := hwf.writeRecord pageId slot record
  intro other hnone
  rw [bufferHolding_updateCacheAfterWrite] at hnone
  change st.bufferHolding other = none at hnone
  by_cases hsame : other = pageId
  · subst hsame
    refine mirrored_updateCacheAfterWrite hwritten hslot (st.overlaidPage other)
      (writeRecord_fills record hnone).overlaid fun image himage => .inl ?_
    exact hclean other hnone image himage
  · exact ((hclean other hnone).of_keeps (writeRecord_keeps record hslot hsame)).of_keeps
      (freshens_updateCacheAfterWrite hwritten record hslot hsame).keeps

theorem Clean.overwritten {st : Store cfg} (hclean : st.Clean) (hwf : st.WellFormed)
    (id : Nat) {pageId slot : Nat} (record : Record cfg) (hslot : slot < cfg.vectorsPerPage) :
    (Store.overwritten id pageId slot record st).Clean :=
  (hclean.writeRecord hwf record hslot).of_freshens fun other =>
    (quiet_markDeletedAt _ id false).freshens
      ((hwf.writeRecord pageId slot record).updateCacheAfterWrite _ _ _) other

/-- A write through the buffer of the section, and then to the cached copy. -/
theorem Clean.writeToSectionBufferLocked {st written : Store cfg} (hclean : st.Clean)
    (hwf : st.WellFormed) {sectionIdx : Int} {pageId slot : Nat} {record : Record cfg}
    (hslot : slot < cfg.vectorsPerPage) (hnonneg : 0 ≤ sectionIdx)
    (hpage : st.sectionIdxOfPage pageId = sectionIdx)
    (hwrite : Store.writeToSectionBufferLocked sectionIdx pageId slot record st =
      some (true, written)) : (updateCacheAfterWrite pageId slot record written).Clean := by
  have hopens : ∃ opened, openWriteBuf sectionIdx pageId st = some opened ∧
      written = fillWriteBuf sectionIdx slot record opened := by
    unfold Store.writeToSectionBufferLocked at hwrite
    split at hwrite
    · cases hwrite
    · obtain ⟨opened, hopen, hfilled⟩ := Option.map_eq_some_iff.mp hwrite
      cases hfilled
      exact ⟨opened, hopen, rfl⟩
  obtain ⟨opened, hopen, rfl⟩ := hopens
  obtain ⟨hopened, swb, hbuf, rfl⟩ := openWriteBuf_opens hwf hnonneg hpage hopen
  obtain ⟨hwritten, hfills, -⟩ := fillWriteBuf_spec hopened hbuf hslot record
  obtain ⟨hothers, hmirrored⟩ := freshens_fillWriteBuf hopened hbuf slot record
  intro other hnone
  by_cases hsame : other = swb.pageId
  · subst hsame
    rw [bufferHolding_updateCacheAfterWrite] at hnone
    exact mirrored_updateCacheAfterWrite hwritten hslot _ hfills.overlaid
      fun image himage => .inr (hmirrored hnone image himage)
  · have hopening := freshens_openWriteBuf hwf hnonneg hpage hopen hsame
    exact hclean.freshened ((hopening.trans (hothers other hsame)).trans
      (freshens_updateCacheAfterWrite hwritten record hslot hsame)) hnone

theorem Clean.writeNewRecord {st st' : Store cfg} (hclean : st.Clean) (hwf : st.WellFormed)
    {sectionIdx : Int} {pageId slot : Nat} {record : Record cfg}
    (hslot : slot < cfg.vectorsPerPage) (hpage : st.sectionIdxOfPage pageId = sectionIdx)
    (hwrite : writeNewRecord sectionIdx pageId slot record st = some st') : st'.Clean := by
  unfold Store.writeNewRecord at hwrite
  split at hwrite
  · cases hwrite
    exact hclean.writeRecord hwf record hslot
  · rename_i hnonneg
    split at hwrite
    · cases hwrite
    · rename_i written hlocked
      cases hwrite
      exact hclean.writeToSectionBufferLocked hwf hslot (Int.not_lt.mp hnonneg) hpage hlocked
    · rename_i same hlocked
      cases hwrite
      have hrefused : same = st := by
        unfold Store.writeToSectionBufferLocked at hlocked
        split at hlocked
        · cases hlocked
          rfl
        · obtain ⟨_, -, hbad⟩ := Option.map_eq_some_iff.mp hlocked
          cases hbad
      subst hrefused
      exact hclean.writeRecord hwf record hslot

/-- A store, of a new id or an old one. -/
theorem Clean.storeEncoded {st : Store cfg} (hclean : st.Clean) (hsound : st.Sound)
    (hsaved : st.Saved) (id : Nat) (record : Record cfg) (sectionKey : Nat) :
    (Store.storeEncoded id record sectionKey st).2.Clean := by
  have hwf := hsound.wellFormed
  cases hlocation : st.location id with
  | some loc =>
      obtain ⟨pageId, slot⟩ := loc
      obtain ⟨page, hpage, hslot⟩ := used_of_location hsaved hlocation
      have hused := hsound.offers.used_le page (List.mem_of_getElem? hpage)
      rw [storeEncoded_of_location hsound.fit hlocation]
      exact hclean.overwritten hwf id record (Nat.lt_of_lt_of_le hslot hused)
  | none =>
      have hid : st.hasLocation id = false := by
        rw [← location_isSome hsound.fit, hlocation]
        rfl
      have hensure := quiet_ensureDenseCapacity st id
      have hgrownSound := (preserves_ensureDenseCapacity hsound id).sound
      have hgrownClean := hclean.of_freshens fun pageId => hensure.freshens hwf pageId
      rcases storeEncoded_cases hsound hid record sectionKey with
        ⟨grown, hgrown, hstored⟩ | ⟨grown, hgrown, ⟨allocated, halloc, hstored⟩ |
          ⟨sectionIdx, pageId, slot, allocated, written, halloc, hwrite, hstored⟩⟩
      · rw [hgrown] at hgrownClean
        rw [hstored]
        exact hgrownClean
      · rw [hgrown] at hgrownClean hgrownSound
        have hquiet := quiet_allocateSlotForSection sectionKey grown
        rw [halloc] at hquiet
        rw [hstored]
        exact hgrownClean.of_freshens fun pageId =>
          hquiet.freshens hgrownSound.wellFormed pageId
      · rw [hgrown] at hgrownClean hgrownSound
        have hquiet := quiet_allocateSlotForSection sectionKey grown
        have hgrants := allocateSlotForSection_grants hgrownSound.offers halloc
        rw [halloc] at hquiet
        have hallocated := hquiet.wellFormed hgrownSound.wellFormed
        have hallocatedClean := hgrownClean.of_freshens fun pageId =>
          hquiet.freshens hgrownSound.wellFormed pageId
        have hsection := sectionIdxOfPage_of_inUse hgrants.inUse
        have hslot := hgrants.reserved.slot_lt
        obtain ⟨_, hwrite', hwritten, -⟩ := writeNewRecord_spec hallocated record hslot hsection
        cases hwrite'.symm.trans hwrite
        have hpublish := (quiet_markDeletedAt written id false).trans
          (quiet_assignLocation (written.markDeletedAt id false) id pageId slot)
        rw [hstored]
        exact (hallocatedClean.writeNewRecord hallocated hslot hsection hwrite).of_freshens
          fun other => hpublish.freshens hwritten other

theorem Clean.setMaxCachedPages {st : Store cfg} (hclean : st.Clean) (hwf : st.WellFormed)
    (hexact : st.cacheTable.Exact) (m : Nat) : (Store.setMaxCachedPages m st).Clean := by
  intro pageId hnone image himage i hi
  have hheld : (Store.setMaxCachedPages m st).bufferHolding pageId =
      st.bufferHolding pageId := by
    unfold Store.setMaxCachedPages evictIfNeeded
    split <;> rfl
  rw [overlaidPage_setMaxCachedPages]
  exact hclean pageId (hheld.symm.trans hnone) image
    ((cache_setMaxCachedPages m hwf.cache hexact).2.2 pageId image himage) i hi

/-! What readers find -/

/-- The slot shows what its page holds there. -/
theorem Clean.shows {st : Store cfg} (hclean : st.Clean) (hsized : st.Sized)
    {pageId slot : Nat} (hslot : slot < cfg.vectorsPerPage)
    (hpage : pageId < st.pages.length) :
    st.Shows pageId slot (recordAt cfg (st.overlaidPage pageId) slot) := by
  refine ⟨fun swb hheld => ?_, fun hnone => ⟨rfl, fun image himage => ?_, fun _ _ => ?_⟩⟩
  · unfold overlaidPage
    rw [hheld]
  · exact recordAt_congr hslot (hclean pageId hnone image himage)
  · have hfits := cfg.slot_fits hslot
    have hle := Nat.mul_le_mul_right kPageSize (Nat.succ_le_of_lt hpage)
    rw [Nat.succ_mul] at hle
    have hsize : st.pages.length * kPageSize ≤ st.file.size := hsized
    change pageId * kPageSize + kPageSize ≤ st.pages.length * kPageSize at hle
    omega

theorem readRecordAt_shows {st : Store cfg} (hwf : st.WellFormed) {pageId slot : Nat}
    {record : Record cfg} (hslot : slot < cfg.vectorsPerPage)
    (hshows : st.Shows pageId slot record) :
    (readRecordAt pageId slot st).1 = .returned record := by
  cases hheld : st.bufferHolding pageId with
  | some swb =>
      unfold readRecordAt tryReadFromWriteBuf
      rw [hheld]
      exact congrArg _ (hshows.buffered swb hheld)
  | none => exact (readRecordAt_spec hwf hslot (hshows.unbuffered hheld)).1

end Store

end AsterVec.PagedVectorStorage

import AsterVec.PagedStores

/-!
The index of the page cache and the size of the file.  Only a page load and a change of
the cache's bound move a page in or out of the cache; a store keeps the index, and its
page table inside the file.
-/

namespace AsterVec.PagedVectorStorage

open AsterVec.ByteBuffer
open AsterVec.IdTypes

variable {cfg : Config}

/-- The index of the cache, without the bytes of the pages. -/
structure CacheTable where
  pageToSlot : Nat → Option Nat
  cachedCount : Nat
  fifoHand : Nat
  pageIds : List (Option Nat)

/-- A slot in use is published for the page it holds, and the hand is at a slot in
use. -/
structure CacheTable.Exact (table : CacheTable) : Prop where
  published : ∀ cs pageId, cs < table.cachedCount → table.pageIds[cs]? = some (some pageId) →
    table.pageToSlot pageId = some cs
  hand : table.fifoHand = 0 ∨ table.fifoHand < table.cachedCount

/-- Two slots in use hold two pages. -/
theorem CacheTable.Exact.slot_unique {table : CacheTable} (hexact : table.Exact)
    {cs cs' pageId : Nat} (hcs : cs < table.cachedCount) (hcs' : cs' < table.cachedCount)
    (hpage : table.pageIds[cs]? = some (some pageId))
    (hpage' : table.pageIds[cs']? = some (some pageId)) : cs = cs' :=
  Option.some.inj ((hexact.published cs pageId hcs hpage).symm.trans
    (hexact.published cs' pageId hcs' hpage'))

namespace Store

def cacheTable (st : Store cfg) : CacheTable where
  pageToSlot := st.pageToSlot
  cachedCount := st.cachedCount
  fifoHand := st.fifoHand
  pageIds := st.cacheSlots.map PageBuf.pageId

/-! Steps that move no page in or out of the cache -/

/-- The step keeps the index of the cache and cuts nothing off the file. -/
structure Steady (st st' : Store cfg) : Prop where
  table : st'.cacheTable = st.cacheTable
  size_le : st.file.size ≤ st'.file.size

theorem Steady.refl (st : Store cfg) : Steady st st := ⟨rfl, Nat.le_refl _⟩

theorem Steady.trans {st st' st'' : Store cfg} (hfirst : Steady st st')
    (hsecond : Steady st' st'') : Steady st st'' :=
  ⟨hsecond.table.trans hfirst.table, Nat.le_trans hfirst.size_le hsecond.size_le⟩

theorem Quiet.steady {st st' : Store cfg} (hquiet : Quiet st st') : Steady st st' := by
  refine ⟨?_, hquiet.size_le⟩
  unfold cacheTable
  rw [hquiet.pageToSlot, hquiet.cachedCount, hquiet.fifoHand, hquiet.cacheSlots]

theorem map_pageId_modify (slots : List PageBuf) (cs : Nat) (change : Buffer → Buffer) :
    (slots.modify cs fun buf => { buf with data := change buf.data }).map PageBuf.pageId =
      slots.map PageBuf.pageId := by
  apply List.ext_getElem?
  intro i
  rw [List.getElem?_map, List.getElem?_map, List.getElem?_modify]
  cases slots[i]? with
  | none => rfl
  | some buf =>
      simp only [Option.map_some]
      split <;> rfl

theorem steady_modifyCached (cs : Nat) (change : Buffer → Buffer) (st : Store cfg) :
    Steady st (modifyCached cs change st) := by
  refine ⟨?_, Nat.le_refl _⟩
  unfold cacheTable modifyCached
  simp only [map_pageId_modify]

theorem steady_updateCacheAfterWrite (pageId slot : Nat) (record : Record cfg)
    (st : Store cfg) : Steady st (updateCacheAfterWrite pageId slot record st) := by
  unfold updateCacheAfterWrite
  split
  · exact Steady.refl st
  · split
    · exact Steady.refl st
    · split
      · exact Steady.refl st
      · exact steady_modifyCached _ _ st

theorem steady_writeRecord (pageId slot : Nat) (record : Record cfg) (st : Store cfg) :
    Steady st (writeRecord pageId slot record st) :=
  ⟨rfl, ByteFile.size_le_pwrite _ _ _ _⟩

theorem steady_flushSectionWriteBuf (swb : SectionWriteBuf) (st : Store cfg) :
    Steady st (flushSectionWriteBuf swb st) := by
  have hwritten : Steady st { st with
      file := st.file.pwrite (swb.pageId * kPageSize) kPageSize swb.data } :=
    ⟨rfl, ByteFile.size_le_pwrite _ _ _ _⟩
  rw [flushSectionWriteBuf_eq]
  split
  · exact hwritten.trans (steady_modifyCached _ _ _)
  · exact hwritten

/-- Bookkeeping of the shards is out of sight of the cache. -/
theorem steady_setShard (sectionIdx : Int) (shard : SectionShard) (st : Store cfg) :
    Steady st (st.setShard sectionIdx shard) := ⟨rfl, Nat.le_refl _⟩

theorem steady_eraseWriteBuf (sectionIdx : Int) (st : Store cfg) :
    Steady st (eraseWriteBuf sectionIdx st) := ⟨rfl, Nat.le_refl _⟩

theorem steady_evictWriteBuf (victim : Int) (swb : SectionWriteBuf) (st : Store cfg) :
    Steady st (evictWriteBuf victim swb st) :=
  ((steady_flushSectionWriteBuf swb st).trans (steady_setShard _ _ _)).trans
    (steady_eraseWriteBuf _ _)

theorem steady_evictOldest {sectionIdx : Int} {st next : Store cfg}
    (hturn : evictOldest sectionIdx st = some next) : Steady st next := by
  obtain ⟨victim, rest, -, hcases⟩ := evictOldest_cases hturn
  rcases hcases with ⟨-, rfl⟩ | ⟨-, -, rfl⟩ | ⟨-, swb, -, rfl⟩
  · exact steady_setShard _ _ st
  · exact steady_setShard _ _ st
  · exact (steady_setShard _ _ st).trans (steady_evictWriteBuf _ _ _)

theorem steady_openWriteBuf {sectionIdx : Int} {pageId : Nat} {st st' : Store cfg}
    (hopen : openWriteBuf sectionIdx pageId st = some st') : Steady st st' := by
  have hcreated : Steady st (createWriteBuf sectionIdx pageId st) := ⟨rfl, Nat.le_refl _⟩
  unfold openWriteBuf at hopen
  split at hopen
  · simp only at hopen
    split at hopen
    · exact evictOverCap_induct (motive := fun later => Steady st later)
        (fun _ _ hlater hturn => hlater.trans (steady_evictOldest hturn)) hcreated hopen
    · cases hopen
      exact hcreated
  · split at hopen <;> cases hopen
    · exact Steady.refl st
    · exact (steady_flushSectionWriteBuf _ st).trans (steady_setShard _ _ _)

theorem steady_fillWriteBuf (sectionIdx : Int) (slot : Nat) (record : Record cfg)
    (st : Store cfg) : Steady st (fillWriteBuf sectionIdx slot record st) := by
  unfold fillWriteBuf
  split
  · exact Steady.refl st
  · have hset : ∀ swb, Steady st (setWriteBuf sectionIdx swb st) :=
      fun _ => steady_setShard _ _ st
    simp only
    split
    · exact ((hset _).trans (steady_flushSectionWriteBuf _ _)).trans
        (steady_eraseWriteBuf _ _)
    · exact hset _

theorem steady_writeToSectionBufferLocked {sectionIdx : Int} {pageId slot : Nat}
    {record : Record cfg} {st st' : Store cfg} {taken : Bool}
    (hwrite : writeToSectionBufferLocked sectionIdx pageId slot record st =
      some (taken, st')) : Steady st st' := by
  unfold writeToSectionBufferLocked at hwrite
  split at hwrite
  · cases hwrite
    exact Steady.refl st
  · obtain ⟨opened, hopened, heq⟩ := Option.map_eq_some_iff.mp hwrite
    cases heq
    exact (steady_openWriteBuf hopened).trans (steady_fillWriteBuf _ _ _ _)

theorem steady_writeNewRecord {sectionIdx : Int} {pageId slot : Nat}
    {record : Record cfg} {st st' : Store cfg}
    (hwrite : writeNewRecord sectionIdx pageId slot record st = some st') :
    Steady st st' := by
  unfold writeNewRecord at hwrite
  split at hwrite
  · cases hwrite
    exact (steady_writeRecord _ _ _ _).trans (steady_updateCacheAfterWrite _ _ _ _)
  · split at hwrite
    · cases hwrite
    · rename_i hlocked
      cases hwrite
      exact (steady_writeToSectionBufferLocked hlocked).trans
        (steady_updateCacheAfterWrite _ _ _ _)
    · rename_i hlocked
      cases hwrite
      exact ((steady_writeToSectionBufferLocked hlocked).trans
        (steady_writeRecord _ _ _ _)).trans (steady_updateCacheAfterWrite _ _ _ _)

theorem steady_storeEncoded (id : Nat) (record : Record cfg) (sectionKey : Nat)
    (st : Store cfg) : Steady st (storeEncoded id record sectionKey st).2 := by
  refine storeEncoded_induct (motive := Steady st) ?_ ?_ ?_ ?_
  · exact (quiet_ensureDenseCapacity st id).steady
  · intro grown pageId slot hgrown
    exact ((hgrown.trans (steady_writeRecord _ _ _ _)).trans
      (steady_updateCacheAfterWrite _ _ _ _)).trans (quiet_markDeletedAt _ _ _).steady
  · intro grown hgrown
    exact hgrown.trans (quiet_allocateSlotForSection sectionKey grown).steady
  · intro allocated written sectionIdx pageId slot hallocated hwrite
    exact ((hallocated.trans (steady_writeNewRecord hwrite)).trans
      (quiet_markDeletedAt _ _ _).steady).trans (quiet_assignLocation _ _ _ _).steady

theorem steady_flushWrites (st : Store cfg) : Steady st st.flushWrites := by
  have hentries : ∀ (entries : List ((_ : Int) × SectionWriteBuf)) (st : Store cfg),
      Steady st (entries.foldl (fun st entry => flushSectionWriteBuf entry.2 st) st) := by
    intro entries
    induction entries with
    | nil => exact Steady.refl
    | cons entry entries ih =>
        exact fun st => (steady_flushSectionWriteBuf entry.2 st).trans (ih _)
  have hshards : ∀ (shards : List Nat) (st : Store cfg),
      Steady st (shards.foldl (fun st i => flushShard i st) st) := by
    intro shards
    induction shards with
    | nil => exact Steady.refl
    | cons i shards ih =>
        intro st
        have hone : Steady st (flushShard i st) :=
          (hentries _ st).trans ⟨rfl, Nat.le_refl _⟩
        exact hone.trans (ih _)
  have hdone := hshards (List.range kNumSectionShards) st
  unfold flushWrites
  generalize (List.range kNumSectionShards).foldl (fun st i => flushShard i st) st =
    flushed at hdone ⊢
  exact hdone.trans ⟨rfl, Nat.le_refl _⟩

/-! Steps that do -/

/-- The page of a slot. -/
theorem pageIds_eq {st : Store cfg} {cs pageId : Nat} :
    st.cacheTable.pageIds[cs]? = some (some pageId) ↔
      ∃ buf, st.cacheSlots[cs]? = some buf ∧ buf.pageId = some pageId := by
  change (st.cacheSlots.map PageBuf.pageId)[cs]? = _ ↔ _
  rw [List.getElem?_map, Option.map_eq_some_iff]

/-- A slot the cache did not take for the new page is published as before. -/
theorem exact_takeCacheSlot {st : Store cfg} (hwf : st.CacheWellFormed)
    (hexact : st.cacheTable.Exact) (hmax : 0 < cfg.maxCachedPages) :
    (∀ cs pageId, cs < st.takeCacheSlot.2.cachedCount → cs ≠ st.takeCacheSlot.1 →
      st.takeCacheSlot.2.cacheTable.pageIds[cs]? = some (some pageId) →
        st.takeCacheSlot.2.pageToSlot pageId = some cs ∧
          st.pageToSlot pageId = some cs) ∧
      (st.takeCacheSlot.2.fifoHand = 0 ∨
        st.takeCacheSlot.2.fifoHand < st.takeCacheSlot.2.cachedCount) := by
  by_cases hroom : st.cachedCount < cfg.maxCachedPages
  · unfold takeCacheSlot
    rw [if_pos hroom]
    refine ⟨?_, hexact.hand.imp_right Nat.lt_succ_of_lt⟩
    intro cs pageId hcs hne hpage
    obtain ⟨buf, hbuf, hpageId⟩ := pageIds_eq.mp hpage
    have hlt : cs < st.cachedCount := Nat.lt_of_le_of_ne (Nat.le_of_lt_succ hcs) hne
    have hlen := hwf.count_le_slots
    rw [List.getElem?_append_left (by omega)] at hbuf
    have hold := hexact.published cs pageId hlt (pageIds_eq.mpr ⟨buf, hbuf, hpageId⟩)
    exact ⟨hold, hold⟩
  · have hcount : st.cachedCount = cfg.maxCachedPages := by
      have := hwf.count_le
      omega
    unfold takeCacheSlot
    rw [if_neg hroom]
    have hhandLt : st.fifoHand < st.cachedCount := by
      rw [hcount]
      exact hwf.hand_lt hmax
    have hnext : (st.fifoHand + 1) % cfg.maxCachedPages < st.cachedCount := by
      rw [hcount]
      exact Nat.mod_lt _ hmax
    refine ⟨?_, .inr hnext⟩
    intro cs pageId hcs hne hpage
    have hold := hexact.published cs pageId hcs hpage
    refine ⟨?_, hold⟩
    change st.dropVictim pageId = some cs
    unfold dropVictim
    cases hvictim : (st.cacheSlots[st.fifoHand]?).bind PageBuf.pageId with
    | none => exact hold
    | some victim =>
        obtain ⟨buf, hbuf, hpageId⟩ := Option.bind_eq_some_iff.mp hvictim
        have hhand := hexact.published st.fifoHand victim hhandLt
          (pageIds_eq.mpr ⟨buf, hbuf, hpageId⟩)
        have hother : pageId ≠ victim := by
          rintro rfl
          exact hne (Option.some.inj (hold.symm.trans hhand))
        simp only [Function.update_of_ne hother]
        exact hold

/-- Taking a slot in turn and publishing a page there keeps the index exact. -/
theorem exact_publishPage {st : Store cfg} (hwf : st.CacheWellFormed)
    (hexact : st.cacheTable.Exact) (hmax : 0 < cfg.maxCachedPages) (pageId : Nat)
    (image : Buffer) : (publishPage pageId image st).cacheTable.Exact := by
  unfold publishPage
  split
  · exact hexact
  · rename_i habsent
    have hnone : st.pageToSlot pageId = none := by simpa using habsent
    obtain ⟨hothers, hhand⟩ := exact_takeCacheSlot hwf hexact hmax
    obtain ⟨-, -, hlen, -, -⟩ := takeCacheSlot_spec hwf hmax
    refine ⟨?_, hhand⟩
    intro cs other hcs hpage
    obtain ⟨buf, hbuf, hpageId⟩ := pageIds_eq.mp hpage
    change Function.update st.takeCacheSlot.2.pageToSlot pageId
      (some st.takeCacheSlot.1) other = some cs
    by_cases hsame : cs = st.takeCacheSlot.1
    · rw [hsame] at hbuf ⊢
      rw [List.getElem?_set_self hlen] at hbuf
      cases hbuf
      cases hpageId
      rw [Function.update_self]
    · rw [List.getElem?_set_ne (Ne.symm hsame)] at hbuf
      obtain ⟨hnew, hold⟩ := hothers cs other hcs hsame
        (pageIds_eq.mpr ⟨buf, hbuf, hpageId⟩)
      have hne : other ≠ pageId := by
        rintro rfl
        rw [hnone] at hold
        cases hold
      rw [Function.update_of_ne hne]
      exact hnew

theorem exact_loadPageToCache {st : Store cfg} (hwf : st.WellFormed)
    (hexact : st.cacheTable.Exact) (pageId : Nat) :
    (loadPageToCache pageId st).cacheTable.Exact := by
  unfold loadPageToCache
  split
  · exact hexact
  · split
    · exact hexact
    · exact exact_publishPage hwf.cache hexact (Nat.pos_of_ne_zero ‹_›) _ _

end Store

end AsterVec.PagedVectorStorage

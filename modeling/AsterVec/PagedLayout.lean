import AsterVec.PagedRecords

/-!
The bookkeeping of the paged store without its record bytes: the location
tables, the page table and the slots still on offer.  Writing records, flushing
and reading leave it alone; only the allocator and the publication of a
location change it.
-/

namespace AsterVec.PagedVectorStorage

open AsterVec.ByteBuffer
open AsterVec.IdTypes

variable {cfg : Config}

/-- The part of a store that decides where records live. -/
structure Layout where
  totalVectors : Nat
  idToPage : List Int
  idToSlotInPage : List Nat
  pages : List PageMeta
  sectionKeyToIdx : Nat → Option Int
  sectionIdxToKey : List Nat
  updateLocations : AList fun _ : Nat => UpdateLoc
  openPages : Int → List Nat
  freeSlots : Int → List (Nat × Nat)

namespace Store

def layout (st : Store cfg) : Layout where
  totalVectors := st.totalVectors
  idToPage := st.idToPage
  idToSlotInPage := st.idToSlotInPage
  pages := st.pages
  sectionKeyToIdx := st.sectionKeyToIdx
  sectionIdxToKey := st.sectionIdxToKey
  updateLocations := st.updateLocations
  openPages := st.openPages
  freeSlots := st.freeSlots

theorem setShard_sectionShards (st : Store cfg) (sectionIdx : Int)
    (shard : SectionShard) (i : Nat) :
    (st.setShard sectionIdx shard).sectionShards i =
      if i = shardIdx sectionIdx then shard else st.sectionShards i := by
  simp only [setShard, Function.update_apply]

/-- A change of one shard that keeps its open pages and free slots keeps the
layout. -/
theorem layout_setShard (st : Store cfg) (sectionIdx : Int)
    (shard : SectionShard)
    (hopen : shard.openPages = (st.sectionShardState sectionIdx).openPages)
    (hfree : shard.freeSlots = (st.sectionShardState sectionIdx).freeSlots) :
    (st.setShard sectionIdx shard).layout = st.layout := by
  have hopenPages : (st.setShard sectionIdx shard).openPages = st.openPages := by
    funext other
    unfold openPages sectionShardState
    rw [setShard_sectionShards]
    split
    · rename_i hsame
      rw [hopen, sectionShardState, hsame]
    · rfl
  have hfreeSlots : (st.setShard sectionIdx shard).freeSlots = st.freeSlots := by
    funext other
    unfold freeSlots sectionShardState
    rw [setShard_sectionShards]
    split
    · rename_i hsame
      rw [hfree, sectionShardState, hsame]
    · rfl
  simp only [layout, hopenPages, hfreeSlots]
  rfl

/-! Steps that keep the layout -/

@[simp] theorem layout_updateCacheAfterWrite (pageId slot : Nat)
    (record : Record cfg) (st : Store cfg) :
    (updateCacheAfterWrite pageId slot record st).layout = st.layout := by
  unfold updateCacheAfterWrite
  split
  · rfl
  · split
    · rfl
    · split <;> rfl

@[simp] theorem layout_writeRecord (pageId slot : Nat) (record : Record cfg)
    (st : Store cfg) : (writeRecord pageId slot record st).layout = st.layout :=
  rfl

@[simp] theorem layout_flushSectionWriteBuf (swb : SectionWriteBuf)
    (st : Store cfg) : (flushSectionWriteBuf swb st).layout = st.layout := rfl

@[simp] theorem layout_publishPage (pageId : Nat) (image : Buffer)
    (st : Store cfg) : (publishPage pageId image st).layout = st.layout := by
  have htaken : st.takeCacheSlot.2.layout = st.layout := by
    unfold takeCacheSlot
    split <;> rfl
  unfold publishPage
  split
  · rfl
  · exact htaken

@[simp] theorem layout_loadPageToCache (pageId : Nat) (st : Store cfg) :
    (loadPageToCache pageId st).layout = st.layout := by
  unfold loadPageToCache
  split
  · rfl
  · split
    · rfl
    · exact layout_publishPage _ _ _

@[simp] theorem layout_readRecordAt (pageId slot : Nat) (st : Store cfg) :
    (readRecordAt pageId slot st).2.layout = st.layout := by
  unfold readRecordAt
  split
  · rfl
  · split
    · rfl
    · simp only
      split <;> exact layout_loadPageToCache _ _

@[simp] theorem layout_readVectorFromDisk (id : Nat) (st : Store cfg) :
    (readVectorFromDisk id st).2.layout = st.layout := by
  unfold readVectorFromDisk
  split
  · rfl
  · rfl
  · rfl
  · exact layout_readRecordAt _ _ _

@[simp] theorem layout_setBufOrder (sectionIdx : Int) (bufOrder : List Int)
    (st : Store cfg) : (setBufOrder sectionIdx bufOrder st).layout = st.layout :=
  layout_setShard st sectionIdx _ rfl rfl

@[simp] theorem layout_recycleBuf (sectionIdx : Int) (st : Store cfg) :
    (recycleBuf sectionIdx st).layout = st.layout :=
  layout_setShard st sectionIdx _ rfl rfl

@[simp] theorem layout_eraseWriteBuf (sectionIdx : Int) (st : Store cfg) :
    (eraseWriteBuf sectionIdx st).layout = st.layout :=
  layout_setShard st sectionIdx _ rfl rfl

@[simp] theorem layout_setWriteBuf (sectionIdx : Int) (swb : SectionWriteBuf)
    (st : Store cfg) : (setWriteBuf sectionIdx swb st).layout = st.layout :=
  layout_setShard st sectionIdx _ rfl rfl

@[simp] theorem layout_createWriteBuf (sectionIdx : Int) (pageId : Nat)
    (st : Store cfg) : (createWriteBuf sectionIdx pageId st).layout = st.layout :=
  layout_setShard st sectionIdx _ rfl rfl

@[simp] theorem layout_evictWriteBuf (victim : Int) (swb : SectionWriteBuf)
    (st : Store cfg) : (evictWriteBuf victim swb st).layout = st.layout := by
  simp [evictWriteBuf]

theorem layout_evictOldest {sectionIdx : Int} {st st' : Store cfg}
    (hstep : evictOldest sectionIdx st = some st') : st'.layout = st.layout := by
  unfold evictOldest at hstep
  simp only at hstep
  split at hstep
  · cases hstep
  · split at hstep
    · cases hstep
    · split at hstep
      · cases hstep
        simp
      · split at hstep <;> cases hstep <;> simp

/-- A run of the eviction loop, from its last turn to its first. -/
theorem evictOverCap_rec {sectionIdx : Int} {st' : Store cfg}
    {motive : Nat → Store cfg → Prop}
    (hdone : ∀ fuel, evictOldest sectionIdx st' = none → motive fuel st')
    (hturn : ∀ fuel st next, evictOldest sectionIdx st = some next → motive fuel next →
      motive (fuel + 1) st) {fuel : Nat} {st : Store cfg}
    (hevict : evictOverCap sectionIdx fuel st = some st') : motive fuel st := by
  induction fuel generalizing st with
  | zero =>
      unfold evictOverCap at hevict
      cases hstep : evictOldest sectionIdx st with
      | none =>
          rw [hstep] at hevict
          cases hevict
          exact hdone 0 hstep
      | some next =>
          rw [hstep] at hevict
          cases hevict
  | succ fuel ih =>
      unfold evictOverCap at hevict
      cases hstep : evictOldest sectionIdx st with
      | none =>
          rw [hstep] at hevict
          cases hevict
          exact hdone (fuel + 1) hstep
      | some next =>
          rw [hstep] at hevict
          exact hturn fuel st next hstep (ih hevict)

/-- What every turn of the eviction loop keeps, the loop keeps. -/
theorem evictOverCap_induct {motive : Store cfg → Prop} {sectionIdx : Int}
    (hturn : ∀ st st', motive st → evictOldest sectionIdx st = some st' →
      motive st') {fuel : Nat} {st st' : Store cfg} (hst : motive st)
    (hevict : evictOverCap sectionIdx fuel st = some st') : motive st' :=
  evictOverCap_rec (motive := fun _ st => motive st → motive st') (fun _ _ hst => hst)
    (fun _ _ _ hstep hkept hst => hkept (hturn _ _ hst hstep)) hevict hst

theorem layout_evictOverCap {sectionIdx : Int} {fuel : Nat}
    {st st' : Store cfg} (hevict : evictOverCap sectionIdx fuel st = some st') :
    st'.layout = st.layout :=
  evictOverCap_induct (motive := fun later => later.layout = st.layout)
    (fun _ _ hlater hstep => (layout_evictOldest hstep).trans hlater) rfl hevict

theorem layout_openWriteBuf {sectionIdx : Int} {pageId : Nat}
    {st st' : Store cfg} (hopen : openWriteBuf sectionIdx pageId st = some st') :
    st'.layout = st.layout := by
  unfold openWriteBuf at hopen
  split at hopen
  · simp only at hopen
    split at hopen
    · simpa using layout_evictOverCap hopen
    · cases hopen
      simp
  · split at hopen <;> cases hopen
    · rfl
    · simp

@[simp] theorem layout_fillWriteBuf (sectionIdx : Int) (slot : Nat)
    (record : Record cfg) (st : Store cfg) :
    (fillWriteBuf sectionIdx slot record st).layout = st.layout := by
  unfold fillWriteBuf
  split
  · rfl
  · simp only
    split <;> simp

theorem layout_writeToSectionBufferLocked {sectionIdx : Int} {pageId slot : Nat}
    {record : Record cfg} {st st' : Store cfg} {taken : Bool}
    (hwrite : writeToSectionBufferLocked sectionIdx pageId slot record st =
      some (taken, st')) : st'.layout = st.layout := by
  unfold writeToSectionBufferLocked at hwrite
  split at hwrite
  · cases hwrite; rfl
  · obtain ⟨opened, hopened, heq⟩ := Option.map_eq_some_iff.mp hwrite
    cases heq
    simpa using layout_openWriteBuf hopened

theorem layout_writeNewRecord {sectionIdx : Int} {pageId slot : Nat}
    {record : Record cfg} {st st' : Store cfg}
    (hwrite : writeNewRecord sectionIdx pageId slot record st = some st') :
    st'.layout = st.layout := by
  unfold writeNewRecord at hwrite
  split at hwrite
  · cases hwrite
    simp
  · split at hwrite
    · cases hwrite
    · rename_i hlocked
      cases hwrite
      simpa using layout_writeToSectionBufferLocked hlocked
    · rename_i hlocked
      cases hwrite
      simpa using layout_writeToSectionBufferLocked hlocked

@[simp] theorem layout_markDeletedAt (st : Store cfg) (id : Nat)
    (deleted : Bool) : (st.markDeletedAt id deleted).layout = st.layout := by
  unfold markDeletedAt
  split <;> rfl

@[simp] theorem layout_flushShard (i : Nat) (st : Store cfg) :
    (flushShard i st).layout = st.layout := by
  have hfold : ∀ (entries : List ((_ : Int) × SectionWriteBuf)) (st : Store cfg),
      ∃ file cacheSlots, entries.foldl
        (fun st entry => flushSectionWriteBuf entry.2 st) st =
          { st with file := file, cacheSlots := cacheSlots } := by
    intro entries
    induction entries with
    | nil => exact fun st => ⟨st.file, st.cacheSlots, rfl⟩
    | cons entry entries ih =>
        intro st
        obtain ⟨file, cacheSlots, heq⟩ := ih (flushSectionWriteBuf entry.2 st)
        exact ⟨file, cacheSlots, heq⟩
  obtain ⟨file, cacheSlots, heq⟩ := hfold (st.sectionShards i).writeBufs.entries st
  unfold flushShard
  simp only [heq]
  have hopen : ∀ other : Int, (Function.update st.sectionShards i
      { st.sectionShards i with writeBufs := ∅, bufOrder := [], bufPool := 0 }
        (shardIdx other)).openPages other = st.openPages other := by
    intro other
    rw [Function.update_apply]
    split
    · rename_i hsame
      rw [openPages, sectionShardState, hsame]
    · rfl
  have hfree : ∀ other : Int, (Function.update st.sectionShards i
      { st.sectionShards i with writeBufs := ∅, bufOrder := [], bufPool := 0 }
        (shardIdx other)).freeSlots other = st.freeSlots other := by
    intro other
    rw [Function.update_apply]
    split
    · rename_i hsame
      rw [freeSlots, sectionShardState, hsame]
    · rfl
  exact congrArg₂ (fun openPages freeSlots => ({ st.layout with
    openPages := openPages, freeSlots := freeSlots } : Layout))
    (funext hopen) (funext hfree)

theorem layout_setCount (st : Store cfg) (count : Nat) :
    ({ st with sectionWriteBufsCount := count } : Store cfg).layout = st.layout :=
  rfl

@[simp] theorem layout_flushWrites (st : Store cfg) :
    st.flushWrites.layout = st.layout := by
  have hfold : ∀ (shards : List Nat) (st : Store cfg),
      (shards.foldl (fun st i => flushShard i st) st).layout = st.layout := by
    intro shards
    induction shards with
    | nil => exact fun _ => rfl
    | cons i shards ih => exact fun st => (ih _).trans (layout_flushShard i st)
  unfold flushWrites
  rw [layout_setCount]
  exact hfold (List.range kNumSectionShards) st

/-! What depends on the location tables alone -/

/-- The locations of all ids are as they were. -/
structure SameTables (st st' : Store cfg) : Prop where
  total : st'.totalVectors = st.totalVectors
  pages : st'.idToPage = st.idToPage
  slots : st'.idToSlotInPage = st.idToSlotInPage
  updates : st'.updateLocations = st.updateLocations

theorem SameTables.trans {st st' st'' : Store cfg} (hfirst : SameTables st st')
    (hsecond : SameTables st' st'') : SameTables st st'' :=
  ⟨hsecond.total.trans hfirst.total, hsecond.pages.trans hfirst.pages,
    hsecond.slots.trans hfirst.slots, hsecond.updates.trans hfirst.updates⟩

theorem SameTables.of_layout {st st' : Store cfg}
    (htotal : st'.layout.totalVectors = st.layout.totalVectors)
    (hpages : st'.layout.idToPage = st.layout.idToPage)
    (hslots : st'.layout.idToSlotInPage = st.layout.idToSlotInPage)
    (hupdates : st'.layout.updateLocations = st.layout.updateLocations) :
    SameTables st st' := ⟨htotal, hpages, hslots, hupdates⟩

theorem SameTables.pageOf {st st' : Store cfg} (hsame : SameTables st st')
    (id : Nat) : st'.pageOf id = st.pageOf id := by
  simp only [Store.pageOf, hsame.total, hsame.pages, hsame.updates]

theorem SameTables.slotOf {st st' : Store cfg} (hsame : SameTables st st')
    (id : Nat) : st'.slotOf id = st.slotOf id := by
  simp only [Store.slotOf, hsame.total, hsame.slots, hsame.updates]

theorem sameTables_of_layout_eq {st st' : Store cfg}
    (hlayout : st'.layout = st.layout) : SameTables st st' :=
  SameTables.of_layout (by rw [hlayout]) (by rw [hlayout]) (by rw [hlayout])
    (by rw [hlayout])

end Store

end AsterVec.PagedVectorStorage

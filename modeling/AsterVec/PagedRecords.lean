import AsterVec.PagedVectorStorage

/-!
How a record travels through the paged store: the section write buffers and
their cap eviction, the page cache, the slot allocator, and the store and read
calls composed from them.  Each definition that runs under one lock is one
atomic step of a concurrent execution.
-/

namespace AsterVec.PagedVectorStorage

open AsterVec.ByteBuffer
open AsterVec.IdTypes

variable {cfg : Config}

namespace Store

/-! Page cache -/

/-- Change the bytes of one cache slot. -/
def modifyCached (cs : Nat) (change : Buffer → Buffer) (st : Store cfg) :
    Store cfg :=
  { st with cacheSlots := st.cacheSlots.modify cs fun buf =>
      { buf with data := change buf.data } }

/-- If the page is cached, update the cached copy after a write. -/
def updateCacheAfterWrite (pageId slot : Nat) (record : Record cfg)
    (st : Store cfg) : Store cfg :=
  if cfg.maxCachedPages = 0 then st
  else
    match st.pageToSlot pageId with
    | none => st
    | some cs =>
        if kPageSize < slot * cfg.recordSize + cfg.recordSize then st
        else modifyCached cs
          (fun image => copyInto image (slot * cfg.recordSize) record.bytes) st

/-- The section of a page, negative for a page outside the table. -/
def sectionIdxOfPage (st : Store cfg) (pageId : Nat) : Int :=
  (st.pages[pageId]?).elim (-1) PageMeta.sectionIdx

/-- The live write buffer that holds `pageId`, found through the page's
section. -/
def bufferHolding (st : Store cfg) (pageId : Nat) : Option SectionWriteBuf :=
  if st.sectionWriteBufsCount = 0 then none
  else
    let sectionIdx := st.sectionIdxOfPage pageId
    if sectionIdx < 0 then none
    else (st.writeBuf sectionIdx).filter fun swb => swb.pageId = pageId

/-- A page image read from the file, with unflushed buffer content on top. -/
def overlaidPage (st : Store cfg) (pageId : Nat) : Buffer :=
  match st.bufferHolding pageId with
  | some swb => swb.data
  | none => fun i => st.file.bytes (pageId * kPageSize + i)

/-- Unpublish the page in the slot the hand points at. -/
def dropVictim (st : Store cfg) : Nat → Option Nat :=
  match (st.cacheSlots[st.fifoHand]?).bind PageBuf.pageId with
  | some victimPage => Function.update st.pageToSlot victimPage none
  | none => st.pageToSlot

/-- The slot a freshly loaded page is published into, and the store with that
slot taken from the page that held it. -/
def takeCacheSlot (st : Store cfg) : Nat × Store cfg :=
  if st.cachedCount < cfg.maxCachedPages then
    (st.cachedCount, { st with
      cachedCount := st.cachedCount + 1
      cacheSlots := st.cacheSlots ++
        List.replicate (st.cachedCount + 1 - st.cacheSlots.length) ⟨zeros, none⟩ })
  else
    (st.fifoHand, { st with
      fifoHand := (st.fifoHand + 1) % cfg.maxCachedPages
      pageToSlot := st.dropVictim })

/-- Publish a loaded page image, unless another thread published it first. -/
def publishPage (pageId : Nat) (image : Buffer) (st : Store cfg) : Store cfg :=
  if (st.pageToSlot pageId).isSome then st
  else
    let taken := st.takeCacheSlot
    { taken.2 with
      cacheSlots := taken.2.cacheSlots.set taken.1 ⟨image, some pageId⟩
      pageToSlot := Function.update taken.2.pageToSlot pageId (some taken.1) }

def loadPageToCache (pageId : Nat) (st : Store cfg) : Store cfg :=
  if cfg.maxCachedPages = 0 then st
  else if (st.pageToSlot pageId).isSome then st
  else publishPage pageId (st.overlaidPage pageId) st

def tryReadFromWriteBuf (st : Store cfg) (pageId slot : Nat) :
    Option (Record cfg) :=
  (st.bufferHolding pageId).map fun swb => recordAt cfg swb.data slot

def tryReadFromCache (st : Store cfg) (pageId slot : Nat) :
    Option (Record cfg) :=
  if cfg.maxCachedPages = 0 then none
  else
    match st.pageToSlot pageId with
    | none => none
    | some cs =>
        if kPageSize < slot * cfg.recordSize + cfg.recordSize then none
        else (st.cacheSlots[cs]?).map fun buf => recordAt cfg buf.data slot

/-- Uncached read of one record; a short read throws. -/
def preadRecord (st : Store cfg) (pageId slot : Nat) : Outcome (Record cfg) :=
  let offset := pageId * kPageSize + slot * cfg.recordSize
  if offset + cfg.recordSize ≤ st.file.size then
    .returned ⟨slice st.file.bytes offset cfg.recordSize, slice_length _ _ _⟩
  else .threw

/-- Read the record at a slot: write buffer, page cache, file. -/
def readRecordAt (pageId slot : Nat) (st : Store cfg) :
    Outcome (Record cfg) × Store cfg :=
  match st.tryReadFromWriteBuf pageId slot with
  | some record => (.returned record, st)
  | none =>
      match st.tryReadFromCache pageId slot with
      | some record => (.returned record, st)
      | none =>
          let st := loadPageToCache pageId st
          match st.tryReadFromCache pageId slot with
          | some record => (.returned record, st)
          | none => (st.preadRecord pageId slot, st)

/-- Read the stored record of an id.  The vector a caller sees is the decoding
of these bytes. -/
def readVectorFromDisk (id : Nat) (st : Store cfg) :
    Outcome (Record cfg) × Store cfg :=
  match st.pageOf id, st.slotOf id with
  | none, _ => (.undefined, st)
  | some (.negSucc _), _ => (.threw, st)
  | some (.ofNat _), none => (.undefined, st)
  | some (.ofNat page), some slot => readRecordAt page slot st

/-! Section write buffers -/

/-- Write a buffer to its page of the file and to the cached copy. -/
def flushSectionWriteBuf (swb : SectionWriteBuf) (st : Store cfg) : Store cfg :=
  { st with
    file := st.file.pwrite (swb.pageId * kPageSize) kPageSize swb.data
    cacheSlots :=
      match st.pageToSlot swb.pageId with
      | some cs => st.cacheSlots.modify cs fun buf => { buf with data := swb.data }
      | none => st.cacheSlots }

/-- Drop the buffer of a section without flushing it. -/
def eraseWriteBuf (sectionIdx : Int) (st : Store cfg) : Store cfg :=
  let shard := st.sectionShardState sectionIdx
  { st.setShard sectionIdx { shard with
      writeBufs := shard.writeBufs.erase sectionIdx } with
    sectionWriteBufsCount := st.sectionWriteBufsCount - 1 }

def setWriteBuf (sectionIdx : Int) (swb : SectionWriteBuf) (st : Store cfg) :
    Store cfg :=
  let shard := st.sectionShardState sectionIdx
  st.setShard sectionIdx { shard with
    writeBufs := shard.writeBufs.insert sectionIdx swb }

def setBufOrder (sectionIdx : Int) (bufOrder : List Int) (st : Store cfg) :
    Store cfg :=
  st.setShard sectionIdx { st.sectionShardState sectionIdx with
    bufOrder := bufOrder }

/-- Keep the allocation of an evicted buffer while the pool has room. -/
def recycleBuf (sectionIdx : Int) (st : Store cfg) : Store cfg :=
  let shard := st.sectionShardState sectionIdx
  st.setShard sectionIdx { shard with
    bufPool := if shard.bufPool < cfg.perShardCap then shard.bufPool + 1
      else shard.bufPool }

/-- Flush and drop one buffer of the shard. -/
def evictWriteBuf (victim : Int) (swb : SectionWriteBuf) (st : Store cfg) :
    Store cfg :=
  eraseWriteBuf victim (recycleBuf victim (flushSectionWriteBuf swb st))

/-- One turn of the eviction loop: pop the oldest entry of the queue, re-queue
it when it is the section being written, skip it when its buffer is gone, else
flush and drop the buffer.  `none` when the loop is over. -/
def evictOldest (sectionIdx : Int) (st : Store cfg) : Option (Store cfg) :=
  let shard := st.sectionShardState sectionIdx
  if shard.writeBufs.entries.length ≤ cfg.perShardCap then none
  else
    match shard.bufOrder with
    | [] => none
    | victim :: rest =>
        if victim = sectionIdx then
          some (setBufOrder sectionIdx (rest ++ [victim]) st)
        else
          match shard.writeBufs.lookup victim with
          | none => some (setBufOrder sectionIdx rest st)
          | some swb =>
              some (evictWriteBuf victim swb (setBufOrder sectionIdx rest st))

/-- The eviction loop; `none` when `fuel` turns do not end it. -/
def evictOverCap (sectionIdx : Int) : Nat → Store cfg → Option (Store cfg)
  | fuel, st =>
      match evictOldest sectionIdx st, fuel with
      | none, _ => some st
      | some _, 0 => none
      | some st, fuel + 1 => evictOverCap sectionIdx fuel st

/-- Create a zero-filled buffer for a page, from the pool when it has one. -/
def createWriteBuf (sectionIdx : Int) (pageId : Nat) (st : Store cfg) : Store cfg :=
  let shard := st.sectionShardState sectionIdx
  { st.setShard sectionIdx { shard with
      writeBufs := shard.writeBufs.insert sectionIdx ⟨zeros, pageId⟩
      bufPool := shard.bufPool - 1
      bufOrder := if 0 < cfg.writeBufCap then shard.bufOrder ++ [sectionIdx]
        else shard.bufOrder } with
    sectionWriteBufsCount := st.sectionWriteBufsCount + 1 }

/-- Make the section's buffer hold `pageId`: create it (evicting over the cap),
or flush the page it holds and start the new one from zeros. -/
def openWriteBuf (sectionIdx : Int) (pageId : Nat) (st : Store cfg) :
    Option (Store cfg) :=
  match st.writeBuf sectionIdx with
  | none =>
      let created := createWriteBuf sectionIdx pageId st
      if 0 < cfg.writeBufCap then
        -- One pass over the queue pops every other section; a second one
        -- would only re-queue this section for ever.
        evictOverCap sectionIdx
          (created.sectionShardState sectionIdx).bufOrder.length created
      else some created
  | some swb =>
      if swb.pageId = pageId then some st
      else some (setWriteBuf sectionIdx ⟨zeros, pageId⟩
        (flushSectionWriteBuf swb st))

/-- Put a record into the section's buffer; a full page is flushed and its
buffer freed. -/
def fillWriteBuf (sectionIdx : Int) (slot : Nat) (record : Record cfg)
    (st : Store cfg) : Store cfg :=
  match st.writeBuf sectionIdx with
  | none => st
  | some swb =>
      let swb := { swb with
        data := copyInto swb.data (slot * cfg.recordSize) record.bytes }
      let st := setWriteBuf sectionIdx swb st
      if cfg.vectorsPerPage ≤ slot + 1 then
        eraseWriteBuf sectionIdx (flushSectionWriteBuf swb st)
      else st

/-- The page a section's live buffer holds is `pageId`. -/
def holdsPage (st : Store cfg) (sectionIdx : Int) (pageId : Nat) : Bool :=
  (st.writeBuf sectionIdx).any fun swb => swb.pageId = pageId

/-- The part of `writeToSectionBuffer` that runs under the shard's mutex.  It
refuses a write that would start a buffer in the middle of a page. -/
def writeToSectionBufferLocked (sectionIdx : Int) (pageId slot : Nat)
    (record : Record cfg) (st : Store cfg) : Option (Bool × Store cfg) :=
  if !st.holdsPage sectionIdx pageId && slot != 0 then some (false, st)
  else (openWriteBuf sectionIdx pageId st).map fun st =>
    (true, fillWriteBuf sectionIdx slot record st)

/-- Positional write of one record. -/
def writeRecord (pageId slot : Nat) (record : Record cfg) (st : Store cfg) :
    Store cfg :=
  { st with
    file := st.file.pwriteBytes
      (pageId * kPageSize + slot * cfg.recordSize) record.bytes }

/-- Write and drop every section buffer of one shard. -/
def flushShard (shardIdx : Nat) (st : Store cfg) : Store cfg :=
  let shard := st.sectionShards shardIdx
  let flushed := shard.writeBufs.entries.foldl
    (fun st entry => flushSectionWriteBuf entry.2 st) st
  { flushed with
    sectionShards := Function.update flushed.sectionShards shardIdx
      { shard with writeBufs := ∅, bufOrder := [], bufPool := 0 } }

def flushWrites (st : Store cfg) : Store cfg :=
  { (List.range kNumSectionShards).foldl (fun st i => flushShard i st) st with
    sectionWriteBufsCount := 0 }

/-- Write the buffers and sync the files; no call fails here. -/
def syncData (st : Store cfg) : Store cfg := st.flushWrites

/-! Slot allocation -/

/-- Index of a section key, allocated on its first use; `none` when the vector
of keys cannot grow. -/
def lookupSection (sectionKey : Nat) (st : Store cfg) :
    Option (Int × Store cfg) :=
  match st.sectionKeyToIdx sectionKey with
  | some sectionIdx => some (sectionIdx, st)
  | none =>
      if maxTableElements ≤ st.sectionIdxToKey.length then none
      else some (toInt32 st.sectionIdxToKey.length, { st with
        sectionKeyToIdx := Function.update st.sectionKeyToIdx sectionKey
          (some (toInt32 st.sectionIdxToKey.length))
        sectionIdxToKey := st.sectionIdxToKey ++ [sectionKey] })

def setOpenPages (sectionIdx : Int) (pages : List Nat) (st : Store cfg) :
    Store cfg :=
  let shard := st.sectionShardState sectionIdx
  st.setShard sectionIdx { shard with
    openPages := Function.update shard.openPages sectionIdx pages }

def setFreeSlots (sectionIdx : Int) (slots : List (Nat × Nat)) (st : Store cfg) :
    Store cfg :=
  let shard := st.sectionShardState sectionIdx
  st.setShard sectionIdx { shard with
    freeSlots := Function.update shard.freeSlots sectionIdx slots }

/-- Take the next slot of a page. -/
def useSlot (pageId : Nat) (st : Store cfg) : Store cfg :=
  { st with pages := st.pages.modify pageId fun page =>
      { page with usedSlots := page.usedSlots + 1 } }

/-- Phase A: a free slot, or the next slot of an open page, of the section. -/
def takeSectionSlot (sectionIdx : Int) (st : Store cfg) :
    Option (Nat × Nat) × Store cfg :=
  match st.freeSlots sectionIdx with
  | (pageId, slot) :: rest =>
      (some (pageId, slot), setFreeSlots sectionIdx rest st)
  | [] =>
      match st.openPages sectionIdx with
      | [] => (none, st)
      | pageId :: rest =>
          let used := (st.pages[pageId]?).elim 0 PageMeta.usedSlots
          if used < cfg.vectorsPerPage then
            (some (pageId, used), useSlot pageId (setOpenPages sectionIdx
              (if used + 1 < cfg.vectorsPerPage then pageId :: rest else rest) st))
          else (none, setOpenPages sectionIdx rest st)

/-- Phase B: append a page for the section and extend the file over it; `none`
when the page table cannot grow. -/
def appendPage (sectionIdx : Int) (st : Store cfg) :
    Option (Nat × Store cfg) :=
  let requiredSize := (st.pages.length + 1) * kPageSize
  if maxTableElements ≤ st.pages.length then none
  else some (st.pages.length, { st with
    pages := st.pages ++ [⟨sectionIdx, 1⟩]
    file := if st.file.size < requiredSize then
        st.file.pwrite (requiredSize - 1) 1 zeros
      else st.file })

/-- Offer the remaining slots of a fresh page to later calls. -/
def publishOpenPage (sectionIdx : Int) (pageId : Nat) (st : Store cfg) : Store cfg :=
  if 1 < cfg.vectorsPerPage then
    setOpenPages sectionIdx (pageId :: st.openPages sectionIdx) st
  else st

/-- Section, page and slot for a new record of `sectionKey`. -/
def allocateSlotForSection (sectionKey : Nat) (st : Store cfg) :
    Option (Int × Nat × Nat) × Store cfg :=
  match lookupSection sectionKey st with
  | none => (none, st)
  | some (sectionIdx, st) =>
      match takeSectionSlot sectionIdx st with
      | (some (pageId, slot), st) => (some (sectionIdx, pageId, slot), st)
      | (none, st) =>
          match appendPage sectionIdx st with
          | none => (none, st)
          | some (pageId, st) =>
              (some (sectionIdx, pageId, 0), publishOpenPage sectionIdx pageId st)

/-- The write of a record to a freshly allocated slot: through the section
buffer when it takes the record, else straight to the file.  A section index
that overflowed has no buffer. -/
def writeNewRecord (sectionIdx : Int) (pageId slot : Nat) (record : Record cfg)
    (st : Store cfg) : Option (Store cfg) :=
  if sectionIdx < 0 then
    some (updateCacheAfterWrite pageId slot record
      (writeRecord pageId slot record st))
  else
    match writeToSectionBufferLocked sectionIdx pageId slot record st with
    | none => none
    | some (true, st) => some (updateCacheAfterWrite pageId slot record st)
    | some (false, st) =>
        some (updateCacheAfterWrite pageId slot record
          (writeRecord pageId slot record st))

def storeEncoded (id : Nat) (record : Record cfg) (sectionKey : Nat)
    (st : Store cfg) : Outcome Unit × Store cfg :=
  match st.ensureDenseCapacity id with
  | (.returned (), st) =>
      match st.pageOf id, st.slotOf id with
      | none, _ => (.undefined, st)
      | some (.ofNat _), none => (.undefined, st)
      | some (.ofNat curPage), some curSlot =>
          -- Overwrite the existing slot.
          (.returned (), (updateCacheAfterWrite curPage curSlot record
            (writeRecord curPage curSlot record st)).markDeletedAt id false)
      | some (.negSucc _), _ =>
          match allocateSlotForSection sectionKey st with
          | (none, st) => (.threw, st)
          | (some (sectionIdx, pageId, slot), st) =>
              match writeNewRecord sectionIdx pageId slot record st with
              | none => (.undefined, st)
              | some st =>
                  (st.markDeletedAt id false).assignLocation id pageId slot
  | (outcome, st) => (outcome, st)

end Store

end AsterVec.PagedVectorStorage

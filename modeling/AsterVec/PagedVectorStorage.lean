import Mathlib.Algebra.Ring.Int.Defs
import Mathlib.Data.List.AList
import Mathlib.Logic.Function.Basic
import AsterVec.ByteBuffer
import AsterVec.IdTypes

/-!
The paged vector store.  Records of one fixed size are packed into 4 KB pages;
a page belongs to one section, and the pages a section is filling are coalesced
in a write buffer before they reach the file.
-/

namespace AsterVec.PagedVectorStorage

open AsterVec.ByteBuffer
open AsterVec.IdTypes

def kPageSize : Nat := 4096

def kNumSectionShards : Nat := 64

/-- What a call hands back: a value, an exception, or nothing at all, when it
reads outside a vector or never leaves a loop. -/
inductive Outcome (α : Type) where
  | returned (value : α)
  | threw
  | undefined
  deriving DecidableEq

/-- Parameters a store is constructed with.  The two bounds are the ones the
constructor checks before it opens a file. -/
structure Config where
  dim : Nat
  maxCachedPages : Nat
  writeBufCap : Nat
  dim_pos : 0 < dim
  fits : dim + 8 ≤ kPageSize

/-- Records of one dimension fit into a page. -/
theorem oneDim_fits : 1 + 8 ≤ kPageSize := by decide

/-- Bytes of one encoded vector: the two range floats and one byte each
dimension. -/
def Config.recordSize (cfg : Config) : Nat := cfg.dim + 8

/-- Records that fit into one page. -/
def Config.vectorsPerPage (cfg : Config) : Nat := kPageSize / cfg.recordSize

/-- Live buffers one shard may hold. -/
def Config.perShardCap (cfg : Config) : Nat :=
  max 1 (cfg.writeBufCap / kNumSectionShards)

theorem Config.vectorsPerPage_pos (cfg : Config) : 0 < cfg.vectorsPerPage :=
  Nat.div_pos cfg.fits (by simp [Config.recordSize])

/-- Every slot of a page lies inside the page. -/
theorem Config.slot_fits (cfg : Config) {slot : Nat}
    (hslot : slot < cfg.vectorsPerPage) :
    slot * cfg.recordSize + cfg.recordSize ≤ kPageSize := by
  have hmul : (slot + 1) * cfg.recordSize ≤ cfg.vectorsPerPage * cfg.recordSize :=
    Nat.mul_le_mul_right _ hslot
  have hpage : cfg.vectorsPerPage * cfg.recordSize ≤ kPageSize :=
    Nat.div_mul_le_self _ _
  rw [Nat.add_mul, Nat.one_mul] at hmul
  omega

/-- One encoded vector. -/
structure Record (cfg : Config) where
  bytes : List UInt8
  length_eq : bytes.length = cfg.recordSize
  deriving DecidableEq

/-- `sectionIdx` is negative for an unused page. -/
structure PageMeta where
  sectionIdx : Int
  usedSlots : Nat
  deriving DecidableEq

structure UpdateLoc where
  page : Int
  slot : Nat
  deriving DecidableEq

/-- The 4 KB image of the page a section is filling. -/
structure SectionWriteBuf where
  data : Buffer
  pageId : Nat

structure PageBuf where
  data : Buffer
  pageId : Option Nat

/-- Bookkeeping of the sections that share one mutex.  `openPages` and
`freeSlots` are stacks whose head is the back of the source's vector;
`bufOrder` is the queue of buffer creations, oldest first; `bufPool` counts the
recycled allocations. -/
structure SectionShard where
  openPages : Int → List Nat
  freeSlots : Int → List (Nat × Nat)
  writeBufs : AList fun _ : Int => SectionWriteBuf
  bufOrder : List Int
  bufPool : Nat

def SectionShard.empty : SectionShard where
  openPages _ := []
  freeSlots _ := []
  writeBufs := ∅
  bufOrder := []
  bufPool := 0

structure Store (cfg : Config) where
  totalVectors : Nat
  idToPage : List Int
  idToSlotInPage : List Nat
  deletedFlags : Nat → Bool
  pages : List PageMeta
  sectionKeyToIdx : Nat → Option Int
  sectionIdxToKey : List Nat
  updateLocations : AList fun _ : Nat => UpdateLoc
  sectionShards : Nat → SectionShard
  sectionWriteBufsCount : Nat
  cacheSlots : List PageBuf
  pageToSlot : Nat → Option Nat
  cachedCount : Nat
  fifoHand : Nat
  file : ByteFile

variable {cfg : Config}

namespace Store

/-- Index of the shard that owns `sectionIdx`; the source converts the index to
an unsigned word first, and `2^64` is a multiple of the number of shards. -/
def shardIdx (sectionIdx : Int) : Nat := (sectionIdx % kNumSectionShards).toNat

def sectionShardState (st : Store cfg) (sectionIdx : Int) : SectionShard :=
  st.sectionShards (shardIdx sectionIdx)

def setShard (st : Store cfg) (sectionIdx : Int) (shard : SectionShard) :
    Store cfg :=
  { st with
    sectionShards := Function.update st.sectionShards (shardIdx sectionIdx) shard }

/-- The live write buffer of a section. -/
def writeBuf (st : Store cfg) (sectionIdx : Int) : Option SectionWriteBuf :=
  (st.sectionShardState sectionIdx).writeBufs.lookup sectionIdx

/-- Pages with slots left that a section fills next. -/
def openPages (st : Store cfg) (sectionIdx : Int) : List Nat :=
  (st.sectionShardState sectionIdx).openPages sectionIdx

/-- Slots of used pages that a section fills first. -/
def freeSlots (st : Store cfg) (sectionIdx : Int) : List (Nat × Nat) :=
  (st.sectionShardState sectionIdx).freeSlots sectionIdx

/-- The record at `slot` of a page image. -/
def recordAt (cfg : Config) (data : Buffer) (slot : Nat) : Record cfg where
  bytes := slice data (slot * cfg.recordSize) cfg.recordSize
  length_eq := slice_length _ _ _

/-! Locations -/

/-- Page of an id, `-1` when it has none.  Ids below the capacity are read
without a bounds check, so the result is `none` for an index outside the
array. -/
def pageOf (st : Store cfg) (id : Nat) : Option Int :=
  if isDirectId id then
    if id < st.totalVectors then st.idToPage[id]?
    else some (st.idToPage.getD id (-1))
  else some ((st.updateLocations.lookup id).elim (-1) UpdateLoc.page)

def slotOf (st : Store cfg) (id : Nat) : Option Nat :=
  if isDirectId id then
    if id < st.totalVectors then st.idToSlotInPage[id]?
    else some (st.idToSlotInPage.getD id 0)
  else some ((st.updateLocations.lookup id).elim 0 UpdateLoc.slot)

/-- The slot a record of `id` is read from, when the id has one. -/
def location (st : Store cfg) (id : Nat) : Option (Nat × Nat) :=
  match st.pageOf id, st.slotOf id with
  | some (Int.ofNat page), some slot => some (page, slot)
  | _, _ => none

def isDeletedAt (st : Store cfg) (id : Nat) : Bool :=
  isDirectId id && decide (id < st.totalVectors) && st.deletedFlags id

def markDeletedAt (st : Store cfg) (id : Nat) (deleted : Bool) : Store cfg :=
  if isDirectId id ∧ id < st.totalVectors ∧ st.deletedFlags id ≠ deleted then
    { st with deletedFlags := Function.update st.deletedFlags id deleted }
  else st

def hasLocation (st : Store cfg) (id : Nat) : Bool :=
  (st.pageOf id).elim false (0 ≤ ·)

def vectorExists (st : Store cfg) (id : Nat) : Bool :=
  !st.isDeletedAt id && st.hasLocation id

/-- `max_size()` of the vector of 32-bit page indices. -/
def maxVectorElements : Nat := 2 ^ 61 - 1

/-- `max_size()` of the page table and of the vector of section keys, whose
elements take eight bytes. -/
def maxTableElements : Nat := 2 ^ 60 - 1

def int32Max : Nat := 2 ^ 31 - 1

/-- `static_cast<int>`. -/
def toInt32 (n : Nat) : Int :=
  if n % 2 ^ 32 ≤ int32Max then (n % 2 ^ 32 : Nat) else (n % 2 ^ 32 : Nat) - 2 ^ 32

/-- The growth loop `while (target < minCapacity) target *= 2` in 64-bit
arithmetic; `none` when `fuel` iterations do not end it. -/
def doubleUntil (minCapacity : Nat) : Nat → Nat → Option Nat
  | fuel, target =>
      if target < minCapacity then
        match fuel with
        | 0 => none
        | fuel + 1 => doubleUntil minCapacity fuel (target * 2 % 2 ^ 64)
      else some target

/-- Capacity the growth loop ends at.  Once 64 doublings have not ended it the
target is zero and stays zero, so the loop never ends. -/
def growCapacity (totalVectors minCapacity : Nat) : Option Nat :=
  doubleUntil minCapacity 64 (if totalVectors = 0 then minCapacity else totalVectors)

/-- `std::vector::resize`. -/
def resize {α : Type} (items : List α) (n : Nat) (fill : α) : List α :=
  items.take n ++ List.replicate (n - items.length) fill

/-- Growing past the largest vector throws before any array has changed. -/
def expandCapacity (st : Store cfg) (minCapacity : Nat) :
    Outcome Unit × Store cfg :=
  if minCapacity ≤ st.totalVectors then (.returned (), st)
  else
    match growCapacity st.totalVectors minCapacity with
    | none => (.undefined, st)
    | some target =>
        if maxVectorElements < target then (.threw, st)
        else (.returned (), { st with
          idToPage := resize st.idToPage target (-1)
          idToSlotInPage := resize st.idToSlotInPage target 0
          totalVectors := target })

def ensureDenseCapacity (st : Store cfg) (id : Nat) : Outcome Unit × Store cfg :=
  if isDirectId id ∧ st.totalVectors ≤ id then st.expandCapacity (id + 1)
  else (.returned (), st)

/-- Publish the slot of an id. -/
def assignLocation (st : Store cfg) (id page slot : Nat) :
    Outcome Unit × Store cfg :=
  if isDirectId id then
    if int32Max < page then (.threw, st)
    else if id < st.idToPage.length ∧ id < st.idToSlotInPage.length then
      (.returned (), { st with
        idToPage := st.idToPage.set id page
        idToSlotInPage := st.idToSlotInPage.set id slot })
    else (.undefined, st)
  else (.returned (), { st with
    updateLocations := st.updateLocations.insert id ⟨page, slot⟩ })

end Store

end AsterVec.PagedVectorStorage

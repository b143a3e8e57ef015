import AsterVec.LittleEndian
import AsterVec.PagedRecords

/-!
The paged store's part of a checkpoint: its constructor, the stream
`serializeMetadata` writes and the store `deserializeMetadata` rebuilds from it.
-/

namespace AsterVec.PagedVectorStorage

open AsterVec.ByteBuffer
open AsterVec.IdTypes
open AsterVec.LittleEndian

variable {cfg : Config}

namespace Store

/-- Construct a store over an existing vector file and delete-flag file; `none`
when the location arrays cannot be allocated. -/
def construct (cfg : Config) (capacity : Nat) (file : ByteFile)
    (deletedFlags : Nat → Bool) : Option (Store cfg) :=
  if maxVectorElements < capacity then none
  else some
    { totalVectors := capacity
      idToPage := List.replicate capacity (-1)
      idToSlotInPage := List.replicate capacity 0
      deletedFlags := deletedFlags
      pages := []
      sectionKeyToIdx := fun _ => none
      sectionIdxToKey := []
      updateLocations := ∅
      sectionShards := fun _ => SectionShard.empty
      sectionWriteBufsCount := 0
      cacheSlots := []
      pageToSlot := fun _ => none
      cachedCount := 0
      fifoHand := 0
      file := file }

def kMetaVersion : Nat := 2

def putPage (page : PageMeta) : List UInt8 :=
  putInt 4 page.sectionIdx ++ putLE 2 page.usedSlots

def putUpdateLoc (entry : (_ : Nat) × UpdateLoc) : List UInt8 :=
  putLE 8 entry.1 ++ (putInt 8 entry.2.page ++ putLE 2 entry.2.slot)

/-- The stream written at a checkpoint: header, page table, section keys, the
two location arrays and the update locations, each behind its length. -/
def serializeMetadata (st : Store cfg) : List UInt8 :=
  putLE 4 kMetaVersion ++ (putLE 8 st.totalVectors ++ (putLE 8 cfg.dim ++
  (putLE 8 cfg.vectorsPerPage ++ (putLE 8 st.pages.length ++
  (putLE 8 st.sectionIdxToKey.length ++ (st.pages.flatMap putPage ++
  (st.sectionIdxToKey.flatMap (putLE 8) ++ (putLE 8 st.idToPage.length ++
  (putLE 8 st.idToSlotInPage.length ++ (st.idToPage.flatMap (putInt 8) ++
  (st.idToSlotInPage.flatMap (putLE 2) ++
  (putLE 8 st.updateLocations.entries.length ++
    st.updateLocations.entries.flatMap putUpdateLoc))))))))))))

structure MetaHeader where
  version : Nat
  totalVectors : Nat
  dim : Nat
  vectorsPerPage : Nat
  pagesSize : Nat
  sectionKeysSize : Nat

structure MetaTables where
  pages : List PageMeta
  sectionKeys : List Nat
  idToPage : List Int
  idToSlot : List Nat
  updateLocs : List ((_ : Nat) × UpdateLoc)

def readHeader : Reader MetaHeader := do
  let version ← getLE 4
  let totalVectors ← getLE 8
  let dim ← getLE 8
  let vectorsPerPage ← getLE 8
  let pagesSize ← getLE 8
  let sectionKeysSize ← getLE 8
  return { version, totalVectors, dim, vectorsPerPage, pagesSize, sectionKeysSize }

/-- Fail unless `condition` holds. -/
def require (condition : Bool) : Reader Unit := fun bytes =>
  if condition then some ((), bytes) else none

def readPage (vectorsPerPage : Nat) : Reader PageMeta := do
  let sectionIdx ← getInt 4
  let usedSlots ← getLE 2
  require (usedSlots ≤ vectorsPerPage)
  return { sectionIdx, usedSlots }

/-- A stored page index, refused when it does not fit the in-memory array. -/
def readPageIndex : Reader Int := do
  let page ← getInt 8
  require (-1 ≤ page ∧ page ≤ int32Max)
  return page

def readUpdateLoc : Reader ((_ : Nat) × UpdateLoc) := do
  let id ← getLE 8
  let page ← getInt 8
  let slot ← getLE 2
  return ⟨id, ⟨page, slot⟩⟩

def readPages (cfg : Config) (header : MetaHeader) : Reader (List PageMeta) :=
  getMany (readPage cfg.vectorsPerPage) header.pagesSize

/-- The update locations, which version 1 streams end without. -/
def readUpdateLocs (version : Nat) : Reader (List ((_ : Nat) × UpdateLoc)) :=
  if 2 ≤ version then do
    let updateLocCount ← getLE 8
    getMany readUpdateLoc updateLocCount
  else pure []

/-- What follows the page table. -/
def readTables (header : MetaHeader) (pages : List PageMeta) :
    Reader MetaTables := do
  let sectionKeys ← getMany (getLE 8) header.sectionKeysSize
  let idToPageSize ← getLE 8
  let idToSlotSize ← getLE 8
  require (idToPageSize = header.totalVectors ∧ idToSlotSize = header.totalVectors)
  let idToPage ← getMany readPageIndex idToPageSize
  let idToSlot ← getMany (getLE 2) idToSlotSize
  let updateLocs ← readUpdateLocs header.version
  return { pages, sectionKeys, idToPage, idToSlot, updateLocs }

/-- The parts of a stream. -/
def parseMetadata (cfg : Config) : Reader (MetaHeader × MetaTables) := do
  let header ← readHeader
  let pages ← readPages cfg header
  let tables ← readTables header pages
  return (header, tables)

/-- Later entries for one id replace earlier ones. -/
def updateMap (entries : List ((_ : Nat) × UpdateLoc)) :
    AList fun _ : Nat => UpdateLoc :=
  entries.foldl (fun map entry => map.insert entry.1 entry.2) ∅

/-- Section indices by key; of two equal keys the later index counts. -/
def keyToIdx (keys : List Nat) : Nat → Option Int :=
  keys.zipIdx.foldl (fun map entry =>
    Function.update map entry.1 (some (toInt32 entry.2))) fun _ => none

/-- Every direct id with a location lies inside the page table and below the
used slots of its page. -/
def directLocsValid (tables : MetaTables) : Bool :=
  (tables.idToPage.zip tables.idToSlot).all fun loc =>
    decide (loc.1 < 0) ||
      (tables.pages[loc.1.toNat]?).any fun page => loc.2 < page.usedSlots

/-- The slot is held by a direct id or by an update id. -/
def slotInUse (tables : MetaTables) (pageId slot : Nat) : Bool :=
  (tables.idToPage.zip tables.idToSlot).any (fun loc =>
      loc.1 = pageId && loc.2 = slot) ||
    (updateMap tables.updateLocs).entries.any fun entry =>
      entry.2.page = pageId && entry.2.slot = slot

/-- Pages of a section with slots left, last page on top. -/
def openPagesOf (cfg : Config) (pages : List PageMeta) (sectionIdx : Int) :
    List Nat :=
  if sectionIdx < 0 then []
  else ((List.range pages.length).filter fun pageId =>
    (pages[pageId]?).any fun page =>
      page.sectionIdx = sectionIdx && decide (page.usedSlots < cfg.vectorsPerPage)).reverse

/-- Unheld slots below the used count of a section's pages, last one on top. -/
def freeSlotsOf (tables : MetaTables) (sectionIdx : Int) : List (Nat × Nat) :=
  if sectionIdx < 0 then []
  else ((List.range tables.pages.length).flatMap fun pageId =>
    match tables.pages[pageId]? with
    | some page =>
        if page.sectionIdx = sectionIdx then
          ((List.range page.usedSlots).filter fun slot =>
            !slotInUse tables pageId slot).map fun slot => (pageId, slot)
        else []
    | none => []).reverse

/-- The store rebuilt from the tables of a stream. -/
def rebuild (st : Store cfg) (tables : MetaTables) : Store cfg :=
  { st with
    pages := tables.pages
    sectionKeyToIdx := keyToIdx tables.sectionKeys
    sectionIdxToKey := tables.sectionKeys
    idToPage := tables.idToPage
    idToSlotInPage := tables.idToSlot
    updateLocations := updateMap tables.updateLocs
    sectionShards := fun _ =>
      { SectionShard.empty with
        openPages := openPagesOf cfg tables.pages
        freeSlots := freeSlotsOf tables }
    cacheSlots := st.cacheSlots.map fun buf => { buf with pageId := none }
    pageToSlot := fun _ => none
    cachedCount := 0
    fifoHand := 0 }

/-- Load a checkpoint.  `returned none` is a refused stream; an accepted one
also gives the bytes behind it.  Room for the section keys is reserved before
they are read, which throws for a count no vector can hold. -/
def deserializeMetadata (st : Store cfg) (stream : List UInt8) :
    Outcome (Option (Store cfg × List UInt8)) :=
  match readHeader.run stream with
  | none => .returned none
  | some (header, stream) =>
      if header.version < 1 ∨ kMetaVersion < header.version then .returned none
      else if header.dim ≠ cfg.dim ∨ header.vectorsPerPage ≠ cfg.vectorsPerPage then
        .returned none
      else
        match
          if st.totalVectors < header.totalVectors then
            st.expandCapacity header.totalVectors
          else (.returned (), st) with
        | (.threw, _) => .threw
        | (.undefined, _) => .undefined
        | (.returned (), st) =>
            match (readPages cfg header).run stream with
            | none => .returned none
            | some (pages, stream) =>
                if maxTableElements < header.sectionKeysSize then .threw
                else
                  match (readTables header pages).run stream with
                  | none => .returned none
                  | some (tables, rest) =>
                      if directLocsValid tables then
                        .returned (some (rebuild st tables, rest))
                      else .returned none

end Store

end AsterVec.PagedVectorStorage

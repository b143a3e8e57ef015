import AsterVec.Loading
import AsterVec.OpLog
import AsterVec.PagedMetadata
import AsterVec.UpdateMapping

/-!
The metadata file of an index: the stream `SerializeMetadata` writes, under its two
checksums, and the program that loads it.
-/

namespace AsterVec.IndexMetadata

open AsterVec.IdTypes
open AsterVec.LittleEndian
open AsterVec.Loading
open AsterVec.PagedVectorStorage

variable {cfg : Config} {Sq8 : Type}

/-- The scalar quantization of upper-layer vectors, whose floats are kept as bytes. -/
structure Quantizer (cfg : Config) (Sq8 : Type) where
  quantize : List UInt8 → Sq8
  dequantize : Sq8 → List UInt8
  length_dequantize : ∀ data, (dequantize data).length = 4 * cfg.dim

/-- The vector of a node: its floats, or its quantized form, which replaces them. -/
inductive Point (cfg : Config) (Sq8 : Type) where
  | point (bytes : List UInt8) (length_eq : bytes.length = 4 * cfg.dim)
  | q8 (data : Sq8)

structure Node (cfg : Config) (Sq8 : Type) where
  id : Nat
  vector : Point cfg Sq8
  neighbors : List (Int × List Nat)

/-- The containers are in the order they are walked in; `paged` is the vector storage when
that is of type 1. -/
structure Index (cfg : Config) (Sq8 : Type) where
  vectorStorageType : Int
  paged : Option (Store cfg)
  graphEncoding : Nat
  entryPoint : Nat
  maxLayer : Int
  nodes : List (Nat × Node cfg Sq8)
  tombstonedInternalIds : List Nat
  updatedRealToInternal : AList fun _ : Nat => Nat
  updatedInternalToReal : AList fun _ : Nat => Nat
  updateBloom : BloomFilter
  nextUpdateInternalId : Nat
  checkpointLsn : Nat
  checkpointLiveCount : Int
  idMode : Nat

def kMetadataMagic : List UInt8 := [0x4C, 0x53, 0x4D, 0x56, 0x4D, 0x45, 0x54, 0x41]

def kMetadataVersion : Nat := 4

def crc32 (bytes : List UInt8) : Nat := (Crc32.finish (Crc32.update Crc32.kInit bytes)).toNat

structure MetaHeaderV3 where
  version : Nat
  entryPoint : Nat
  maxLayer : Int
  nodeCount : Nat
  deletedCount : Nat
  graphEncoding : Nat

/-- The bytes under the checksum of the header. -/
def MetaHeaderV3.bytes (header : MetaHeaderV3) : List UInt8 :=
  kMetadataMagic ++ (putLE 4 header.version ++ (putLE 8 header.entryPoint ++
    (putInt 4 header.maxLayer ++ (putLE 8 header.nodeCount ++
      (putLE 8 header.deletedCount ++ putLE 4 header.graphEncoding)))))

def metaHeaderCrc (header : MetaHeaderV3) : Nat := crc32 header.bytes

/-! Loading -/

/-- Go on if the condition holds. -/
def check (condition : Prop) [Decidable condition] (error : Status) : Load Status Unit :=
  if condition then pure () else fail error

def loadHeader (index : Index cfg Sq8) : Load Status MetaHeaderV3 := do
  let magic ← read 8 (.ioError "invalid metadata magic")
  check (magic = kMetadataMagic) (.ioError "invalid metadata magic")
  let version ← number 4 (.ioError "unsupported metadata version")
  check (1 ≤ version ∧ version ≤ kMetadataVersion) (.ioError "unsupported metadata version")
  let entryPoint ← number 8 (.ioError "failed to read metadata header")
  let maxLayer ← signed 4 (.ioError "failed to read metadata header")
  let nodeCount ← number 8 (.ioError "failed to read metadata header")
  let deletedCount ← number 8 (.ioError "failed to read metadata header")
  if 3 ≤ version then do
    let storedEncoding ← number 4 (.ioError "failed to read graph encoding header")
    let storedCrc ← number 4 (.ioError "failed to read graph encoding header")
    let header : MetaHeaderV3 :=
      ⟨version, entryPoint, maxLayer, nodeCount, deletedCount, storedEncoding⟩
    check (metaHeaderCrc header = storedCrc)
      (.corruption "metadata header CRC mismatch — file is damaged")
    check (storedEncoding = index.graphEncoding)
      (.corruption "graph encoding changed between peek and load")
    pure header
  else do
    check (index.graphEncoding = 0)
      (.corruption ("pre-v3 metadata implies raw adjacency encoding, but the " ++
        "graph was opened with a different encoding"))
    pure ⟨version, entryPoint, maxLayer, nodeCount, deletedCount, 0⟩

def loadLayer : Load Status (Int × List Nat) := do
  let layer ← signed 4 (.ioError "failed to read neighbor metadata")
  let neighborCount ← number 8 (.ioError "failed to read neighbor metadata")
  let bytesLeft ← left
  check (neighborCount ≤ bytesLeft / 8)
    (.corruption "metadata neighbor count exceeds file size")
  let neighbors ← many (number 8 (.ioError "failed to read neighbor id")) neighborCount
  pure (layer, neighbors)

/-- `LayerNeighbors::emplace` replaces the list of a layer it has. -/
def emplaceLayer (layers : List (Int × List Nat)) (entry : Int × List Nat) :
    List (Int × List Nat) :=
  match layers with
  | [] => [entry]
  | found :: rest =>
      if found.1 = entry.1 then entry :: rest else found :: emplaceLayer rest entry

def loadNode (quantizer : Quantizer cfg Sq8) : Load Status (Nat × Node cfg Sq8) := do
  let nodeId ← number 8 (.ioError "failed to read node metadata")
  let pointSize ← number 8 (.ioError "failed to read node metadata")
  check (pointSize = cfg.dim) (.invalidArgument "node vector dimension mismatch")
  let bytesLeft ← left
  check (4 * pointSize ≤ bytesLeft) (.corruption "metadata node vector truncated")
  let point ← read (4 * pointSize) (.ioError "failed to read node vector")
  let neighborLayers ← number 8 (.ioError "failed to read neighbor layer count")
  let bytesLeft ← left
  check (neighborLayers ≤ bytesLeft / 12)
    (.corruption "metadata neighbor layer count exceeds file size")
  let layers ← many loadLayer neighborLayers
  pure (nodeId, ⟨nodeId, .q8 (quantizer.quantize point), layers.foldl emplaceLayer []⟩)

/-- `unordered_map::emplace` keeps the node an id has. -/
def emplaceNode (nodes : List (Nat × Node cfg Sq8)) (entry : Nat × Node cfg Sq8) :
    List (Nat × Node cfg Sq8) :=
  if entry.1 ∈ nodes.map Prod.fst then nodes else nodes ++ [entry]

def loadNodes (quantizer : Quantizer cfg Sq8) (nodeCount : Nat) :
    Load Status (List (Nat × Node cfg Sq8)) := do
  let bytesLeft ← left
  check (nodeCount ≤ bytesLeft / 24) (.corruption "metadata node count exceeds file size")
  let nodes ← many (loadNode quantizer) nodeCount
  pure (nodes.foldl emplaceNode [])

def loadTombstones (deletedCount : Nat) : Load Status (List Nat) := do
  let bytesLeft ← left
  check (deletedCount ≤ bytesLeft / 8)
    (.corruption "metadata deleted count exceeds file size")
  let ids ← many (number 8 (.ioError "failed to read deleted ids")) deletedCount
  pure ids.dedup

def loadUpdate : Load Status ((_ : Nat) × Nat) := do
  let real ← number 8 (.ioError "failed to read update map entry")
  let internal ← number 8 (.ioError "failed to read update map entry")
  pure ⟨real, internal⟩

/-- The entries of the update map and the next update id. -/
def loadUpdates (version : Nat) : Load Status (List ((_ : Nat) × Nat) × Nat) :=
  if 2 ≤ version then do
    let updatedCount ← number 8 (.ioError "failed to read update map header")
    let nextUpdateId ← number 8 (.ioError "failed to read update map header")
    let bytesLeft ← left
    check (updatedCount ≤ bytesLeft / 16)
      (.corruption "metadata update-map count exceeds file size")
    let entries ← many loadUpdate updatedCount
    pure (entries, nextUpdateId)
  else pure ([], kFirstUpdateId)

/-! The block of the paged store -/

def pagedError : Status := .ioError "failed to load paged storage metadata"

/-- An exception, with its own text behind this. -/
def raised : Status := .corruption "metadata parse raised: "

/-- The header of the block, once it has passed its checks. -/
def loadPagedHeader (cfg : Config) : Load Status Store.MetaHeader := do
  let version ← number 4 pagedError
  let totalVectors ← number 8 pagedError
  let dim ← number 8 pagedError
  let vectorsPerPage ← number 8 pagedError
  let pagesSize ← number 8 pagedError
  let sectionKeysSize ← number 8 pagedError
  check (1 ≤ version ∧ version ≤ Store.kMetaVersion) pagedError
  check (dim = cfg.dim ∧ vectorsPerPage = cfg.vectorsPerPage) pagedError
  pure { version, totalVectors, dim, vectorsPerPage, pagesSize, sectionKeysSize }

/-- `expandCapacity`, whose loop doubles the capacity. -/
def expandCapacity (st : Store cfg) (minCapacity : Nat) : Load Status (Store cfg) :=
  if minCapacity ≤ st.totalVectors then pure st
  else do
    let target ← double (if st.totalVectors = 0 then minCapacity else st.totalVectors)
      minCapacity
    check (target ≤ Store.maxVectorElements) raised
    pure { st with
      idToPage := Store.resize st.idToPage target (-1)
      idToSlotInPage := Store.resize st.idToSlotInPage target 0
      totalVectors := target }

def loadPage (cfg : Config) : Load Status PageMeta := do
  let sectionIdx ← signed 4 pagedError
  let usedSlots ← number 2 pagedError
  check (usedSlots ≤ cfg.vectorsPerPage) pagedError
  pure { sectionIdx, usedSlots }

def loadPageIndex : Load Status Int := do
  let page ← signed 8 pagedError
  check (-1 ≤ page ∧ page ≤ Store.int32Max) pagedError
  pure page

def loadUpdateLoc : Load Status ((_ : Nat) × UpdateLoc) := do
  let id ← number 8 pagedError
  let page ← signed 8 pagedError
  let slot ← number 2 pagedError
  pure ⟨id, ⟨page, slot⟩⟩

/-- Room for the map is reserved first. -/
def loadUpdateLocs (version : Nat) : Load Status (List ((_ : Nat) × UpdateLoc)) :=
  if 2 ≤ version then do
    let updateLocCount ← number 8 pagedError
    check (updateLocCount ≤ Store.maxTableElements) raised
    many loadUpdateLoc updateLocCount
  else pure []

/-- What follows the header of the block; room for the section keys is reserved first. -/
def loadPagedTables (header : Store.MetaHeader) (st : Store cfg) :
    Load Status (Store cfg) := do
  let pages ← many (loadPage cfg) header.pagesSize
  check (header.sectionKeysSize ≤ Store.maxTableElements) raised
  let sectionKeys ← many (number 8 pagedError) header.sectionKeysSize
  let idToPageSize ← number 8 pagedError
  let idToSlotSize ← number 8 pagedError
  check (idToPageSize = header.totalVectors ∧ idToSlotSize = header.totalVectors) pagedError
  let idToPage ← many loadPageIndex idToPageSize
  let idToSlot ← many (number 2 pagedError) idToSlotSize
  let updateLocs ← loadUpdateLocs header.version
  let tables : Store.MetaTables := { pages, sectionKeys, idToPage, idToSlot, updateLocs }
  check (Store.directLocsValid tables = true) pagedError
  pure (st.rebuild tables)

/-! The whole file -/

/-- What is loaded before the paged store grows. -/
structure Loaded (cfg : Config) (Sq8 : Type) where
  header : MetaHeaderV3
  nodes : List (Nat × Node cfg Sq8)
  tombstones : List Nat
  updates : List ((_ : Nat) × Nat)
  nextUpdateId : Nat

/-- Up to the type of the vector storage. -/
def loadGraph (quantizer : Quantizer cfg Sq8) (index : Index cfg Sq8) :
    Load Status (Loaded cfg Sq8) := do
  let header ← loadHeader index
  let nodes ← loadNodes quantizer header.nodeCount
  let tombstones ← loadTombstones header.deletedCount
  let updates ← loadUpdates header.version
  let storageType ← signed 4 (.ioError "failed to read vector storage type")
  check (storageType = index.vectorStorageType)
    (.invalidArgument "vector storage type mismatch")
  pure ⟨header, nodes, tombstones, updates.1, updates.2⟩

/-- The lsn, the live count and the id mode. -/
def loadTrailer (version : Nat) : Load Status (Nat × Int × Nat) :=
  if 4 ≤ version then do
    let checkpointLsn ← number 8 (.ioError "failed to read checkpoint trailer")
    let checkpointLiveCount ← signed 8 (.ioError "failed to read checkpoint trailer")
    let bytesLeft ← left
    if bytesLeft = 0 then pure (checkpointLsn, checkpointLiveCount, 0)
    else do
      let idMode ← number 4 (.corruption "bad point-id mode in metadata")
      check (idMode ≤ 1) (.corruption "bad point-id mode in metadata")
      pure (checkpointLsn, checkpointLiveCount, idMode)
  else pure (0, -1, 0)

/-- The filter is sized for the entries of the map, and for 512 at least. -/
def rebuildBloom (updated : AList fun _ : Nat => Nat) : BloomFilter :=
  updated.keys.foldl BloomFilter.add (BloomFilter.reset (max updated.keys.length 512))

/-- Later entries replace earlier ones, as they do in the reverse map. -/
def forwardMap (updates : List ((_ : Nat) × Nat)) : AList fun _ : Nat => Nat :=
  updates.foldl (fun map entry => map.insert entry.1 entry.2) ∅

/-- The index once its file has been read to the end. -/
def Index.restore (index : Index cfg Sq8) (loaded : Loaded cfg Sq8)
    (paged : Option (Store cfg)) (trailer : Nat × Int × Nat) : Index cfg Sq8 :=
  { index with
    paged := paged
    entryPoint := loaded.header.entryPoint
    maxLayer := loaded.header.maxLayer
    nodes := loaded.nodes
    tombstonedInternalIds := loaded.tombstones
    updatedRealToInternal := forwardMap loaded.updates
    updatedInternalToReal := IdTables.reverseEntries loaded.updates ∅
    updateBloom := rebuildBloom (forwardMap loaded.updates)
    nextUpdateInternalId := loaded.nextUpdateId
    checkpointLsn := trailer.1
    checkpointLiveCount := trailer.2.1
    idMode := trailer.2.2 }

/-- The rest of the file when its block of the paged store has been read up to its
header. -/
def loadBlock (index : Index cfg Sq8) (loaded : Loaded cfg Sq8) (st : Store cfg)
    (header : Store.MetaHeader) : Load Status (Index cfg Sq8) := do
  let grown ← expandCapacity st header.totalVectors
  let paged ← loadPagedTables header grown
  let trailer ← loadTrailer loaded.header.version
  pure (index.restore loaded (some paged) trailer)

/-- `DeserializeMetadataImpl`. -/
def deserializeMetadataImpl (quantizer : Quantizer cfg Sq8) (index : Index cfg Sq8) :
    Load Status (Index cfg Sq8) := do
  let loaded ← loadGraph quantizer index
  if index.vectorStorageType = 1 then
    match index.paged with
    | some st => do
        let header ← loadPagedHeader cfg
        loadBlock index loaded st header
    | none => fail (.ioError "paged vector storage not available")
  else do
    let trailer ← loadTrailer loaded.header.version
    pure (index.restore loaded index.paged trailer)

/-- What is parsed of a file: all of it up to version 2, from version 3 on what is in
front of the checksum, when that is right. -/
def payload (all : List UInt8) : Except Status (List UInt8) :=
  if all.length < 12 then .error (.corruption "metadata file truncated")
  else if 3 ≤ valueLE ((all.drop 8).take 4) then
    let body := all.take (all.length - 4)
    if crc32 body = valueLE (all.drop (all.length - 4)) then .ok body
    else .error (.corruption "metadata payload CRC mismatch — file is damaged")
  else .ok all

/-- `DeserializeMetadata` as it starts. -/
def deserializeMetadata (quantizer : Quantizer cfg Sq8) (index : Index cfg Sq8)
    (all : List UInt8) : Machine Status (Index cfg Sq8) :=
  match payload all with
  | .ok body => ⟨.running (deserializeMetadataImpl quantizer index), body⟩
  | .error error => ⟨.ended (.error error), all⟩

/-- `PeekGraphEncoding` of a file that is there. -/
def peekGraphEncoding : Load Status Nat := do
  let magic ← read 8 (.corruption "invalid metadata magic")
  check (magic = kMetadataMagic) (.corruption "invalid metadata magic")
  let version ← number 4 (.corruption "unsupported metadata version")
  check (1 ≤ version ∧ version ≤ kMetadataVersion)
    (.corruption "unsupported metadata version")
  if version < 3 then pure 0
  else do
    let entryPoint ← number 8 (.corruption "truncated metadata header")
    let maxLayer ← signed 4 (.corruption "truncated metadata header")
    let nodeCount ← number 8 (.corruption "truncated metadata header")
    let deletedCount ← number 8 (.corruption "truncated metadata header")
    let graphEncoding ← number 4 (.corruption "truncated metadata header")
    let storedCrc ← number 4 (.corruption "truncated metadata header")
    check (metaHeaderCrc ⟨version, entryPoint, maxLayer, nodeCount, deletedCount,
      graphEncoding⟩ = storedCrc) (.corruption "metadata header CRC mismatch — file is damaged")
    pure graphEncoding

/-! Saving -/

/-- The floats a point is written as. -/
def Point.floats (quantizer : Quantizer cfg Sq8) : Point cfg Sq8 → List UInt8
  | .point bytes _ => bytes
  | .q8 data => quantizer.dequantize data

def putLayer (entry : Int × List Nat) : List UInt8 :=
  putInt 4 entry.1 ++ (putLE 8 entry.2.length ++ entry.2.flatMap (putLE 8))

def putNode (quantizer : Quantizer cfg Sq8) (entry : Nat × Node cfg Sq8) : List UInt8 :=
  let floats := entry.2.vector.floats quantizer
  putLE 8 entry.1 ++ (putLE 8 (floats.length / 4) ++ (floats ++
    (putLE 8 entry.2.neighbors.length ++ entry.2.neighbors.flatMap putLayer)))

def putUpdate (entry : (_ : Nat) × Nat) : List UInt8 := putLE 8 entry.1 ++ putLE 8 entry.2

def Index.header (index : Index cfg Sq8) : MetaHeaderV3 where
  version := kMetadataVersion
  entryPoint := index.entryPoint
  maxLayer := index.maxLayer
  nodeCount := index.nodes.length
  deletedCount := index.tombstonedInternalIds.length
  graphEncoding := index.graphEncoding

/-- The block of the paged store, when that is the vector storage. -/
def putPaged (index : Index cfg Sq8) : Except Status (List UInt8) :=
  if index.vectorStorageType = 1 then
    match index.paged with
    | some st => .ok st.serializeMetadata
    | none => .error (.ioError "paged vector storage not available")
  else .ok []

/-- `SerializeMetadataImpl`, to a stream that takes all of it. -/
def serializeMetadataImpl (quantizer : Quantizer cfg Sq8) (index : Index cfg Sq8) :
    Except Status (List UInt8) :=
  match putPaged index with
  | .error error => .error error
  | .ok block => .ok (index.header.bytes ++ (putLE 4 (metaHeaderCrc index.header) ++
      (index.nodes.flatMap (putNode quantizer) ++
      (index.tombstonedInternalIds.flatMap (putLE 8) ++
      (putLE 8 index.updatedRealToInternal.entries.length ++
      (putLE 8 index.nextUpdateInternalId ++
      (index.updatedRealToInternal.entries.flatMap putUpdate ++
      (putInt 4 index.vectorStorageType ++ (block ++
      (putLE 8 index.checkpointLsn ++ (putInt 8 index.checkpointLiveCount ++
      putLE 4 index.idMode)))))))))))

/-- What has reached the file, what is in the buffer, and the checksum of the former. -/
structure CrcOStreamBuf where
  target : List UInt8
  buf : List UInt8
  crc : UInt32

namespace CrcOStreamBuf

def empty : CrcOStreamBuf := ⟨[], [], Crc32.kInit⟩

def write (stream : CrcOStreamBuf) (bytes : List UInt8) : CrcOStreamBuf :=
  { stream with buf := stream.buf ++ bytes }

def drain (stream : CrcOStreamBuf) : CrcOStreamBuf :=
  ⟨stream.target ++ stream.buf, [], Crc32.update stream.crc stream.buf⟩

/-- Write all the bytes, draining the buffer when it holds so many, and at the end. -/
def writeAll : List Nat → List UInt8 → CrcOStreamBuf → CrcOStreamBuf
  | [], bytes, stream => (stream.write bytes).drain
  | size :: sizes, bytes, stream =>
      writeAll sizes (bytes.drop size) ((stream.write (bytes.take size)).drain)

end CrcOStreamBuf

/-- `SerializeMetadata`, with the sizes the buffer is drained in. -/
def serializeMetadata (quantizer : Quantizer cfg Sq8) (index : Index cfg Sq8)
    (sizes : List Nat) : Except Status (List UInt8) :=
  match serializeMetadataImpl quantizer index with
  | .error error => .error error
  | .ok payload =>
      let stream := CrcOStreamBuf.empty.writeAll sizes payload
      .ok (stream.target ++ putLE 4 (Crc32.finish stream.crc).toNat)

/-- `k_invalid_node_id`. -/
def kInvalidNodeId : Nat := 2 ^ 64 - 1

/-- What an index is constructed with. -/
structure Options where
  vectorStorageType : Int
  graphEncoding : Nat
  vecFileCapacity : Nat
deriving DecidableEq, Repr

/-- An index as it is constructed, over files that may be there; `none` when its store
throws. -/
def Index.construct (options : Options) (file : ByteBuffer.ByteFile)
    (deletedFlags : Nat → Bool) : Option (Index cfg Sq8) :=
  let fresh (paged : Option (Store cfg)) : Index cfg Sq8 :=
    { vectorStorageType := options.vectorStorageType
      paged := paged
      graphEncoding := options.graphEncoding
      entryPoint := kInvalidNodeId
      maxLayer := -1
      nodes := []
      tombstonedInternalIds := []
      updatedRealToInternal := ∅
      updatedInternalToReal := ∅
      updateBloom := BloomFilter.reset 512
      nextUpdateInternalId := kFirstUpdateId
      checkpointLsn := 0
      checkpointLiveCount := -1
      idMode := 0 }
  if options.vectorStorageType = 1 then
    (Store.construct cfg options.vecFileCapacity file deletedFlags).map
      fun st => fresh (some st)
  else some (fresh none)

end AsterVec.IndexMetadata

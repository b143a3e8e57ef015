import AsterVec.IndexMetadata
import AsterVec.PagedGrowth

/-!
A saved index is loaded again: what the writer puts into each part of the file the loader
reads back, past all of its guards and both checksums.
-/

namespace AsterVec.IndexMetadata

open AsterVec.LittleEndian
open AsterVec.Loading
open AsterVec.PagedVectorStorage

variable {cfg : Config} {Sq8 : Type}

/-- Layers are distinct, and layers, counts and ids fit their fields. -/
structure LayersFit (layers : List (Int × List Nat)) : Prop where
  nodup : (layers.map Prod.fst).Nodup
  length_lt : layers.length < 2 ^ 64
  layer_range : ∀ entry ∈ layers, -2 ^ 31 ≤ entry.1 ∧ entry.1 < 2 ^ 31
  count_lt : ∀ entry ∈ layers, entry.2.length < 2 ^ 64
  id_lt : ∀ entry ∈ layers, ∀ id ∈ entry.2, id < 2 ^ 64

/-- An index made with these options: keys of maps and sets are distinct, numbers fit their
fields, and the paged store, when there is one, is one that stores and loads give, grown by
doubling from the capacity of the options. -/
structure Index.Made (options : Options) (index : Index cfg Sq8) : Prop where
  type_eq : index.vectorStorageType = options.vectorStorageType
  type_range : -2 ^ 31 ≤ index.vectorStorageType ∧ index.vectorStorageType < 2 ^ 31
  paged_eq : index.vectorStorageType = 1 → ∃ st, index.paged = some st ∧ st.Saved ∧
    st.updateLocations.entries.length ≤ Store.maxTableElements ∧
    Store.Doubled options.vecFileCapacity st.totalVectors
  encoding_eq : index.graphEncoding = options.graphEncoding
  encoding_lt : index.graphEncoding < 2 ^ 32
  entryPoint_lt : index.entryPoint < 2 ^ 64
  maxLayer_range : -2 ^ 31 ≤ index.maxLayer ∧ index.maxLayer < 2 ^ 31
  nodes_nodup : (index.nodes.map Prod.fst).Nodup
  nodes_length_lt : index.nodes.length < 2 ^ 64
  node_lt : ∀ entry ∈ index.nodes, entry.1 < 2 ^ 64
  layers_fit : ∀ entry ∈ index.nodes, LayersFit entry.2.neighbors
  tombstones_nodup : index.tombstonedInternalIds.Nodup
  tombstones_length_lt : index.tombstonedInternalIds.length < 2 ^ 64
  tombstone_lt : ∀ id ∈ index.tombstonedInternalIds, id < 2 ^ 64
  updates_length_lt : index.updatedRealToInternal.entries.length < 2 ^ 64
  update_lt : ∀ entry ∈ index.updatedRealToInternal.entries,
    entry.1 < 2 ^ 64 ∧ entry.2 < 2 ^ 64
  nextUpdateId_lt : index.nextUpdateInternalId < 2 ^ 64
  checkpointLsn_lt : index.checkpointLsn < 2 ^ 64
  checkpointLiveCount_range :
    -2 ^ 63 ≤ index.checkpointLiveCount ∧ index.checkpointLiveCount < 2 ^ 63
  idMode_le : index.idMode ≤ 1

/-! Fields -/

theorem yields_check {condition : Prop} [Decidable condition] (hcondition : condition)
    (error : Status) : Yields (check condition error) [] () := by
  unfold check
  rw [if_pos hcondition]
  exact Yields.pure ()

theorem yields_number8 {value : Nat} (hvalue : value < 2 ^ 64) (short : Status) :
    Yields (number 8 short) (putLE 8 value) value :=
  Yields.number (by simpa using hvalue) short

theorem yields_number4 {value : Nat} (hvalue : value < 2 ^ 32) (short : Status) :
    Yields (number 4 short) (putLE 4 value) value :=
  Yields.number (by simpa using hvalue) short

theorem yields_number2 {value : Nat} (hvalue : value < 2 ^ 16) (short : Status) :
    Yields (number 2 short) (putLE 2 value) value :=
  Yields.number (by simpa using hvalue) short

theorem yields_signed4 {value : Int} (hvalue : -2 ^ 31 ≤ value ∧ value < 2 ^ 31)
    (short : Status) : Yields (signed 4 short) (putInt 4 value) value :=
  Yields.signed (by simp; omega) (by simp; omega) short

theorem yields_signed8 {value : Int} (hvalue : -2 ^ 63 ≤ value ∧ value < 2 ^ 63)
    (short : Status) : Yields (signed 8 short) (putInt 8 value) value :=
  Yields.signed (by simp; omega) (by simp; omega) short

/-- A loop that reads items as they are. -/
theorem yields_many {α : Type} {body : Load Status α} {put : α → List UInt8} (items : List α)
    (hbody : ∀ item ∈ items, Yields body (put item) item) :
    Yields (many body items.length) (items.flatMap put) items := by
  have hmany := Yields.many (f := id) items hbody
  rwa [List.map_id] at hmany

/-- Items of at least `width` bytes pass the guard of their count. -/
theorem length_le_div {α : Type} {put : α → List UInt8} {width bytesLeft : Nat}
    (items : List α) (hpos : 0 < width) (hwidth : ∀ item ∈ items, width ≤ (put item).length)
    (hleft : (items.flatMap put).length ≤ bytesLeft) : items.length ≤ bytesLeft / width := by
  have hlength : width * items.length ≤ (items.flatMap put).length := by
    clear hleft
    induction items with
    | nil => simp
    | cons item items ih =>
        have hrest := ih fun other hother => hwidth other (List.mem_cons_of_mem _ hother)
        have hfirst := hwidth item List.mem_cons_self
        rw [List.flatMap_cons, List.length_append, List.length_cons, Nat.mul_succ]
        omega
  rw [Nat.le_div_iff_mul_le hpos, Nat.mul_comm]
  exact hlength.trans hleft

/-! Nodes -/

theorem yields_layer {entry : Int × List Nat} (hlayer : -2 ^ 31 ≤ entry.1 ∧ entry.1 < 2 ^ 31)
    (hcount : entry.2.length < 2 ^ 64) (hids : ∀ id ∈ entry.2, id < 2 ^ 64) :
    Yields loadLayer (putLayer entry) entry := by
  refine (yields_signed4 hlayer _).bind ((yields_number8 hcount _).bind
    (Yields.left fun bytesLeft hleft => ?_))
  have hguard : entry.2.length ≤ bytesLeft / 8 :=
    length_le_div entry.2 (by decide) (fun id _ => by simp) hleft
  exact (yields_check hguard _).seq
    ((yields_many entry.2 fun id hid => yields_number8 (hids id hid) _).map fun ids =>
      (entry.1, ids))

/-- Entries with distinct keys go in one after the other. -/
theorem foldl_emplace {α κ : Type} (key : α → κ) (emplace : List α → α → List α)
    (hnew : ∀ front entry, key entry ∉ front.map key → emplace front entry = front ++ [entry])
    (entries : List α) :
    ∀ front : List α, ((front ++ entries).map key).Nodup →
      entries.foldl emplace front = front ++ entries := by
  induction entries with
  | nil => exact fun front _ => (List.append_nil front).symm
  | cons entry entries ih =>
      intro front hnodup
      have hfresh : key entry ∉ front.map key := by
        rw [List.map_append, List.map_cons] at hnodup
        intro hmem
        exact (List.nodup_append.mp hnodup).2.2 _ hmem _ List.mem_cons_self rfl
      rw [List.foldl_cons, hnew front entry hfresh, ih _ (by rwa [List.append_assoc]),
        List.append_assoc]
      rfl

theorem emplaceLayer_new (front : List (Int × List Nat)) (entry : Int × List Nat)
    (hfresh : entry.1 ∉ front.map Prod.fst) : emplaceLayer front entry = front ++ [entry] := by
  induction front with
  | nil => rfl
  | cons found front ih =>
      rw [List.map_cons, List.mem_cons, not_or] at hfresh
      rw [emplaceLayer, if_neg (Ne.symm hfresh.1), ih hfresh.2]
      rfl

theorem length_floats (quantizer : Quantizer cfg Sq8) (vector : Point cfg Sq8) :
    (vector.floats quantizer).length = 4 * cfg.dim := by
  cases vector with
  | point bytes length_eq => exact length_eq
  | q8 data => exact quantizer.length_dequantize data

/-- A node as it is loaded: its vector is quantized again. -/
def requantize (quantizer : Quantizer cfg Sq8) (entry : Nat × Node cfg Sq8) :
    Nat × Node cfg Sq8 :=
  (entry.1, ⟨entry.1, .q8 (quantizer.quantize (entry.2.vector.floats quantizer)),
    entry.2.neighbors⟩)

theorem yields_node (quantizer : Quantizer cfg Sq8) {entry : Nat × Node cfg Sq8}
    (hid : entry.1 < 2 ^ 64) (hfit : LayersFit entry.2.neighbors) :
    Yields (loadNode quantizer) (putNode quantizer entry) (requantize quantizer entry) := by
  have hlength := length_floats quantizer entry.2.vector
  have hdim : (entry.2.vector.floats quantizer).length / 4 = cfg.dim := by omega
  have hlt : cfg.dim < 2 ^ 64 := by
    have hfits := cfg.fits
    unfold kPageSize at hfits
    omega
  unfold putNode
  simp only [hdim]
  refine (yields_number8 hid _).bind ((yields_number8 hlt _).bind
    ((yields_check rfl _).seq (Yields.left fun bytesLeft hleft => ?_)))
  rw [List.length_append, hlength] at hleft
  refine (yields_check (by omega) _).seq ((Yields.read hlength _).bind
    ((yields_number8 hfit.length_lt _).bind (Yields.left fun bytesLeft hleft => ?_)))
  have hguard : entry.2.neighbors.length ≤ bytesLeft / 12 :=
    length_le_div entry.2.neighbors (by decide) (fun layer _ => by simp [putLayer]; omega) hleft
  have hlayers := foldl_emplace Prod.fst emplaceLayer emplaceLayer_new entry.2.neighbors []
    hfit.nodup
  rw [List.nil_append] at hlayers
  have hmany := (yields_many entry.2.neighbors fun layer hlayer =>
    yields_layer (hfit.layer_range layer hlayer) (hfit.count_lt layer hlayer)
      (hfit.id_lt layer hlayer)).map fun layers => ((entry.1,
        ⟨entry.1, .q8 (quantizer.quantize (entry.2.vector.floats quantizer)),
          layers.foldl emplaceLayer []⟩) : Nat × Node cfg Sq8)
  rw [hlayers] at hmany
  exact (yields_check hguard _).seq hmany

theorem yields_nodes (quantizer : Quantizer cfg Sq8) {nodes : List (Nat × Node cfg Sq8)}
    (hnodup : (nodes.map Prod.fst).Nodup) (hids : ∀ entry ∈ nodes, entry.1 < 2 ^ 64)
    (hfit : ∀ entry ∈ nodes, LayersFit entry.2.neighbors) :
    Yields (loadNodes quantizer nodes.length) (nodes.flatMap (putNode quantizer))
      (nodes.map (requantize quantizer)) := by
  refine Yields.left fun bytesLeft hleft => ?_
  have hguard : nodes.length ≤ bytesLeft / 24 :=
    length_le_div nodes (by decide) (fun entry _ => by simp [putNode]; omega) hleft
  have hmany := (Yields.many nodes fun entry hentry =>
    yields_node quantizer (hids entry hentry) (hfit entry hentry)).map
      fun nodes => nodes.foldl emplaceNode []
  have hkeys : ((nodes.map (requantize quantizer)).map Prod.fst).Nodup := by
    rwa [List.map_map]
  rw [foldl_emplace Prod.fst emplaceNode (fun _ _ hfresh => if_neg hfresh) _ [] hkeys] at hmany
  exact (yields_check hguard _).seq hmany

/-! The rest of the graph -/

theorem yields_tombstones {ids : List Nat} (hnodup : ids.Nodup) (hids : ∀ id ∈ ids, id < 2 ^ 64) :
    Yields (loadTombstones ids.length) (ids.flatMap (putLE 8)) ids := by
  refine Yields.left fun bytesLeft hleft => ?_
  have hguard : ids.length ≤ bytesLeft / 8 :=
    length_le_div ids (by decide) (fun id _ => by simp) hleft
  have hmany := (yields_many ids fun id hid => yields_number8 (hids id hid)
    (.ioError "failed to read deleted ids")).map List.dedup
  rw [hnodup.dedup] at hmany
  exact (yields_check hguard _).seq hmany

theorem yields_update {entry : (_ : Nat) × Nat} (hentry : entry.1 < 2 ^ 64 ∧ entry.2 < 2 ^ 64) :
    Yields loadUpdate (putUpdate entry) entry :=
  (yields_number8 hentry.1 _).bind ((yields_number8 hentry.2 _).last (Yields.pure _))

theorem yields_updates {entries : List ((_ : Nat) × Nat)} {nextUpdateId : Nat}
    (hlength : entries.length < 2 ^ 64) (hnext : nextUpdateId < 2 ^ 64)
    (hentries : ∀ entry ∈ entries, entry.1 < 2 ^ 64 ∧ entry.2 < 2 ^ 64) :
    Yields (loadUpdates kMetadataVersion)
      (putLE 8 entries.length ++ (putLE 8 nextUpdateId ++ entries.flatMap putUpdate))
      (entries, nextUpdateId) := by
  refine (yields_number8 hlength _).bind ((yields_number8 hnext _).bind
    (Yields.left fun bytesLeft hleft => ?_))
  have hguard : entries.length ≤ bytesLeft / 16 :=
    length_le_div entries (by decide) (fun entry _ => by simp [putUpdate]) hleft
  exact (yields_check hguard _).seq ((yields_many entries fun entry hentry =>
    yields_update (hentries entry hentry)).map fun entries => (entries, nextUpdateId))

theorem metaHeaderCrc_lt (header : MetaHeaderV3) : metaHeaderCrc header < 2 ^ 32 :=
  UInt32.toNat_lt _

section Header

variable {index : Index cfg Sq8} {options : Options}

/-- The fields of a header, up to its checksum. -/
theorem yields_header (hmade : index.Made options) {fresh : Index cfg Sq8}
    (hencoding : fresh.graphEncoding = index.graphEncoding) :
    Yields (loadHeader fresh) (index.header.bytes ++ putLE 4 (metaHeaderCrc index.header))
      index.header := by
  unfold MetaHeaderV3.bytes
  simp only [List.append_assoc]
  refine (Yields.read (show kMetadataMagic.length = 8 from rfl) _).bind ?_
  refine (yields_check rfl _).seq ?_
  refine (yields_number4 (show kMetadataVersion < 2 ^ 32 by decide) _).bind ?_
  refine (yields_check (by decide) _).seq ?_
  refine (yields_number8 hmade.entryPoint_lt _).bind ?_
  refine (yields_signed4 hmade.maxLayer_range _).bind ?_
  refine (yields_number8 hmade.nodes_length_lt _).bind ?_
  refine (yields_number8 hmade.tombstones_length_lt _).bind ?_
  rw [if_pos (show 3 ≤ kMetadataVersion by decide)]
  refine (yields_number4 hmade.encoding_lt _).bind ?_
  refine (yields_number4 (metaHeaderCrc_lt index.header) _).last ?_
  refine (yields_check rfl _).seq ?_
  exact (yields_check hencoding.symm _).seq (Yields.pure _)

/-- `PeekGraphEncoding` reads the same header. -/
theorem yields_peek (hmade : index.Made options) :
    Yields peekGraphEncoding (index.header.bytes ++ putLE 4 (metaHeaderCrc index.header))
      index.graphEncoding := by
  unfold MetaHeaderV3.bytes
  simp only [List.append_assoc]
  refine (Yields.read (show kMetadataMagic.length = 8 from rfl) _).bind ?_
  refine (yields_check rfl _).seq ?_
  refine (yields_number4 (show kMetadataVersion < 2 ^ 32 by decide) _).bind ?_
  refine (yields_check (by decide) _).seq ?_
  rw [if_neg (show ¬ kMetadataVersion < 3 by decide)]
  refine (yields_number8 hmade.entryPoint_lt _).bind ?_
  refine (yields_signed4 hmade.maxLayer_range _).bind ?_
  refine (yields_number8 hmade.nodes_length_lt _).bind ?_
  refine (yields_number8 hmade.tombstones_length_lt _).bind ?_
  refine (yields_number4 hmade.encoding_lt _).bind ?_
  refine (yields_number4 (metaHeaderCrc_lt index.header) _).last ?_
  exact (yields_check rfl _).seq (Yields.pure _)

/-- What is loaded of the graph. -/
def Index.loaded (quantizer : Quantizer cfg Sq8) (index : Index cfg Sq8) : Loaded cfg Sq8 where
  header := index.header
  nodes := index.nodes.map (requantize quantizer)
  tombstones := index.tombstonedInternalIds
  updates := index.updatedRealToInternal.entries
  nextUpdateId := index.nextUpdateInternalId

theorem yields_graph (quantizer : Quantizer cfg Sq8) (hmade : index.Made options)
    {fresh : Index cfg Sq8} (hencoding : fresh.graphEncoding = index.graphEncoding)
    (htype : fresh.vectorStorageType = index.vectorStorageType) :
    Yields (loadGraph quantizer fresh)
      ((index.header.bytes ++ putLE 4 (metaHeaderCrc index.header)) ++
        (index.nodes.flatMap (putNode quantizer) ++
        (index.tombstonedInternalIds.flatMap (putLE 8) ++
        ((putLE 8 index.updatedRealToInternal.entries.length ++
          (putLE 8 index.nextUpdateInternalId ++
          index.updatedRealToInternal.entries.flatMap putUpdate)) ++
        putInt 4 index.vectorStorageType))))
      (index.loaded quantizer) := by
  refine (yields_header hmade hencoding).bind ?_
  refine (yields_nodes quantizer hmade.nodes_nodup hmade.node_lt hmade.layers_fit).bind ?_
  refine (yields_tombstones hmade.tombstones_nodup hmade.tombstone_lt).bind ?_
  refine (yields_updates hmade.updates_length_lt hmade.nextUpdateId_lt hmade.update_lt).bind ?_
  refine (yields_signed4 hmade.type_range _).last ?_
  exact (yields_check htype.symm _).seq (Yields.pure _)

theorem yields_trailer (hmade : index.Made options) :
    Yields (loadTrailer kMetadataVersion)
      (putLE 8 index.checkpointLsn ++ (putInt 8 index.checkpointLiveCount ++
        putLE 4 index.idMode))
      (index.checkpointLsn, index.checkpointLiveCount, index.idMode) := by
  refine (yields_number8 hmade.checkpointLsn_lt _).bind ?_
  refine (yields_signed8 hmade.checkpointLiveCount_range _).bind ?_
  refine Yields.left fun bytesLeft hleft => ?_
  rw [putLE_length] at hleft
  have hmode := hmade.idMode_le
  rw [if_neg (show ¬ bytesLeft = 0 by omega)]
  refine (yields_number4 (show index.idMode < 2 ^ 32 by omega) _).last ?_
  exact (yields_check hmode _).seq (Yields.pure _)

end Header

/-! The block of the paged store -/

section Paged

variable {st fresh : Store cfg}

theorem yields_pagedHeader (hsaved : st.Saved) :
    Yields (loadPagedHeader cfg)
      (putLE 4 Store.kMetaVersion ++ (putLE 8 st.totalVectors ++ (putLE 8 cfg.dim ++
        (putLE 8 cfg.vectorsPerPage ++ (putLE 8 st.pages.length ++
        putLE 8 st.sectionIdxToKey.length)))))
      st.header := by
  have hmaxVectors : Store.maxVectorElements = 2 ^ 61 - 1 := rfl
  have hmaxTable : Store.maxTableElements = 2 ^ 60 - 1 := rfl
  have htotal : st.totalVectors ≤ Store.maxVectorElements := hsaved.savable.total_le
  have hpages : st.pages.length ≤ Store.maxTableElements := hsaved.savable.pages_le
  have hkeys : st.sectionIdxToKey.length ≤ Store.maxTableElements := hsaved.savable.keys_le
  have hfits := cfg.fits
  have hvpp := Store.vectorsPerPage_lt cfg
  unfold kPageSize at hfits
  refine (yields_number4 (show Store.kMetaVersion < 2 ^ 32 by decide) _).bind ?_
  refine (yields_number8 (show st.totalVectors < 2 ^ 64 by omega) _).bind ?_
  refine (yields_number8 (show cfg.dim < 2 ^ 64 by omega) _).bind ?_
  refine (yields_number8 (show cfg.vectorsPerPage < 2 ^ 64 by omega) _).bind ?_
  refine (yields_number8 (show st.pages.length < 2 ^ 64 by omega) _).bind ?_
  refine (yields_number8 (show st.sectionIdxToKey.length < 2 ^ 64 by omega) _).last ?_
  refine (yields_check (by decide) _).seq ?_
  exact (yields_check ⟨rfl, rfl⟩ _).seq (Yields.pure _)

/-- The growth loop ends at the capacity that was saved. -/
theorem yields_expandCapacity {total : Nat}
    (hgrow : Store.growCapacity fresh.totalVectors total = some total)
    (hmax : total ≤ Store.maxVectorElements) :
    ∃ grown, Yields (expandCapacity fresh total) [] grown := by
  unfold expandCapacity
  split
  · exact ⟨fresh, Yields.pure fresh⟩
  · have hdouble : Yields (ε := Status) (double (if fresh.totalVectors = 0 then total
        else fresh.totalVectors) total) [] total := by
      intro rest
      exact eval_double_of_some hgrow
    exact ⟨_, hdouble.seq ((yields_check hmax _).seq (Yields.pure _))⟩

theorem yields_page {page : PageMeta} (hused : page.usedSlots ≤ cfg.vectorsPerPage)
    (hsection : -2 ^ 31 ≤ page.sectionIdx ∧ page.sectionIdx < 2 ^ 31) :
    Yields (loadPage cfg) (Store.putPage page) page := by
  have hlt := Store.vectorsPerPage_lt cfg
  refine (yields_signed4 hsection _).bind ?_
  refine (yields_number2 (show page.usedSlots < 2 ^ 16 by omega) _).last ?_
  exact (yields_check hused _).seq (Yields.pure _)

theorem yields_pageIndex {page : Int} (hrange : -1 ≤ page ∧ page ≤ Store.int32Max) :
    Yields loadPageIndex (putInt 8 page) page := by
  have hmax : Store.int32Max = 2 ^ 31 - 1 := rfl
  refine (yields_signed8 ⟨by omega, by omega⟩ _).last ?_
  exact (yields_check hrange _).seq (Yields.pure _)

theorem yields_updateLoc {entry : (_ : Nat) × UpdateLoc} (hid : entry.1 < 2 ^ 64)
    (hpage : 0 ≤ entry.2.page ∧ entry.2.page < 2 ^ 60) (hslot : entry.2.slot < 2 ^ 16) :
    Yields loadUpdateLoc (Store.putUpdateLoc entry) entry := by
  refine (yields_number8 hid _).bind ?_
  refine (yields_signed8 ⟨by omega, by omega⟩ _).bind ?_
  exact (yields_number2 hslot _).last (Yields.pure _)

theorem yields_pagedTables (hsaved : st.Saved)
    (hupdates : st.updateLocations.entries.length ≤ Store.maxTableElements)
    (grown : Store cfg) :
    Yields (loadPagedTables st.header grown)
      (st.pages.flatMap Store.putPage ++ (st.sectionIdxToKey.flatMap (putLE 8) ++
        (putLE 8 st.idToPage.length ++ (putLE 8 st.idToSlotInPage.length ++
        (st.idToPage.flatMap (putInt 8) ++ (st.idToSlotInPage.flatMap (putLE 2) ++
        (putLE 8 st.updateLocations.entries.length ++
          st.updateLocations.entries.flatMap Store.putUpdateLoc)))))))
      (grown.rebuild st.tables) := by
  obtain ⟨hoffers, hfit, hsavable⟩ := hsaved
  have hmaxVectors : Store.maxVectorElements = 2 ^ 61 - 1 := rfl
  have hmaxTable : Store.maxTableElements = 2 ^ 60 - 1 := rfl
  have htotal : st.totalVectors ≤ Store.maxVectorElements := hsavable.total_le
  have hpageLength := hfit.pages_length
  have hslotLength := hfit.slots_length
  refine (yields_many st.pages fun page hpage =>
    yields_page (hoffers.used_le page hpage) (hsavable.section_range page hpage)).bind ?_
  refine (yields_check hsavable.keys_le _).seq ?_
  refine (yields_many st.sectionIdxToKey fun key hkey =>
    yields_number8 (hsavable.keys_lt key hkey) _).bind ?_
  refine (yields_number8 (show st.idToPage.length < 2 ^ 64 by omega) _).bind ?_
  refine (yields_number8 (show st.idToSlotInPage.length < 2 ^ 64 by omega) _).bind ?_
  refine (yields_check ⟨hpageLength, hslotLength⟩ _).seq ?_
  refine (yields_many st.idToPage fun page hpage =>
    yields_pageIndex (hsavable.page_range page hpage)).bind ?_
  refine (yields_many st.idToSlotInPage fun slot hslot =>
    yields_number2 (hsavable.slot_lt slot hslot) _).bind ?_
  have hlocs : Yields (loadUpdateLocs st.header.version)
      (putLE 8 st.updateLocations.entries.length ++
        st.updateLocations.entries.flatMap Store.putUpdateLoc)
      st.updateLocations.entries := by
    unfold loadUpdateLocs
    rw [if_pos (show 2 ≤ st.header.version from Nat.le_refl 2)]
    refine (yields_number8
      (show st.updateLocations.entries.length < 2 ^ 64 by omega) _).bind ?_
    refine (yields_check hupdates _).seq (yields_many _ fun entry hentry => ?_)
    obtain ⟨-, hid, hpage, hplaces⟩ := hsavable.update entry hentry
    exact yields_updateLoc hid ⟨hpage, Store.page_lt_of_places hsavable hplaces⟩
      (Store.slot_lt_of_places hoffers hplaces)
  refine hlocs.last ?_
  exact (yields_check (Store.directLocsValid_tables hsavable) _).seq (Yields.pure _)

end Paged

/-! The whole file -/

theorem writeAll_eq (sizes : List Nat) (bytes : List UInt8) (stream : CrcOStreamBuf)
    (hbuf : stream.buf = []) :
    CrcOStreamBuf.writeAll sizes bytes stream =
      ⟨stream.target ++ bytes, [], Crc32.update stream.crc bytes⟩ := by
  induction sizes generalizing bytes stream with
  | nil =>
      unfold CrcOStreamBuf.writeAll CrcOStreamBuf.write CrcOStreamBuf.drain
      rw [hbuf]
      rfl
  | cons size sizes ih =>
      unfold CrcOStreamBuf.writeAll
      rw [ih _ _ rfl]
      unfold CrcOStreamBuf.write CrcOStreamBuf.drain Crc32.update
      simp only [hbuf, List.nil_append, List.append_assoc, List.take_append_drop,
        ← List.foldl_append]

/-- The checksum behind a payload of the present version lets it through. -/
theorem payload_append {body : List UInt8} {rest : List UInt8}
    (hbody : body = kMetadataMagic ++ (putLE 4 kMetadataVersion ++ rest)) :
    payload (body ++ putLE 4 (crc32 body)) = .ok body := by
  have hlength : (body ++ putLE 4 (crc32 body)).length = body.length + 4 := by
    rw [List.length_append, putLE_length]
  have hlong : 12 ≤ body.length := by
    rw [hbody, List.length_append, List.length_append, putLE_length]
    change 12 ≤ 8 + (4 + rest.length)
    omega
  have hversion : valueLE (((body ++ putLE 4 (crc32 body)).drop 8).take 4) =
      kMetadataVersion := by
    conv_lhs => rw [hbody]
    rfl
  have hcrc : valueLE (putLE 4 (crc32 body)) = crc32 body :=
    valueLE_putLE (by
      have hlt := UInt32.toNat_lt (Crc32.finish (Crc32.update Crc32.kInit body))
      unfold crc32
      simpa using hlt)
  unfold payload
  rw [if_neg (by omega), hversion, if_pos (by decide), hlength, Nat.add_sub_cancel,
    List.take_left, List.drop_left, hcrc]
  exact if_pos rfl

section Whole

variable {index fresh : Index cfg Sq8} {options : Options}

/-- An index as it was constructed with the options. -/
structure Fresh (options : Options) (fresh : Index cfg Sq8) : Prop where
  type_eq : fresh.vectorStorageType = options.vectorStorageType
  encoding_eq : fresh.graphEncoding = options.graphEncoding
  paged_eq : options.vectorStorageType = 1 →
    ∃ st, fresh.paged = some st ∧ st.totalVectors = options.vecFileCapacity

theorem fresh_construct {file : ByteBuffer.ByteFile} {deletedFlags : Nat → Bool}
    (hconstruct : Index.construct options file deletedFlags = some fresh) :
    Fresh options fresh := by
  unfold Index.construct at hconstruct
  simp only at hconstruct
  split at hconstruct
  · rcases Option.map_eq_some_iff.mp hconstruct with ⟨st, hst, rfl⟩
    exact ⟨rfl, rfl, fun _ => ⟨st, rfl, Store.construct_totalVectors hst⟩⟩
  · rename_i htype
    cases hconstruct
    exact ⟨rfl, rfl, fun hpaged => absurd hpaged htype⟩

variable (fresh) in
/-- The block of a saved store and the trailer behind it. -/
theorem yields_block (hmade : index.Made options) {loaded : Loaded cfg Sq8}
    (hversion : loaded.header.version = kMetadataVersion) {st opened : Store cfg}
    (hsaved : st.Saved) (hupdates : st.updateLocations.entries.length ≤ Store.maxTableElements)
    (hgrow : Store.growCapacity opened.totalVectors st.totalVectors = some st.totalVectors) :
    ∃ paged, Yields (loadPagedHeader cfg >>= fun header => loadBlock fresh loaded opened header)
      (st.serializeMetadata ++ (putLE 8 index.checkpointLsn ++
        (putInt 8 index.checkpointLiveCount ++ putLE 4 index.idMode)))
      (fresh.restore loaded (some paged)
        (index.checkpointLsn, index.checkpointLiveCount, index.idMode)) := by
  obtain ⟨grown, hgrown⟩ := yields_expandCapacity hgrow hsaved.savable.total_le
  have htables := yields_pagedTables hsaved hupdates grown
  have htrailer := yields_trailer hmade
  rw [← hversion] at htrailer
  refine ⟨grown.rebuild st.tables, ?_⟩
  have hblock : Yields (loadBlock fresh loaded opened st.header) _
      (fresh.restore loaded (some (grown.rebuild st.tables))
        (index.checkpointLsn, index.checkpointLiveCount, index.idMode)) :=
    hgrown.seq (htables.bind (htrailer.last (Yields.pure _)))
  have hbytes : Yields
      (loadPagedHeader cfg >>= fun header => loadBlock fresh loaded opened header) _
      (fresh.restore loaded (some (grown.rebuild st.tables))
        (index.checkpointLsn, index.checkpointLiveCount, index.idMode)) :=
    (yields_pagedHeader hsaved).bind hblock
  simp only [List.append_assoc] at hbytes
  unfold Store.serializeMetadata
  simp only [List.append_assoc]
  exact hbytes

/-- What is loaded behind the graph. -/
theorem yields_storage (hmade : index.Made options) (hfresh : Fresh options fresh)
    {loaded : Loaded cfg Sq8} (hversion : loaded.header.version = kMetadataVersion) :
    ∃ block paged, putPaged index = .ok block ∧
      Yields (if fresh.vectorStorageType = 1 then
          match fresh.paged with
          | some st => do
              let header ← loadPagedHeader cfg
              loadBlock fresh loaded st header
          | none => fail (.ioError "paged vector storage not available")
        else do
          let trailer ← loadTrailer loaded.header.version
          pure (fresh.restore loaded fresh.paged trailer))
        (block ++ (putLE 8 index.checkpointLsn ++ (putInt 8 index.checkpointLiveCount ++
          putLE 4 index.idMode)))
        (fresh.restore loaded paged
          (index.checkpointLsn, index.checkpointLiveCount, index.idMode)) := by
  have htype := hfresh.type_eq.trans hmade.type_eq.symm
  unfold putPaged
  rw [htype]
  by_cases hpaged : index.vectorStorageType = 1
  · obtain ⟨st, hst, hsaved, hupdates, hdoubled⟩ := hmade.paged_eq hpaged
    obtain ⟨opened, hopened, hcapacity⟩ := hfresh.paged_eq (hmade.type_eq.symm.trans hpaged)
    have hfits := Store.capacityFits_of_doubled hsaved.savable.total_le hdoubled
    unfold Store.CapacityFits at hfits
    rw [← hcapacity] at hfits
    obtain ⟨paged, hblock⟩ := yields_block fresh hmade hversion hsaved hupdates hfits
    refine ⟨st.serializeMetadata, some paged, ?_, ?_⟩
    · rw [if_pos hpaged, hst]
    · rw [if_pos hpaged, hopened]
      exact hblock
  · refine ⟨[], fresh.paged, if_neg hpaged, ?_⟩
    rw [if_neg hpaged, hversion]
    exact (yields_trailer hmade).last (Yields.pure _)

/-- The program loads what the writer wrote. -/
theorem yields_impl (quantizer : Quantizer cfg Sq8) (hmade : index.Made options)
    (hfresh : Fresh options fresh) :
    ∃ rest paged,
      serializeMetadataImpl quantizer index =
        .ok (index.header.bytes ++ (putLE 4 (metaHeaderCrc index.header) ++ rest)) ∧
      Yields (deserializeMetadataImpl quantizer fresh)
        (index.header.bytes ++ (putLE 4 (metaHeaderCrc index.header) ++ rest))
        (fresh.restore (index.loaded quantizer) paged
          (index.checkpointLsn, index.checkpointLiveCount, index.idMode)) := by
  have hgraph := yields_graph quantizer hmade
    (hfresh.encoding_eq.trans hmade.encoding_eq.symm)
    (hfresh.type_eq.trans hmade.type_eq.symm)
  obtain ⟨block, paged, hblock, hstorage⟩ :=
    yields_storage hmade hfresh (show (index.loaded quantizer).header.version = _ from rfl)
  have hwhole : Yields (deserializeMetadataImpl quantizer fresh) _ _ := hgraph.bind hstorage
  simp only [List.append_assoc] at hwhole
  refine ⟨_, paged, ?_, hwhole⟩
  unfold serializeMetadataImpl
  rw [hblock]

end Whole

/-- What is back after a load: everything, but that vectors have been quantized again. -/
structure Restored (quantizer : Quantizer cfg Sq8) (index loaded : Index cfg Sq8) : Prop where
  entryPoint_eq : loaded.entryPoint = index.entryPoint
  maxLayer_eq : loaded.maxLayer = index.maxLayer
  neighbors_eq : loaded.nodes.map (fun entry => (entry.1, entry.2.neighbors)) =
    index.nodes.map fun entry => (entry.1, entry.2.neighbors)
  vectors_eq : loaded.nodes.map (fun entry => (entry.1, entry.2.vector.floats quantizer)) =
    index.nodes.map fun entry => (entry.1,
      quantizer.dequantize (quantizer.quantize (entry.2.vector.floats quantizer)))
  tombstones_eq : loaded.tombstonedInternalIds = index.tombstonedInternalIds
  forward_eq : ∀ r, loaded.updatedRealToInternal.lookup r = index.updatedRealToInternal.lookup r
  reverse_sound : ∀ i r, loaded.updatedInternalToReal.lookup i = some r →
    index.updatedRealToInternal.lookup r = some i
  reverse_complete : ∀ r i, index.updatedRealToInternal.lookup r = some i →
    ∃ r', loaded.updatedInternalToReal.lookup i = some r'
  bloom : ∀ r i, index.updatedRealToInternal.lookup r = some i →
    loaded.updateBloom.mightContain r = true
  nextUpdateId_eq : loaded.nextUpdateInternalId = index.nextUpdateInternalId
  checkpointLsn_eq : loaded.checkpointLsn = index.checkpointLsn
  checkpointLiveCount_eq : loaded.checkpointLiveCount = index.checkpointLiveCount
  idMode_eq : loaded.idMode = index.idMode

theorem lookup_forwardMap (updated : AList fun _ : Nat => Nat) (r : Nat) :
    (forwardMap updated.entries).lookup r = updated.lookup r := by
  unfold forwardMap
  rw [Store.lookup_foldl_insert _ _ r updated.nodupKeys, AList.lookup_empty, Option.or_none]
  rfl

theorem restored_restore (quantizer : Quantizer cfg Sq8) (index fresh : Index cfg Sq8)
    (paged : Option (Store cfg)) :
    Restored quantizer index (fresh.restore (index.loaded quantizer) paged
      (index.checkpointLsn, index.checkpointLiveCount, index.idMode)) where
  entryPoint_eq := rfl
  maxLayer_eq := rfl
  neighbors_eq := List.map_map
  vectors_eq := List.map_map
  tombstones_eq := rfl
  forward_eq := lookup_forwardMap _
  reverse_sound := by
    intro i r hlookup
    rcases IdTables.lookup_reverseEntries index.updatedRealToInternal.entries ∅ i with
      ⟨entry, hmem, rfl, hfound⟩ | ⟨-, hkept⟩
    · cases hfound.symm.trans hlookup
      exact AList.mem_lookup_iff.mpr hmem
    · rw [AList.lookup_empty] at hkept
      cases hkept.symm.trans hlookup
  reverse_complete := by
    intro r i hlookup
    rcases IdTables.lookup_reverseEntries index.updatedRealToInternal.entries ∅ i with
      ⟨entry, -, -, hfound⟩ | ⟨hnone, -⟩
    · exact ⟨entry.1, hfound⟩
    · exact absurd rfl (hnone ⟨r, i⟩ (AList.mem_lookup_iff.mp hlookup))
  bloom := by
    intro r i hlookup
    apply BloomFilter.mightContain_foldl_add (BloomFilter.bitsFor_ne_zero (by omega))
    rw [← AList.mem_keys, ← AList.lookup_isSome]
    change ((forwardMap index.updatedRealToInternal.entries).lookup r).isSome = true
    rw [lookup_forwardMap, hlookup]
    rfl
  nextUpdateId_eq := rfl
  checkpointLsn_eq := rfl
  checkpointLiveCount_eq := rfl
  idMode_eq := rfl

/-- However the buffer of the checksum is drained, an index constructed with the same
options loads the file of a saved one: every part is back, and the encoding can be peeked. -/
theorem loads_saved (quantizer : Quantizer cfg Sq8) {options : Options}
    {index fresh : Index cfg Sq8} (hmade : index.Made options) {file : ByteBuffer.ByteFile}
    {deletedFlags : Nat → Bool}
    (hconstruct : Index.construct options file deletedFlags = some fresh) (sizes : List Nat) :
    ∃ bytes, serializeMetadata quantizer index sizes = .ok bytes ∧
      (∃ steps loaded,
        (step^[steps] (deserializeMetadata quantizer fresh bytes)).control =
          .ended (.ok loaded) ∧ Restored quantizer index loaded) ∧
      ∃ rest, eval peekGraphEncoding bytes = .done index.graphEncoding rest := by
  obtain ⟨rest, paged, hserialize, hyields⟩ :=
    yields_impl quantizer hmade (fresh_construct hconstruct)
  have hpeek := yields_peek hmade
  generalize hbody : index.header.bytes ++ (putLE 4 (metaHeaderCrc index.header) ++ rest) =
    body at hserialize hyields
  obtain ⟨steps, hends⟩ := hyields.ends
  refine ⟨body ++ putLE 4 (crc32 body), ?_, ⟨steps, _, ?_, restored_restore _ _ fresh paged⟩, ?_⟩
  · unfold serializeMetadata
    rw [hserialize]
    simp only [writeAll_eq _ _ CrcOStreamBuf.empty rfl]
    rfl
  · have hfront : body = kMetadataMagic ++ (putLE 4 kMetadataVersion ++
        (putLE 8 index.entryPoint ++ (putInt 4 index.maxLayer ++
        (putLE 8 index.nodes.length ++ (putLE 8 index.tombstonedInternalIds.length ++
        (putLE 4 index.graphEncoding ++ (putLE 4 (metaHeaderCrc index.header) ++ rest))))))) := by
      rw [← hbody]
      unfold MetaHeaderV3.bytes
      simp only [List.append_assoc]
      rfl
    unfold deserializeMetadata
    rw [payload_append hfront]
    exact hends
  · refine ⟨rest ++ putLE 4 (crc32 body), ?_⟩
    rw [← hpeek, ← hbody]
    simp only [List.append_assoc]

/-- In one dimension every vector is its own minimum, and quantization keeps it. -/
def tinyQuantizer : Quantizer Store.tinyConfig {bytes : List UInt8 // bytes.length = 4} where
  quantize bytes := ⟨(bytes ++ [0, 0, 0, 0]).take 4, by simp⟩
  dequantize := Subtype.val
  length_dequantize := Subtype.property

def tinyOptions : Options := ⟨1, 1, 2⟩

/-- One upper-layer node, an updated and a dead vector. -/
def tinyIndex : Index Store.tinyConfig {bytes : List UInt8 // bytes.length = 4} where
  vectorStorageType := 1
  paged := some Store.roomForTwo
  graphEncoding := 1
  entryPoint := 5
  maxLayer := 2
  nodes := [(5, ⟨5, .q8 ⟨[0, 0, 128, 63], rfl⟩, [(1, [7, 8]), (2, [])]⟩)]
  tombstonedInternalIds := [4]
  updatedRealToInternal := (∅ : AList fun _ : Nat => Nat).insert 4 (2 ^ 63)
  updatedInternalToReal := (∅ : AList fun _ : Nat => Nat).insert (2 ^ 63) 4
  updateBloom := (BloomFilter.reset 512).add 4
  nextUpdateInternalId := 2 ^ 63 + 1
  checkpointLsn := 12
  checkpointLiveCount := 3
  idMode := 0

theorem tinyIndex_made : tinyIndex.Made tinyOptions where
  type_eq := rfl
  type_range := by decide
  paged_eq _ := ⟨Store.roomForTwo, rfl, Store.saved_construct Store.construct_roomForTwo,
    Nat.zero_le _, .inr ⟨0, rfl⟩⟩
  encoding_eq := rfl
  encoding_lt := by decide
  entryPoint_lt := by decide
  maxLayer_range := by decide
  nodes_nodup := by decide
  nodes_length_lt := by decide
  node_lt := by simp [tinyIndex]
  layers_fit := by
    intro entry hentry
    rw [List.mem_singleton.mp hentry]
    exact ⟨by decide, by decide, by decide, by decide, by decide⟩
  tombstones_nodup := by decide
  tombstones_length_lt := by decide
  tombstone_lt := by decide
  updates_length_lt := by decide
  update_lt := by simp [tinyIndex, AList.insert, List.kinsert]
  nextUpdateId_lt := by decide
  checkpointLsn_lt := by decide
  checkpointLiveCount_range := by decide
  idMode_le := by decide

theorem loads_tinyIndex :
    ∃ bytes, serializeMetadata tinyQuantizer tinyIndex [3, 100] = .ok bytes ∧
      (∃ steps loaded,
        (step^[steps] (deserializeMetadata tinyQuantizer
          ((Index.construct tinyOptions ByteBuffer.ByteFile.empty fun _ => false).get rfl)
          bytes)).control = .ended (.ok loaded) ∧ Restored tinyQuantizer tinyIndex loaded) ∧
      ∃ rest, eval peekGraphEncoding bytes = .done tinyIndex.graphEncoding rest :=
  loads_saved tinyQuantizer tinyIndex_made (Option.some_get _).symm [3, 100]

end AsterVec.IndexMetadata

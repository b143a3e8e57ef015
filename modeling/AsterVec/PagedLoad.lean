import AsterVec.PagedMetadata
import AsterVec.PagedStores

/-!
The store a load produces.  An accepted stream fixes the page table and the
locations; the slots put on offer are those no id holds, and the buffers and the
page cache are empty.
-/

namespace AsterVec.PagedVectorStorage

open AsterVec.ByteBuffer
open AsterVec.IdTypes
open AsterVec.LittleEndian

variable {cfg : Config}

namespace Store

/-- One-dimensional vectors without a page cache. -/
def tinyConfig : Config := ⟨1, 0, 0, Nat.one_pos, oneDim_fits⟩

def tinyRecord (byte : UInt8) : Record tinyConfig :=
  ⟨List.replicate 9 byte, rfl⟩

/-- An empty store for two direct ids. -/
def roomForTwo : Store tinyConfig :=
  (Store.construct tinyConfig 2 ByteFile.empty fun _ => false).get rfl

theorem construct_roomForTwo :
    Store.construct tinyConfig 2 ByteFile.empty (fun _ => false) = some roomForTwo := rfl

/-! What an accepted stream contains -/

theorem construct_totalVectors {capacity : Nat} {file : ByteFile}
    {deletedFlags : Nat → Bool} {st : Store cfg}
    (hconstruct : construct cfg capacity file deletedFlags = some st) :
    st.totalVectors = capacity := by
  unfold construct at hconstruct
  split at hconstruct
  · cases hconstruct
  · cases hconstruct
    rfl

theorem growCapacity_of_le {totalVectors minCapacity : Nat}
    (hle : minCapacity ≤ totalVectors) :
    growCapacity totalVectors minCapacity = some totalVectors := by
  have hstart : (if totalVectors = 0 then minCapacity else totalVectors) =
      totalVectors := by
    split <;> omega
  unfold growCapacity doubleUntil
  rw [hstart, if_neg (by omega)]

/-- The tables a reader accepts: arrays of the announced length and page indices
that fit the in-memory array. -/
structure MetaTables.Accepted (header : MetaHeader) (pages : List PageMeta)
    (tables : MetaTables) : Prop where
  pages_eq : tables.pages = pages
  page_length : tables.idToPage.length = header.totalVectors
  slot_length : tables.idToSlot.length = header.totalVectors
  page_range : ∀ page ∈ tables.idToPage, -1 ≤ page ∧ page ≤ int32Max

theorem require_eq_some {condition : Bool} {bytes rest : List UInt8} {u : Unit}
    (hrun : (require condition).run bytes = some (u, rest)) :
    condition = true ∧ rest = bytes := by
  change (if condition = true then some ((), bytes) else none) = _ at hrun
  split at hrun
  · cases hrun
    exact ⟨by assumption, rfl⟩
  · cases hrun

theorem readPage_used_le {vectorsPerPage : Nat} {bytes rest : List UInt8}
    {page : PageMeta}
    (hrun : (readPage vectorsPerPage).run bytes = some (page, rest)) :
    page.usedSlots ≤ vectorsPerPage := by
  simp only [readPage, StateT.run_bind, Option.bind_eq_bind,
    Option.bind_eq_some_iff] at hrun
  obtain ⟨⟨sectionIdx, _⟩, -, ⟨used, _⟩, -, ⟨_, _⟩, hrequire, hpure⟩ := hrun
  have hle := (require_eq_some hrequire).1
  cases hpure
  simpa using hle

theorem readPages_used_le {header : MetaHeader} {bytes rest : List UInt8}
    {pages : List PageMeta}
    (hrun : (readPages cfg header).run bytes = some (pages, rest)) :
    ∀ page ∈ pages, page.usedSlots ≤ cfg.vectorsPerPage :=
  (getMany_spec (fun page : PageMeta => page.usedSlots ≤ cfg.vectorsPerPage)
    (fun _ _ _ hread => readPage_used_le hread) _ _ _ _ hrun).2

theorem readPageIndex_range {bytes rest : List UInt8} {page : Int}
    (hrun : readPageIndex.run bytes = some (page, rest)) :
    -1 ≤ page ∧ page ≤ int32Max := by
  simp only [readPageIndex, StateT.run_bind, Option.bind_eq_bind,
    Option.bind_eq_some_iff] at hrun
  obtain ⟨⟨value, _⟩, -, ⟨_, _⟩, hrequire, hpure⟩ := hrun
  have hrange := (require_eq_some hrequire).1
  cases hpure
  simpa using hrange

theorem readTables_accepted {header : MetaHeader} {pages : List PageMeta}
    {bytes rest : List UInt8} {tables : MetaTables}
    (hrun : (readTables header pages).run bytes = some (tables, rest)) :
    tables.Accepted header pages := by
  simp only [readTables, StateT.run_bind, Option.bind_eq_bind,
    Option.bind_eq_some_iff] at hrun
  obtain ⟨⟨keys, _⟩, -, ⟨pageSize, _⟩, -, ⟨slotSize, _⟩, -, ⟨_, _⟩, hrequire,
    ⟨idToPage, _⟩, hpages, ⟨idToSlot, _⟩, hslots, ⟨updateLocs, _⟩, -, hpure⟩ := hrun
  have hsizes := (require_eq_some hrequire).1
  simp only [decide_eq_true_eq] at hsizes
  obtain ⟨hpageLength, hpageRange⟩ := getMany_spec
    (fun page : Int => -1 ≤ page ∧ page ≤ int32Max)
    (fun _ _ _ hread => readPageIndex_range hread) _ _ _ _ hpages
  obtain ⟨hslotLength, -⟩ := getMany_spec (fun _ => True)
    (fun _ _ _ _ => trivial) _ _ _ _ hslots
  cases hpure
  exact ⟨rfl, hpageLength.trans hsizes.1, hslotLength.trans hsizes.2, hpageRange⟩

/-- The parts of an accepted stream, and the capacity it leaves the store
with. -/
structure Accepts (st : Store cfg) (stream rest : List UInt8) (header : MetaHeader)
    (tables : MetaTables) (grown : Store cfg) : Prop where
  parse_eq : (parseMetadata cfg).run stream = some ((header, tables), rest)
  used_le : ∀ page ∈ tables.pages, page.usedSlots ≤ cfg.vectorsPerPage
  page_length : tables.idToPage.length = header.totalVectors
  slot_length : tables.idToSlot.length = header.totalVectors
  page_range : ∀ page ∈ tables.idToPage, -1 ≤ page ∧ page ≤ int32Max
  locs_valid : directLocsValid tables = true
  capacity : growCapacity st.totalVectors header.totalVectors =
    some grown.totalVectors
  grown_eq : ∃ total idToPage idToSlotInPage, grown = { st with
    totalVectors := total
    idToPage := idToPage
    idToSlotInPage := idToSlotInPage }

theorem expandCapacity_returned {st grown : Store cfg} {minCapacity : Nat}
    (hexpand : st.expandCapacity minCapacity = (.returned (), grown)) :
    growCapacity st.totalVectors minCapacity = some grown.totalVectors ∧
      ∃ total idToPage idToSlotInPage, grown = { st with
        totalVectors := total
        idToPage := idToPage
        idToSlotInPage := idToSlotInPage } := by
  unfold expandCapacity at hexpand
  split at hexpand
  · rename_i hle
    cases hexpand
    exact ⟨growCapacity_of_le hle, _, _, _, rfl⟩
  · split at hexpand
    · cases hexpand
    · rename_i target hgrow
      split at hexpand
      · cases hexpand
      · cases hexpand
        exact ⟨hgrow, _, _, _, rfl⟩

theorem deserializeMetadata_accepts {st loaded : Store cfg}
    {stream rest : List UInt8}
    (hload : st.deserializeMetadata stream = .returned (some (loaded, rest))) :
    ∃ header tables grown, Accepts st stream rest header tables grown ∧
      loaded = rebuild grown tables := by
  unfold deserializeMetadata at hload
  split at hload
  · cases hload
  · rename_i header body hheader
    split at hload
    · cases hload
    · split at hload
      · cases hload
      · split at hload
        · cases hload
        · cases hload
        · rename_i grown hgrown
          have hexpanded : growCapacity st.totalVectors header.totalVectors =
                some grown.totalVectors ∧
              ∃ total idToPage idToSlotInPage, grown = { st with
                totalVectors := total
                idToPage := idToPage
                idToSlotInPage := idToSlotInPage } := by
            split at hgrown
            · exact expandCapacity_returned hgrown
            · cases hgrown
              exact ⟨growCapacity_of_le (by omega), _, _, _, rfl⟩
          split at hload
          · cases hload
          · rename_i pages tail hpages
            split at hload
            · cases hload
            · split at hload
              · cases hload
              · rename_i tables rest' htables
                split at hload
                · rename_i hvalid
                  cases hload
                  have haccepted := readTables_accepted htables
                  have hparse : (parseMetadata cfg).run stream =
                      some ((header, tables), rest) := by
                    simp only [parseMetadata, StateT.run_bind, hheader, hpages, htables,
                      Option.bind_eq_bind, Option.bind_some]
                    rfl
                  refine ⟨header, tables, grown, ⟨hparse, ?_,
                    haccepted.page_length, haccepted.slot_length,
                    haccepted.page_range, hvalid, hexpanded.1, hexpanded.2⟩, rfl⟩
                  rw [haccepted.pages_eq]
                  exact readPages_used_le hpages
                · cases hload

/-! The slots put on offer -/

theorem mem_openPagesOf {pages : List PageMeta} {sectionIdx : Int} {pageId : Nat} :
    pageId ∈ openPagesOf cfg pages sectionIdx ↔
      0 ≤ sectionIdx ∧ ∃ page, pages[pageId]? = some page ∧
        page.sectionIdx = sectionIdx ∧ page.usedSlots < cfg.vectorsPerPage := by
  unfold openPagesOf
  by_cases hneg : sectionIdx < 0
  · rw [if_pos hneg]
    simp
    omega
  · rw [if_neg hneg, List.mem_reverse, List.mem_filter, List.mem_range]
    constructor
    · rintro ⟨-, hany⟩
      cases hpage : pages[pageId]? with
      | none =>
          rw [hpage] at hany
          cases hany
      | some page =>
          rw [hpage] at hany
          simp only [Option.any_some, Bool.and_eq_true, decide_eq_true_eq] at hany
          exact ⟨by omega, page, rfl, hany.1, hany.2⟩
    · rintro ⟨-, page, hpage, hsection, hused⟩
      refine ⟨(List.getElem?_eq_some_iff.mp hpage).1, ?_⟩
      rw [hpage]
      simp [hsection, hused]

theorem mem_freeSlotsOf {tables : MetaTables} {sectionIdx : Int}
    {pageId slot : Nat} :
    (pageId, slot) ∈ freeSlotsOf tables sectionIdx ↔
      0 ≤ sectionIdx ∧ ∃ page, tables.pages[pageId]? = some page ∧
        page.sectionIdx = sectionIdx ∧ slot < page.usedSlots ∧
        slotInUse tables pageId slot = false := by
  unfold freeSlotsOf
  by_cases hneg : sectionIdx < 0
  · rw [if_pos hneg]
    simp
    omega
  · rw [if_neg hneg, List.mem_reverse, List.mem_flatMap]
    constructor
    · rintro ⟨other, -, hmem⟩
      cases hpage : tables.pages[other]? with
      | none => simp [hpage] at hmem
      | some page =>
          by_cases hsection : page.sectionIdx = sectionIdx
          · simp only [hpage, if_pos hsection, List.mem_map, List.mem_filter,
              List.mem_range, Prod.mk.injEq] at hmem
            obtain ⟨found, ⟨hused, hfree⟩, rfl, rfl⟩ := hmem
            exact ⟨by omega, page, hpage, hsection, hused, by simpa using hfree⟩
          · simp [hpage, hsection] at hmem
    · rintro ⟨-, page, hpage, hsection, hused, hfree⟩
      refine ⟨pageId, List.mem_range.mpr (List.getElem?_eq_some_iff.mp hpage).1, ?_⟩
      simp only [hpage, if_pos hsection, List.mem_map, List.mem_filter,
        List.mem_range]
      exact ⟨slot, ⟨hused, by simp [hfree]⟩, rfl⟩

/-- A page lists its own slots alone. -/
theorem fst_of_mem_page {tables : MetaTables} {sectionIdx : Int} {pageId : Nat}
    {entry : Nat × Nat} (hmem : entry ∈ (match tables.pages[pageId]? with
      | some page =>
          if page.sectionIdx = sectionIdx then
            ((List.range page.usedSlots).filter fun slot =>
              !slotInUse tables pageId slot).map fun slot => (pageId, slot)
          else []
      | none => [])) : entry.1 = pageId := by
  split at hmem
  · split at hmem
    · obtain ⟨slot, -, rfl⟩ := List.mem_map.mp hmem
      rfl
    · cases hmem
  · cases hmem

theorem nodup_freeSlotsOf (tables : MetaTables) (sectionIdx : Int) :
    (freeSlotsOf tables sectionIdx).Nodup := by
  unfold freeSlotsOf
  split
  · exact List.nodup_nil
  · rw [List.nodup_reverse, List.nodup_flatMap]
    constructor
    · intro pageId _
      split
      · split
        · exact (List.nodup_range.filter _).map fun _ _ heq => (Prod.mk.inj heq).2
        · exact List.nodup_nil
      · exact List.nodup_nil
    · refine List.nodup_range.imp fun hne => ?_
      -- Two pages share no slot, since each lists its own page id.
      intro entry hentry hother
      exact hne ((fst_of_mem_page hentry).symm.trans (fst_of_mem_page hother))

theorem offers_rebuild (st : Store cfg) {tables : MetaTables}
    (hused : ∀ page ∈ tables.pages, page.usedSlots ≤ cfg.vectorsPerPage) :
    (rebuild st tables).Offers := by
  refine ⟨hused, ?_, ?_, ?_⟩
  · intro sectionIdx pageId hmem
    obtain ⟨-, page, hpage, hsection, -⟩ := mem_openPagesOf.mp hmem
    exact ⟨page, hpage, hsection⟩
  · intro sectionIdx entry hmem
    obtain ⟨-, page, hpage, hsection, hslot, -⟩ := mem_freeSlotsOf.mp hmem
    exact ⟨page, hpage, hsection, hslot⟩
  · exact nodup_freeSlotsOf tables

theorem writeBuf_rebuild (st : Store cfg) (tables : MetaTables) (sectionIdx : Int) :
    (rebuild st tables).writeBuf sectionIdx = none :=
  AList.lookup_empty sectionIdx

theorem wellFormed_rebuild (st : Store cfg) (tables : MetaTables) :
    (rebuild st tables).WellFormed := by
  refine ⟨⟨?_, ?_, ?_⟩, ?_, ⟨?_, Nat.zero_le _, Nat.zero_le _, id⟩⟩
  · intro sectionIdx swb hbuf
    rw [writeBuf_rebuild] at hbuf
    cases hbuf
  · intro i sectionIdx hmem
    exact absurd hmem (AList.notMem_empty sectionIdx)
  · have hlive : (rebuild st tables).liveBuffers = 0 :=
      Finset.sum_eq_zero fun _ _ => rfl
    rw [hlive]
    exact Nat.zero_le _
  · intro _ i sectionIdx hmem
    exact absurd hmem (AList.notMem_empty sectionIdx)
  · intro pageId cs hmap
    cases hmap

/-- A new store is sound. -/
theorem sound_construct {capacity : Nat} {file : ByteFile}
    {deletedFlags : Nat → Bool} {fresh : Store cfg}
    (hconstruct : construct cfg capacity file deletedFlags = some fresh) :
    fresh.Sound := by
  unfold construct at hconstruct
  split at hconstruct
  · cases hconstruct
  · cases hconstruct
    refine ⟨⟨⟨?_, ?_, ?_⟩, ?_, ⟨?_, Nat.zero_le _, Nat.zero_le _, id⟩⟩,
      ⟨fun _ hmem => absurd hmem List.not_mem_nil,
        fun _ _ hmem => absurd hmem List.not_mem_nil,
        fun _ _ hmem => absurd hmem List.not_mem_nil, fun _ => List.nodup_nil⟩,
      ⟨List.length_replicate, List.length_replicate⟩⟩
    · intro sectionIdx swb hbuf
      exact absurd ((AList.lookup_empty sectionIdx).symm.trans hbuf) (by simp)
    · intro i sectionIdx hmem
      exact absurd hmem (AList.notMem_empty sectionIdx)
    · exact Nat.le_of_eq (Finset.sum_eq_zero fun _ _ => rfl)
    · intro _ i sectionIdx hmem
      exact absurd hmem (AList.notMem_empty sectionIdx)
    · intro pageId cs hmap
      cases hmap

/-- A loaded store is sound when its capacity is the length of the arrays the
stream brought. -/
theorem sound_rebuild {st grown : Store cfg} {stream rest : List UInt8}
    {header : MetaHeader} {tables : MetaTables}
    (haccepts : Accepts st stream rest header tables grown)
    (hcapacity : grown.totalVectors = header.totalVectors) :
    (rebuild grown tables).Sound :=
  ⟨wellFormed_rebuild grown tables, offers_rebuild grown haccepts.used_le,
    ⟨haccepts.page_length.trans hcapacity.symm,
      haccepts.slot_length.trans hcapacity.symm⟩⟩

end Store

end AsterVec.PagedVectorStorage

import AsterVec.PagedLoad

/-!
Saving and reopening.  The invariant of a run of stores and reopenings makes the
stream of a checkpoint parse back to the tables it was written from; whether the
reopened store finds every id again depends only on the capacity it grows to.
-/

namespace AsterVec.PagedVectorStorage

open AsterVec.ByteBuffer
open AsterVec.IdTypes
open AsterVec.LittleEndian

variable {cfg : Config}

/-- A location inside the page table. -/
def Layout.Places (layout : Layout) (page : Int) (slot : Nat) : Prop :=
  ∃ found, layout.pages[page.toNat]? = some found ∧ slot < found.usedSlots

/-- Every field fits the width the stream stores it with, and every location
lies inside the page table. -/
structure Layout.Savable (layout : Layout) : Prop where
  total_le : layout.totalVectors ≤ Store.maxVectorElements
  pages_le : layout.pages.length ≤ Store.maxTableElements
  keys_le : layout.sectionIdxToKey.length ≤ Store.maxTableElements
  keys_lt : ∀ key ∈ layout.sectionIdxToKey, key < 2 ^ 64
  index_range : ∀ key sectionIdx, layout.sectionKeyToIdx key = some sectionIdx →
    -2 ^ 31 ≤ sectionIdx ∧ sectionIdx < 2 ^ 31
  section_range : ∀ page ∈ layout.pages,
    -2 ^ 31 ≤ page.sectionIdx ∧ page.sectionIdx < 2 ^ 31
  page_range : ∀ page ∈ layout.idToPage, -1 ≤ page ∧ page ≤ Store.int32Max
  slot_lt : ∀ slot ∈ layout.idToSlotInPage, slot < 2 ^ 16
  direct : ∀ loc ∈ layout.idToPage.zip layout.idToSlotInPage, 0 ≤ loc.1 →
    layout.Places loc.1 loc.2
  update : ∀ entry ∈ layout.updateLocations.entries,
    2 ^ 63 ≤ entry.1 ∧ entry.1 < 2 ^ 64 ∧ 0 ≤ entry.2.page ∧
      layout.Places entry.2.page entry.2.slot

namespace Store

theorem vectorsPerPage_lt (cfg : Config) : cfg.vectorsPerPage < 2 ^ 16 := by
  have hle : cfg.vectorsPerPage ≤ kPageSize := Nat.div_le_self _ _
  unfold kPageSize at hle
  omega

/-- Distinct numbers of a range are at most as many as the range is long. -/
theorem length_le_of_nodup_range {items : List Nat} {a n : Nat}
    (hnodup : items.Nodup) (hrange : ∀ i ∈ items, a ≤ i ∧ i < a + n) :
    items.length ≤ n := by
  have hsub : items ⊆ (List.range n).map (a + ·) := by
    intro i hi
    obtain ⟨hlow, hhigh⟩ := hrange i hi
    exact List.mem_map.mpr ⟨i - a, List.mem_range.mpr (by omega), by omega⟩
  have hle := (List.subperm_of_subset hnodup hsub).length_le
  rwa [List.length_map, List.length_range] at hle

/-! Tables and stream -/

/-- The tables of a store. -/
def tables (st : Store cfg) : MetaTables where
  pages := st.pages
  sectionKeys := st.sectionIdxToKey
  idToPage := st.idToPage
  idToSlot := st.idToSlotInPage
  updateLocs := st.updateLocations.entries

def header (st : Store cfg) : MetaHeader where
  version := kMetaVersion
  totalVectors := st.totalVectors
  dim := cfg.dim
  vectorsPerPage := cfg.vectorsPerPage
  pagesSize := st.pages.length
  sectionKeysSize := st.sectionIdxToKey.length

/-- What every operation of a session keeps. -/
structure Saved (st : Store cfg) : Prop where
  offers : st.Offers
  fit : st.LocationsFit
  savable : st.layout.Savable

theorem require_true (bytes : List UInt8) :
    (require true).run bytes = some ((), bytes) := rfl

theorem readPage_putPage {page : PageMeta}
    (hused : page.usedSlots ≤ cfg.vectorsPerPage)
    (hsection : -2 ^ 31 ≤ page.sectionIdx ∧ page.sectionIdx < 2 ^ 31)
    (rest : List UInt8) :
    (readPage cfg.vectorsPerPage).run (putPage page ++ rest) = some (page, rest) := by
  have hlt := vectorsPerPage_lt cfg
  have hidx : (getInt 4).run (putInt 4 page.sectionIdx ++
      (putLE 2 page.usedSlots ++ rest)) =
      some (page.sectionIdx, putLE 2 page.usedSlots ++ rest) :=
    getInt_putInt_append _ (by simp; omega) (by simp; omega)
  have hslots : (getLE 2).run (putLE 2 page.usedSlots ++ rest) =
      some (page.usedSlots, rest) := getLE_putLE_append _ (by simp; omega)
  simp only [readPage, putPage, List.append_assoc, StateT.run_bind, hidx,
    Option.bind_eq_bind, Option.bind_some, hslots, hused]
  rfl

theorem readPageIndex_putInt {page : Int} (hrange : -1 ≤ page ∧ page ≤ int32Max)
    (rest : List UInt8) :
    readPageIndex.run (putInt 8 page ++ rest) = some (page, rest) := by
  have hmax : int32Max = 2 ^ 31 - 1 := rfl
  have hpage : (getInt 8).run (putInt 8 page ++ rest) = some (page, rest) :=
    getInt_putInt_append _ (by simp; omega) (by simp; omega)
  simp only [readPageIndex, StateT.run_bind, hpage, Option.bind_eq_bind,
    Option.bind_some, hrange, and_self, decide_true]
  rfl

theorem readUpdateLoc_putUpdateLoc {entry : (_ : Nat) × UpdateLoc}
    (hid : entry.1 < 2 ^ 64) (hpage : 0 ≤ entry.2.page ∧ entry.2.page < 2 ^ 60)
    (hslot : entry.2.slot < 2 ^ 16) (rest : List UInt8) :
    readUpdateLoc.run (putUpdateLoc entry ++ rest) = some (entry, rest) := by
  have hgetId : (getLE 8).run (putLE 8 entry.1 ++ (putInt 8 entry.2.page ++
      (putLE 2 entry.2.slot ++ rest))) =
      some (entry.1, putInt 8 entry.2.page ++ (putLE 2 entry.2.slot ++ rest)) :=
    getLE_putLE_append _ (by simp; omega)
  have hgetPage : (getInt 8).run (putInt 8 entry.2.page ++
      (putLE 2 entry.2.slot ++ rest)) =
      some (entry.2.page, putLE 2 entry.2.slot ++ rest) :=
    getInt_putInt_append _ (by simp; omega) (by simp; omega)
  have hgetSlot : (getLE 2).run (putLE 2 entry.2.slot ++ rest) =
      some (entry.2.slot, rest) := getLE_putLE_append _ (by simp; omega)
  simp only [readUpdateLoc, putUpdateLoc, List.append_assoc, StateT.run_bind, hgetId,
    Option.bind_eq_bind, Option.bind_some, hgetPage, hgetSlot]
  rfl

theorem page_lt_of_places {layout : Layout} {page : Int} {slot : Nat}
    (hsavable : layout.Savable) (hplaces : layout.Places page slot) :
    page < 2 ^ 60 := by
  obtain ⟨found, hfound, -⟩ := hplaces
  have hlt := (List.getElem?_eq_some_iff.mp hfound).1
  have hle := hsavable.pages_le
  have hmax : maxTableElements = 2 ^ 60 - 1 := rfl
  omega

theorem slot_lt_of_places {st : Store cfg} {page : Int} {slot : Nat}
    (hoffers : st.Offers) (hplaces : st.layout.Places page slot) : slot < 2 ^ 16 := by
  obtain ⟨found, hfound, hslot⟩ := hplaces
  have hle := hoffers.used_le found (List.mem_of_getElem? hfound)
  have hlt := vectorsPerPage_lt cfg
  omega

theorem updateLocations_length_lt {st : Store cfg} (hsavable : st.layout.Savable) :
    st.updateLocations.entries.length < 256 ^ 8 := by
  have hle := length_le_of_nodup_range (a := 2 ^ 63) (n := 2 ^ 63)
    st.updateLocations.nodupKeys fun id hid => by
      obtain ⟨entry, hentry, rfl⟩ := List.mem_map.mp hid
      obtain ⟨hlow, hhigh, -⟩ := hsavable.update entry hentry
      omega
  have hkeys : st.updateLocations.entries.keys.length =
      st.updateLocations.entries.length := List.length_map _
  have hpow : (256 : Nat) ^ 8 = 2 ^ 64 := by decide
  omega

theorem readHeader_put {st : Store cfg} (hsavable : st.layout.Savable)
    (rest : List UInt8) :
    readHeader.run (putLE 4 kMetaVersion ++ (putLE 8 st.totalVectors ++
      (putLE 8 cfg.dim ++ (putLE 8 cfg.vectorsPerPage ++ (putLE 8 st.pages.length ++
      (putLE 8 st.sectionIdxToKey.length ++ rest)))))) = some (st.header, rest) := by
  have hpow : (256 : Nat) ^ 8 = 2 ^ 64 := by decide
  have hversion : kMetaVersion < 256 ^ 4 := by decide
  have htotal : st.totalVectors < 256 ^ 8 := by
    have hle : st.totalVectors ≤ 2 ^ 61 - 1 := hsavable.total_le
    omega
  have hdim : cfg.dim < 256 ^ 8 := by
    have hle : cfg.dim + 8 ≤ 4096 := cfg.fits
    omega
  have hvpp : cfg.vectorsPerPage < 256 ^ 8 := by
    have := vectorsPerPage_lt cfg
    omega
  have hpages : st.pages.length < 256 ^ 8 := by
    have hle : st.pages.length ≤ 2 ^ 60 - 1 := hsavable.pages_le
    omega
  have hkeys : st.sectionIdxToKey.length < 256 ^ 8 := by
    have hle : st.sectionIdxToKey.length ≤ 2 ^ 60 - 1 := hsavable.keys_le
    omega
  simp only [readHeader, StateT.run_bind, getLE_putLE_append _ hversion,
    getLE_putLE_append _ htotal, getLE_putLE_append _ hdim, getLE_putLE_append _ hvpp,
    getLE_putLE_append _ hpages, getLE_putLE_append _ hkeys, Option.bind_eq_bind,
    Option.bind_some]
  rfl

theorem readTables_put {st : Store cfg} (hsaved : st.Saved) (rest : List UInt8) :
    (readTables st.header st.pages).run (st.sectionIdxToKey.flatMap (putLE 8) ++
      (putLE 8 st.idToPage.length ++ (putLE 8 st.idToSlotInPage.length ++
      (st.idToPage.flatMap (putInt 8) ++ (st.idToSlotInPage.flatMap (putLE 2) ++
      (putLE 8 st.updateLocations.entries.length ++
      (st.updateLocations.entries.flatMap putUpdateLoc ++ rest))))))) =
      some (st.tables, rest) := by
  obtain ⟨hoffers, hfit, hsavable⟩ := hsaved
  have hpow : (256 : Nat) ^ 8 = 2 ^ 64 := by decide
  have htotal : st.totalVectors ≤ 2 ^ 61 - 1 := hsavable.total_le
  have hpageLength := hfit.pages_length
  have hslotLength := hfit.slots_length
  have hpageLt : st.idToPage.length < 256 ^ 8 := by omega
  have hslotLt : st.idToSlotInPage.length < 256 ^ 8 := by omega
  have hkeys : ∀ tail, (getMany (getLE 8) st.sectionIdxToKey.length).run
      (st.sectionIdxToKey.flatMap (putLE 8) ++ tail) =
      some (st.sectionIdxToKey, tail) := fun tail =>
    getMany_flatMap _ tail fun key hkey _ =>
      getLE_putLE_append _ (by have := hsavable.keys_lt key hkey; omega)
  have hpages : ∀ tail, (getMany readPageIndex st.idToPage.length).run
      (st.idToPage.flatMap (putInt 8) ++ tail) = some (st.idToPage, tail) := fun tail =>
    getMany_flatMap _ tail fun page hpage tail =>
      readPageIndex_putInt (hsavable.page_range page hpage) tail
  have hslots : ∀ tail, (getMany (getLE 2) st.idToSlotInPage.length).run
      (st.idToSlotInPage.flatMap (putLE 2) ++ tail) =
      some (st.idToSlotInPage, tail) := fun tail =>
    getMany_flatMap _ tail fun slot hslot _ =>
      getLE_putLE_append _ (by have := hsavable.slot_lt slot hslot; simp; omega)
  have hupdates : ∀ tail, (getMany readUpdateLoc
      st.updateLocations.entries.length).run
      (st.updateLocations.entries.flatMap putUpdateLoc ++ tail) =
      some (st.updateLocations.entries, tail) := fun tail =>
    getMany_flatMap _ tail fun entry hentry tail => by
      obtain ⟨-, hid, hpage, hplaces⟩ := hsavable.update entry hentry
      exact readUpdateLoc_putUpdateLoc hid ⟨hpage, page_lt_of_places hsavable hplaces⟩
        (slot_lt_of_places hoffers hplaces) tail
  have hsizes : decide (st.idToPage.length = st.header.totalVectors ∧
      st.idToSlotInPage.length = st.header.totalVectors) = true :=
    decide_eq_true ⟨hpageLength, hslotLength⟩
  have hkeysSize : st.header.sectionKeysSize = st.sectionIdxToKey.length := rfl
  have hversion : 2 ≤ st.header.version := Nat.le_refl 2
  simp only [readTables, readUpdateLocs, StateT.run_bind, hkeysSize, hkeys,
    getLE_putLE_append _ hpageLt, getLE_putLE_append _ hslotLt, hsizes, require_true, hpages,
    hslots,
    if_pos hversion, getLE_putLE_append _ (updateLocations_length_lt hsavable),
    hupdates, Option.bind_eq_bind, Option.bind_some]
  rfl

/-- The stream of a store parses back to its tables. -/
theorem parseMetadata_serializeMetadata {st : Store cfg} (hsaved : st.Saved)
    (rest : List UInt8) :
    (parseMetadata cfg).run (st.serializeMetadata ++ rest) =
      some ((st.header, st.tables), rest) := by
  have hpages : ∀ tail, (readPages cfg st.header).run
      (st.pages.flatMap putPage ++ tail) = some (st.pages, tail) := fun tail =>
    getMany_flatMap _ tail fun page hpage tail => readPage_putPage
      (hsaved.offers.used_le page hpage) (hsaved.savable.section_range page hpage) tail
  simp only [parseMetadata, serializeMetadata, List.append_assoc, StateT.run_bind,
    readHeader_put hsaved.savable, hpages, readTables_put hsaved, Option.bind_eq_bind,
    Option.bind_some]
  rfl

/-! Loading the tables of a store -/

theorem lookup_foldl_insert {β : Type} (entries : List ((_ : Nat) × β)) :
    ∀ (map : AList fun _ : Nat => β) (id : Nat), entries.NodupKeys →
      (entries.foldl (fun map entry => map.insert entry.1 entry.2) map).lookup id =
        (entries.dlookup id).or (map.lookup id) := by
  induction entries with
  | nil => exact fun map id _ => by simp
  | cons entry entries ih =>
      intro map id hnodup
      obtain ⟨hfresh, hrest⟩ := List.nodupKeys_cons.mp hnodup
      rw [List.foldl_cons, ih _ id hrest]
      by_cases hsame : id = entry.1
      · subst hsame
        rw [AList.lookup_insert, List.dlookup_cons_eq, List.dlookup_eq_none.mpr hfresh]
        rfl
      · rw [AList.lookup_insert_ne hsame, List.dlookup_cons_ne _ _ hsame]

/-- Reading back the entries of an update map gives the same map. -/
theorem lookup_updateMap (updates : AList fun _ : Nat => UpdateLoc) (id : Nat) :
    (updateMap updates.entries).lookup id = updates.lookup id := by
  unfold updateMap
  rw [lookup_foldl_insert _ _ id updates.nodupKeys]
  simp [AList.lookup]

/-- Every location of a store is inside its page table. -/
theorem directLocsValid_tables {st : Store cfg} (hsavable : st.layout.Savable) :
    directLocsValid st.tables = true := by
  unfold directLocsValid
  rw [List.all_eq_true]
  intro loc hloc
  rw [Bool.or_eq_true, decide_eq_true_eq]
  by_cases hneg : loc.1 < 0
  · exact .inl hneg
  · obtain ⟨found, hfound, hslot⟩ := hsavable.direct loc hloc (by omega)
    right
    change st.pages[loc.1.toNat]? = some found at hfound
    change (st.pages[loc.1.toNat]?).any _ = true
    rw [hfound]
    simpa using hslot

/-- A load of a store's own stream rebuilds its tables, in a store of the
capacity the growth loop ends at. -/
theorem deserializeMetadata_serializeMetadata {st fresh : Store cfg}
    (hsaved : st.Saved) {target : Nat}
    (hgrow : growCapacity fresh.totalVectors st.totalVectors = some target)
    (hmax : target ≤ maxVectorElements ∨ st.totalVectors ≤ fresh.totalVectors)
    (rest : List UInt8) :
    ∃ grown : Store cfg, grown.totalVectors = target ∧
      fresh.deserializeMetadata (st.serializeMetadata ++ rest) =
        .returned (some (rebuild grown st.tables, rest)) := by
  have hpages : ∀ tail, (readPages cfg st.header).run
      (st.pages.flatMap putPage ++ tail) = some (st.pages, tail) := fun tail =>
    getMany_flatMap _ tail fun page hpage tail => readPage_putPage
      (hsaved.offers.used_le page hpage) (hsaved.savable.section_range page hpage) tail
  have hexpand : ∃ grown : Store cfg, grown.totalVectors = target ∧
      (if fresh.totalVectors < st.totalVectors then
        fresh.expandCapacity st.totalVectors else (.returned (), fresh)) =
        (.returned (), grown) := by
    by_cases hlt : fresh.totalVectors < st.totalVectors
    · have hle : target ≤ maxVectorElements := by
        rcases hmax with hle | hle
        · exact hle
        · omega
      rw [if_pos hlt]
      unfold expandCapacity
      rw [if_neg (by omega), hgrow]
      simp only
      rw [if_neg (by omega)]
      exact ⟨_, rfl, rfl⟩
    · rw [if_neg hlt]
      rw [growCapacity_of_le (by omega)] at hgrow
      exact ⟨fresh, Option.some.inj hgrow, rfl⟩
  obtain ⟨grown, htotal, hgrown⟩ := hexpand
  refine ⟨grown, htotal, ?_⟩
  have hkeys : ¬maxTableElements < st.header.sectionKeysSize :=
    Nat.not_lt.mpr hsaved.savable.keys_le
  unfold deserializeMetadata serializeMetadata
  simp only [List.append_assoc, readHeader_put hsaved.savable]
  rw [if_neg (by simp [header, kMetaVersion]), if_neg (by simp [header])]
  have hheader : (if fresh.totalVectors < st.header.totalVectors then
      fresh.expandCapacity st.header.totalVectors else (.returned (), fresh)) =
      (.returned (), grown) := hgrown
  rw [hheader]
  simp only [hpages, if_neg hkeys, readTables_put hsaved,
    directLocsValid_tables hsaved.savable, if_true]

end Store

end AsterVec.PagedVectorStorage

import AsterVec.PagedCacheTable

/-!
The other ways to read a store: prefetching, the two batch reads, and a change of the
cache's bound between them.  Each batch read fills one row for every id it is asked for.
-/

namespace AsterVec.PagedVectorStorage

open AsterVec.ByteBuffer
open AsterVec.IdTypes

variable {cfg : Config}

/-- The parameters of a store whose cache may hold `m` pages. -/
def Config.withMaxCachedPages (cfg : Config) (m : Nat) : Config :=
  { cfg with maxCachedPages := m }

/-- The record under another bound of the cache. -/
def Record.under (record : Record cfg) (m : Nat) : Record (cfg.withMaxCachedPages m) :=
  ⟨record.bytes, record.length_eq⟩

/-- An id of a batch, by the row its vector goes to. -/
structure MissEntry where
  idx : Nat
  pageId : Nat
  slot : Nat
  deriving DecidableEq

/-- The orders the standard library chooses: in which a hash map gives back the pages put
into it, and in which a sort by page leaves entries of one page. -/
structure Orders where
  hashed : List Nat → List Nat
  hashed_perm : ∀ pages, (hashed pages).Perm pages.dedup
  sorted : List MissEntry → List MissEntry
  sorted_perm : ∀ entries, (sorted entries).Perm entries
  sorted_le : ∀ entries, (sorted entries).Pairwise fun a b => a.pageId ≤ b.pageId

/-- The rows of a batch; `none` is a row the call has not written. -/
abbrev Rows (cfg : Config) := Nat → Option (Record cfg)

namespace Store

/-! The bound of the cache -/

/-- Drop every cached page but keep the slot allocations. -/
def resetPageCache (st : Store cfg) : Store cfg :=
  { st with
    cacheSlots := st.cacheSlots.map fun buf => { buf with pageId := none }
    pageToSlot := fun _ => none
    cachedCount := 0
    fifoHand := 0 }

/-- A cache with more pages than its bound is dropped as a whole, arena included. -/
def evictIfNeeded (st : Store cfg) : Store cfg :=
  if cfg.maxCachedPages = 0 ∨ cfg.maxCachedPages < st.cachedCount then
    { st.resetPageCache with cacheSlots := [] }
  else st

def setMaxCachedPages (m : Nat) (st : Store cfg) : Store (cfg.withMaxCachedPages m) :=
  evictIfNeeded
    { totalVectors := st.totalVectors
      idToPage := st.idToPage
      idToSlotInPage := st.idToSlotInPage
      deletedFlags := st.deletedFlags
      pages := st.pages
      sectionKeyToIdx := st.sectionKeyToIdx
      sectionIdxToKey := st.sectionIdxToKey
      updateLocations := st.updateLocations
      sectionShards := st.sectionShards
      sectionWriteBufsCount := st.sectionWriteBufsCount
      cacheSlots := st.cacheSlots
      pageToSlot := st.pageToSlot
      cachedCount := st.cachedCount
      fifoHand := st.fifoHand
      file := st.file }

/-! Prefetching -/

def prefetchPages : List Nat → List Nat → Store cfg → Outcome Unit × Store cfg
  | [], _, st => (.returned (), st)
  | id :: ids, seenPage, st =>
      match st.pageOf id with
      | none => (.undefined, st)
      | some (.negSucc _) => prefetchPages ids seenPage st
      | some (.ofNat pageId) =>
          if pageId ∈ seenPage then prefetchPages ids seenPage st
          else prefetchPages ids (pageId :: seenPage) (loadPageToCache pageId st)

/-- Load the pages of some ids into the cache; ids without a location are passed over. -/
def prefetchByIds (ids : List Nat) (st : Store cfg) : Outcome Unit × Store cfg :=
  if cfg.maxCachedPages = 0 then (.returned (), st) else prefetchPages ids [] st

/-! Batch reads -/

theorem length_recordBytes (st : Store cfg) (pageId slot : Nat) :
    (slice st.file.bytes (pageId * kPageSize + slot * cfg.recordSize)
      cfg.recordSize).length = cfg.recordSize :=
  slice_length _ _ _

/-- Read of one record past the cache.  The buffer it is read into starts from zeros, so a
short read leaves zeros at its end. -/
def directReadRecord (st : Store cfg) (pageId slot : Nat) : Record cfg :=
  match st.tryReadFromWriteBuf pageId slot with
  | some record => record
  | none =>
      ⟨slice st.file.bytes (pageId * kPageSize + slot * cfg.recordSize) cfg.recordSize,
        length_recordBytes st pageId slot⟩

/-- The place of every id of a batch, from row `idx` on. -/
def missEntries (st : Store cfg) : Nat → List Nat → Outcome (List MissEntry)
  | _, [] => .returned []
  | idx, id :: ids =>
      match st.pageOf id, st.slotOf id with
      | none, _ => .undefined
      | some (.negSucc _), _ => .threw
      | some (.ofNat _), none => .undefined
      | some (.ofNat pageId), some slot =>
          match st.missEntries (idx + 1) ids with
          | .returned entries => .returned (⟨idx, pageId, slot⟩ :: entries)
          | .threw => .threw
          | .undefined => .undefined

/-- Write the rows of the entries whose record is found. -/
def writeFound (find : MissEntry → Option (Record cfg)) (entries : List MissEntry)
    (rows : Rows cfg) : Rows cfg :=
  entries.foldl (fun rows entry =>
    match find entry with
    | some record => Function.update rows entry.idx (some record)
    | none => rows) rows

/-- The first `n` rows. -/
def firstRows (n : Nat) (rows : Rows cfg) : List (Option (Record cfg)) :=
  (List.range n).map rows

/-- What the cache has for an entry, else a direct read. -/
def pageRecord (st : Store cfg) (entry : MissEntry) : Option (Record cfg) :=
  some ((st.tryReadFromCache entry.pageId entry.slot).getD
    (st.directReadRecord entry.pageId entry.slot))

/-- Load one page and read its entries. -/
def readPageRows (entries : List MissEntry) (acc : Rows cfg × Store cfg) (pageId : Nat) :
    Rows cfg × Store cfg :=
  let st := loadPageToCache pageId acc.2
  (writeFound st.pageRecord (entries.filter fun entry => entry.pageId = pageId) acc.1, st)

/-- Read a batch page by page.  Reading moves no record, so every slot is looked up
first. -/
def readVectorsBatch (orders : Orders) (ids : List Nat) (st : Store cfg) :
    Outcome (List (Option (Record cfg))) × Store cfg :=
  match st.missEntries 0 ids with
  | .undefined => (.undefined, st)
  | .threw => (.threw, st)
  | .returned entries =>
      let done := (orders.hashed (entries.map MissEntry.pageId)).foldl
        (readPageRows entries) (fun _ => none, st)
      (.returned (firstRows ids.length done.1), done.2)

/-- Pass 1a: the write buffers. -/
def bufferedRecord (st : Store cfg) (entry : MissEntry) : Option (Record cfg) :=
  st.tryReadFromWriteBuf entry.pageId entry.slot

/-- The cached record of an entry, read without a check of the cache's bound. -/
def cachedRecord (st : Store cfg) (entry : MissEntry) : Option (Record cfg) :=
  (st.cachedImage entry.pageId).map fun image => recordAt cfg image entry.slot

/-- Pass 1b: the pages that are cached already. -/
def hitRecord (st : Store cfg) (entry : MissEntry) : Option (Record cfg) :=
  if 0 < cfg.maxCachedPages then st.cachedRecord entry else none

/-- Pass 2: the loaded pages; one that was evicted again is read directly. -/
def loadedRecord (st : Store cfg) (entry : MissEntry) : Option (Record cfg) :=
  some ((st.cachedRecord entry).getD (st.directReadRecord entry.pageId entry.slot))

/-- The pages of entries sorted by page, each once. -/
def uniquePages (entries : List MissEntry) : List Nat :=
  (entries.map MissEntry.pageId).destutter (· ≠ ·)

/-- Read a batch in passes: what the write buffers hold, what is cached, and then, with
the pages of the rest loaded, the rest. -/
def readVectorsBatchFlat (orders : Orders) (ids : List Nat) (st : Store cfg) :
    Outcome (List (Option (Record cfg))) × Store cfg :=
  match st.missEntries 0 ids with
  | .undefined => (.undefined, st)
  | .threw => (.threw, st)
  | .returned entries =>
      let rows := writeFound st.bufferedRecord entries fun _ => none
      let misses := entries.filter fun entry => (st.bufferedRecord entry).isNone
      let rows := writeFound st.hitRecord misses rows
      let sorted := orders.sorted (misses.filter fun entry => (st.hitRecord entry).isNone)
      let loaded := (uniquePages sorted).foldl (fun st pageId => loadPageToCache pageId st) st
      let rows := writeFound loaded.loadedRecord sorted rows
      (.returned (firstRows ids.length rows), loaded)

/-! What reading leaves alone -/

/-- The step moves no record, changes no page, and keeps the index of the cache exact. -/
structure Undisturbed (st st' : Store cfg) : Prop where
  wellFormed : st'.WellFormed
  layout : st'.layout = st.layout
  keeps : ∀ pageId, Keeps pageId st st'
  exactly : st.cacheTable.Exact → st'.cacheTable.Exact

theorem WellFormed.undisturbed {st : Store cfg} (hwf : st.WellFormed) : Undisturbed st st :=
  ⟨hwf, rfl, fun pageId => Keeps.refl pageId st, id⟩

theorem Undisturbed.trans {st st' st'' : Store cfg} (hfirst : Undisturbed st st')
    (hsecond : Undisturbed st' st'') : Undisturbed st st'' :=
  ⟨hsecond.wellFormed, hsecond.layout.trans hfirst.layout,
    fun pageId => (hfirst.keeps pageId).trans (hsecond.keeps pageId),
    fun hexact => hsecond.exactly (hfirst.exactly hexact)⟩

theorem undisturbed_loadPageToCache {st : Store cfg} (hwf : st.WellFormed) (pageId : Nat) :
    Undisturbed st (loadPageToCache pageId st) := by
  obtain ⟨hloaded, hkeeps, -⟩ := loadPageToCache_spec hwf pageId
  exact ⟨hloaded, layout_loadPageToCache _ _, hkeeps,
    fun hexact => exact_loadPageToCache hwf hexact pageId⟩

theorem undisturbed_loadPages (pages : List Nat) :
    ∀ st : Store cfg, st.WellFormed →
      Undisturbed st (pages.foldl (fun st pageId => loadPageToCache pageId st) st) := by
  induction pages with
  | nil => exact fun st hwf => hwf.undisturbed
  | cons pageId pages ih =>
      intro st hwf
      have hone := undisturbed_loadPageToCache hwf pageId
      exact hone.trans (ih _ hone.wellFormed)

theorem undisturbed_readVectorFromDisk {st : Store cfg} (hwf : st.WellFormed) (id : Nat) :
    Undisturbed st (readVectorFromDisk id st).2 := by
  have hload := fun pageId => undisturbed_loadPageToCache hwf pageId
  unfold readVectorFromDisk
  split
  · exact hwf.undisturbed
  · exact hwf.undisturbed
  · exact hwf.undisturbed
  · unfold readRecordAt
    split
    · exact hwf.undisturbed
    · split
      · exact hwf.undisturbed
      · simp only
        split <;> exact hload _

theorem undisturbed_flushWrites {st : Store cfg} (hwf : st.WellFormed) :
    Undisturbed st st.flushWrites := by
  obtain ⟨hflushed, hkeeps, -⟩ := flushWrites_spec hwf
  refine ⟨hflushed, layout_flushWrites st, hkeeps, fun hexact => ?_⟩
  rw [(steady_flushWrites st).table]
  exact hexact

theorem undisturbed_prefetchPages (ids : List Nat) :
    ∀ (seenPage : List Nat) (st : Store cfg), st.WellFormed →
      Undisturbed st (prefetchPages ids seenPage st).2 := by
  induction ids with
  | nil => exact fun _ st hwf => hwf.undisturbed
  | cons id ids ih =>
      intro seenPage st hwf
      unfold prefetchPages
      split
      · exact hwf.undisturbed
      · exact ih _ st hwf
      · split
        · exact ih _ st hwf
        · have hone := undisturbed_loadPageToCache hwf ‹Nat›
          exact hone.trans (ih _ _ hone.wellFormed)

theorem undisturbed_prefetchByIds {st : Store cfg} (hwf : st.WellFormed) (ids : List Nat) :
    Undisturbed st (prefetchByIds ids st).2 := by
  unfold prefetchByIds
  split
  · exact hwf.undisturbed
  · exact undisturbed_prefetchPages ids [] st hwf

theorem undisturbed_readPageRows (entries : List MissEntry) (pages : List Nat) :
    ∀ (rows : Rows cfg) (st : Store cfg), st.WellFormed →
      Undisturbed st (pages.foldl (readPageRows entries) (rows, st)).2 := by
  induction pages with
  | nil => exact fun _ st hwf => hwf.undisturbed
  | cons pageId pages ih =>
      intro rows st hwf
      have hone := undisturbed_loadPageToCache hwf pageId
      exact hone.trans (ih _ _ hone.wellFormed)

theorem undisturbed_readVectorsBatch {st : Store cfg} (hwf : st.WellFormed)
    (orders : Orders) (ids : List Nat) :
    Undisturbed st (readVectorsBatch orders ids st).2 := by
  unfold readVectorsBatch
  split
  · exact hwf.undisturbed
  · exact hwf.undisturbed
  · exact undisturbed_readPageRows _ _ _ st hwf

theorem undisturbed_readVectorsBatchFlat {st : Store cfg} (hwf : st.WellFormed)
    (orders : Orders) (ids : List Nat) :
    Undisturbed st (readVectorsBatchFlat orders ids st).2 := by
  unfold readVectorsBatchFlat
  split
  · exact hwf.undisturbed
  · exact hwf.undisturbed
  · exact undisturbed_loadPages _ st hwf

/-! What the reads return -/

/-- The id has a slot, and a reader of the slot finds the record. -/
def Serves (st : Store cfg) (id : Nat) (record : Record cfg) : Prop :=
  ∃ pageId slot, st.location id = some (pageId, slot) ∧ slot < cfg.vectorsPerPage ∧
    st.Holds pageId slot record

/-- What a reader that looks into the write buffers first finds in a slot: the buffer's
record, and without a buffer the one every reader finds. -/
structure Shows (st : Store cfg) (pageId slot : Nat) (record : Record cfg) : Prop where
  buffered : ∀ swb, st.bufferHolding pageId = some swb → recordAt cfg swb.data slot = record
  unbuffered : st.bufferHolding pageId = none → st.Holds pageId slot record

/-- The id has a slot that shows the record. -/
def Displays (st : Store cfg) (id : Nat) (record : Record cfg) : Prop :=
  ∃ pageId slot, st.location id = some (pageId, slot) ∧ slot < cfg.vectorsPerPage ∧
    st.Shows pageId slot record

/-- The entry of a row finds the record in its slot. -/
def Finds (st : Store cfg) (entry : MissEntry) (record : Record cfg) : Prop :=
  entry.slot < cfg.vectorsPerPage ∧ st.Holds entry.pageId entry.slot record

theorem Undisturbed.serves {st st' : Store cfg} (hsame : Undisturbed st st') {id : Nat}
    {record : Record cfg} (hserves : st.Serves id record) : st'.Serves id record := by
  obtain ⟨pageId, slot, hlocation, hslot, hholds⟩ := hserves
  exact ⟨pageId, slot, ((sameTables_of_layout_eq hsame.layout).location id).1.trans hlocation,
    hslot, (hsame.keeps pageId).holds hslot hholds⟩

theorem Undisturbed.finds {st st' : Store cfg} (hsame : Undisturbed st st')
    {entry : MissEntry} {record : Record cfg} (hfinds : st.Finds entry record) :
    st'.Finds entry record :=
  ⟨hfinds.1, (hsame.keeps _).holds hfinds.1 hfinds.2⟩

theorem Serves.read {st : Store cfg} (hwf : st.WellFormed) {id : Nat} {record : Record cfg}
    (hserves : st.Serves id record) : (readVectorFromDisk id st).1 = .returned record := by
  obtain ⟨pageId, slot, hlocation, hslot, hholds⟩ := hserves
  rw [readVectorFromDisk_of_location hlocation]
  exact (readRecordAt_spec hwf hslot hholds).1

theorem Holds.buffered {st : Store cfg} {pageId slot : Nat} {record found : Record cfg}
    (hholds : st.Holds pageId slot record)
    (hfound : st.tryReadFromWriteBuf pageId slot = some found) : found = record := by
  obtain ⟨swb, hheld, rfl⟩ := Option.map_eq_some_iff.mp hfound
  have hcontent := hholds.content
  unfold overlaidPage at hcontent
  rwa [hheld] at hcontent

theorem Holds.shows {st : Store cfg} {pageId slot : Nat} {record : Record cfg}
    (hholds : st.Holds pageId slot record) : st.Shows pageId slot record :=
  ⟨fun swb hheld => hholds.buffered (by rw [tryReadFromWriteBuf, hheld]; rfl), fun _ => hholds⟩

theorem Serves.displays {st : Store cfg} {id : Nat} {record : Record cfg}
    (hserves : st.Serves id record) : st.Displays id record := by
  obtain ⟨pageId, slot, hlocation, hslot, hholds⟩ := hserves
  exact ⟨pageId, slot, hlocation, hslot, hholds.shows⟩

theorem Holds.direct {st : Store cfg} {pageId slot : Nat} {record : Record cfg}
    (hholds : st.Holds pageId slot record) : st.directReadRecord pageId slot = record := by
  unfold directReadRecord
  cases hfound : st.tryReadFromWriteBuf pageId slot with
  | some found => exact hholds.buffered hfound
  | none =>
      have hnone : st.bufferHolding pageId = none := Option.map_eq_none_iff.mp hfound
      have hcontent := hholds.content
      rw [overlaidPage_of_none hnone] at hcontent
      rw [← hcontent]
      simp only [recordAt, Record.mk.injEq]
      exact slice_congr fun k _ => by rw [Nat.add_assoc]

theorem Finds.cachedRecord {st : Store cfg} {entry : MissEntry} {record found : Record cfg}
    (hfinds : st.Finds entry record) (hfound : st.cachedRecord entry = some found) :
    found = record := by
  obtain ⟨image, himage, rfl⟩ := Option.map_eq_some_iff.mp hfound
  exact hfinds.2.cached image himage

theorem Finds.loadedRecord {st : Store cfg} {entry : MissEntry} {record : Record cfg}
    (hfinds : st.Finds entry record) : st.loadedRecord entry = some record := by
  unfold Store.loadedRecord
  cases hfound : st.cachedRecord entry with
  | none => exact congrArg some hfinds.2.direct
  | some found => exact congrArg some (hfinds.cachedRecord hfound)

theorem Finds.pageRecord {st : Store cfg} (hwf : st.WellFormed) {entry : MissEntry}
    {record : Record cfg} (hfinds : st.Finds entry record) :
    st.pageRecord entry = some record := by
  unfold Store.pageRecord
  rw [tryReadFromCache_eq st hwf.cache hfinds.1]
  exact hfinds.loadedRecord

/-! The rows of a batch -/

/-- Whatever `find` finds for the entries is what the rows want. -/
def Wanted (want : Rows cfg) (find : MissEntry → Option (Record cfg))
    (entries : List MissEntry) : Prop :=
  ∀ entry ∈ entries, ∀ record, find entry = some record → want entry.idx = some record

theorem wanted_of_finds {st : Store cfg} {want : Rows cfg}
    {find : MissEntry → Option (Record cfg)} {entries : List MissEntry}
    (hfinds : ∀ entry ∈ entries, ∃ record, want entry.idx = some record ∧
      st.Finds entry record)
    (hright : ∀ entry record found, st.Finds entry record → find entry = some found →
      found = record) : Wanted want find entries := by
  intro entry hmem found hfound
  obtain ⟨record, hwant, hfinding⟩ := hfinds entry hmem
  rw [hwant, hright entry record found hfinding hfound]

theorem Wanted.subset {want : Rows cfg} {find : MissEntry → Option (Record cfg)}
    {entries part : List MissEntry} (hwanted : Wanted want find entries)
    (hsub : part ⊆ entries) : Wanted want find part :=
  fun entry hmem => hwanted entry (hsub hmem)

theorem writeFound_keeps {want : Rows cfg} {find : MissEntry → Option (Record cfg)}
    (entries : List MissEntry) :
    ∀ rows : Rows cfg, Wanted want find entries → ∀ i, rows i = want i →
      writeFound find entries rows i = want i := by
  induction entries with
  | nil => exact fun _ _ _ hrow => hrow
  | cons entry entries ih =>
      intro rows hwanted i hrow
      refine ih _ (fun other hother => hwanted other (List.mem_cons_of_mem _ hother)) i ?_
      cases hfind : find entry with
      | none =>
          simp only [hfind]
          exact hrow
      | some record =>
          simp only [hfind, Function.update_apply]
          split
          · rename_i hsame
            rw [hsame]
            exact (hwanted entry List.mem_cons_self record hfind).symm
          · exact hrow

theorem writeFound_found {want : Rows cfg} {find : MissEntry → Option (Record cfg)}
    (entries : List MissEntry) :
    ∀ rows : Rows cfg, Wanted want find entries → ∀ entry ∈ entries,
      (find entry).isSome = true → writeFound find entries rows entry.idx =
        want entry.idx := by
  induction entries with
  | nil => exact fun _ _ _ hmem => absurd hmem List.not_mem_nil
  | cons head entries ih =>
      intro rows hwanted entry hmem hsome
      have hrest : Wanted want find entries :=
        fun other hother => hwanted other (List.mem_cons_of_mem _ hother)
      rcases List.mem_cons.mp hmem with rfl | hmem
      · obtain ⟨record, hfind⟩ := Option.isSome_iff_exists.mp hsome
        refine writeFound_keeps entries _ hrest entry.idx ?_
        simp only [hfind, Function.update_self]
        exact (hwanted entry List.mem_cons_self record hfind).symm
      · exact ih _ hrest entry hmem hsome

/-- The entries of a batch of located ids: one for every row, and what is known of an id's
slot and its record is known of the entry. -/
theorem missEntries_spec {st : Store cfg} (known : Nat → Nat → Record cfg → Prop)
    {ids : List Nat} {records : List (Record cfg)}
    (hknown : List.Forall₂ (fun id record => ∃ pageId slot,
      st.location id = some (pageId, slot) ∧ known pageId slot record) ids records) :
    ∀ (idx : Nat) (want : Rows cfg), (∀ i, want (idx + i) = records[i]?) →
      ∃ entries, st.missEntries idx ids = .returned entries ∧
        (∀ entry ∈ entries, ∃ record, want entry.idx = some record ∧
          known entry.pageId entry.slot record) ∧
        ∀ i < ids.length, ∃ entry ∈ entries, entry.idx = idx + i := by
  induction hknown with
  | nil => exact fun _ _ _ => ⟨[], rfl, by simp, by simp⟩
  | @cons id record ids records hone _ ih =>
      intro idx want hwant
      obtain ⟨pageId, slot, hlocation, hslot⟩ := hone
      obtain ⟨hpageOf, hslotOf⟩ := location_eq_some hlocation
      obtain ⟨entries, hentries, hfinds, hall⟩ := ih (idx + 1) want fun i => by
        rw [Nat.add_assoc, Nat.add_comm 1 i, hwant (i + 1), List.getElem?_cons_succ]
      refine ⟨⟨idx, pageId, slot⟩ :: entries, ?_, ?_, ?_⟩
      · simp only [missEntries, hpageOf, hslotOf, hentries]
      · intro entry hmem
        rcases List.mem_cons.mp hmem with rfl | hmem
        · exact ⟨record, hwant 0, hslot⟩
        · exact hfinds entry hmem
      · intro i hi
        cases i with
        | zero => exact ⟨_, List.mem_cons_self, rfl⟩
        | succ i =>
            obtain ⟨entry, hmem, hidx⟩ := hall i (Nat.lt_of_succ_lt_succ hi)
            exact ⟨entry, List.mem_cons_of_mem _ hmem, by omega⟩

theorem firstRows_eq {rows : Rows cfg} {records : List (Record cfg)}
    (hrows : ∀ i < records.length, rows i = records[i]?) :
    firstRows records.length rows = records.map some := by
  apply List.ext_getElem?
  intro i
  unfold firstRows
  by_cases hi : i < records.length
  · simp [hi, hrows i hi]
  · simp [hi]

/-! Page by page -/

/-- Once a page is read, every row of its entries is right, and right rows stay right. -/
theorem readPageRows_rows {st : Store cfg} (hwf : st.WellFormed) {want : Rows cfg}
    {entries : List MissEntry} (hfinds : ∀ entry ∈ entries, ∃ record,
      want entry.idx = some record ∧ st.Finds entry record) (rows : Rows cfg) (pageId : Nat) :
    (∀ i, rows i = want i → (readPageRows entries (rows, st) pageId).1 i = want i) ∧
      ∀ entry ∈ entries, entry.pageId = pageId →
        (readPageRows entries (rows, st) pageId).1 entry.idx = want entry.idx := by
  have hloaded := undisturbed_loadPageToCache hwf pageId
  have hwanted : Wanted want (loadPageToCache pageId st).pageRecord
      (entries.filter fun entry => entry.pageId = pageId) := by
    refine (wanted_of_finds hfinds ?_).subset (List.filter_subset_self _)
    intro entry record found hfinding hfound
    rw [(hloaded.finds hfinding).pageRecord hloaded.wellFormed] at hfound
    exact (Option.some.inj hfound).symm
  refine ⟨fun i => writeFound_keeps _ rows hwanted i, ?_⟩
  intro entry hmem hpage
  exact writeFound_found _ rows hwanted entry
    (List.mem_filter.mpr ⟨hmem, by simpa using hpage⟩) rfl

theorem readPages_rows {want : Rows cfg} {entries : List MissEntry} (pages : List Nat) :
    ∀ (rows : Rows cfg) (st : Store cfg), st.WellFormed →
      (∀ entry ∈ entries, ∃ record, want entry.idx = some record ∧
        st.Finds entry record) →
      (∀ i, rows i = want i → (pages.foldl (readPageRows entries) (rows, st)).1 i =
        want i) ∧
      ∀ entry ∈ entries, entry.pageId ∈ pages →
        (pages.foldl (readPageRows entries) (rows, st)).1 entry.idx = want entry.idx := by
  induction pages with
  | nil => exact fun _ _ _ _ => ⟨fun _ hrow => hrow, fun _ _ hmem => absurd hmem (by simp)⟩
  | cons pageId pages ih =>
      intro rows st hwf hfinds
      have hloaded := undisturbed_loadPageToCache hwf pageId
      obtain ⟨hkeep, hnew⟩ := readPageRows_rows hwf hfinds rows pageId
      obtain ⟨hkeepRest, hnewRest⟩ := ih (readPageRows entries (rows, st) pageId).1
        (loadPageToCache pageId st) hloaded.wellFormed fun entry hmem => by
          obtain ⟨record, hwant, hfound⟩ := hfinds entry hmem
          exact ⟨record, hwant, hloaded.finds hfound⟩
      refine ⟨fun i hrow => hkeepRest i (hkeep i hrow), ?_⟩
      intro entry hmem hpage
      rcases List.mem_cons.mp hpage with hsame | hrest
      · exact hkeepRest _ (hnew entry hmem hsame)
      · exact hnewRest entry hmem hrest

/-- The batch read returns the record of every id it is asked for. -/
theorem readVectorsBatch_eq {st : Store cfg} (hwf : st.WellFormed) (orders : Orders)
    {ids : List Nat} {records : List (Record cfg)}
    (hserves : List.Forall₂ st.Serves ids records) :
    (readVectorsBatch orders ids st).1 = .returned (records.map some) := by
  obtain ⟨entries, hentries, hfinds, hall⟩ := missEntries_spec
    (fun pageId slot record => slot < cfg.vectorsPerPage ∧ st.Holds pageId slot record)
    hserves 0 (fun i => records[i]?) fun i => by rw [Nat.zero_add]
  obtain ⟨-, hrows⟩ := readPages_rows (orders.hashed (entries.map MissEntry.pageId))
    (fun _ => none) st hwf hfinds
  unfold readVectorsBatch
  simp only [hentries, hserves.length_eq]
  refine congrArg _ (firstRows_eq fun i hi => ?_)
  obtain ⟨entry, hmem, hidx⟩ := hall i (by rw [hserves.length_eq]; exact hi)
  rw [Nat.zero_add] at hidx
  subst hidx
  apply hrows entry hmem
  rw [(orders.hashed_perm _).mem_iff, List.mem_dedup]
  exact List.mem_map_of_mem hmem

/-- So does the one in passes, whichever pass finds a record.  It reads the write buffers
first, so a cached page behind a buffer does not matter. -/
theorem readVectorsBatchFlat_displays {st : Store cfg} (hwf : st.WellFormed) (orders : Orders)
    {ids : List Nat} {records : List (Record cfg)}
    (hdisplays : List.Forall₂ st.Displays ids records) :
    (readVectorsBatchFlat orders ids st).1 = .returned (records.map some) := by
  obtain ⟨entries, hentries, hshows, hall⟩ := missEntries_spec
    (fun pageId slot record => slot < cfg.vectorsPerPage ∧ st.Shows pageId slot record)
    hdisplays 0 (fun i => records[i]?) fun i => by rw [Nat.zero_add]
  unfold readVectorsBatchFlat
  simp only [hentries, hdisplays.length_eq]
  refine congrArg _ (firstRows_eq fun i hi => ?_)
  obtain ⟨entry, hmem, hidx⟩ := hall i (by rw [hdisplays.length_eq]; exact hi)
  rw [Nat.zero_add] at hidx
  subst hidx
  -- Each pass writes right rows only, so the pass that finds the entry decides its row.
  have hbuffered : Wanted (fun i => records[i]?) st.bufferedRecord entries := by
    intro other hother found hfound
    obtain ⟨record, hwant, -, hshow⟩ := hshows other hother
    obtain ⟨swb, hheld, rfl⟩ := Option.map_eq_some_iff.mp hfound
    exact hwant.trans (congrArg some (hshow.buffered swb hheld).symm)
  generalize hmisses : entries.filter (fun entry => (st.bufferedRecord entry).isNone) = misses
  have hfinds : ∀ other ∈ misses, ∃ record, records[other.idx]? = some record ∧
      st.Finds other record := by
    intro other hother
    rw [← hmisses] at hother
    obtain ⟨hother, hnone⟩ := List.mem_filter.mp hother
    obtain ⟨record, hwant, hslot, hshow⟩ := hshows other hother
    exact ⟨record, hwant, hslot, hshow.unbuffered
      (Option.map_eq_none_iff.mp (Option.isNone_iff_eq_none.mp hnone))⟩
  have hhit : Wanted (fun i => records[i]?) st.hitRecord misses := by
    refine wanted_of_finds hfinds fun other record found hfinding hfound => ?_
    unfold hitRecord at hfound
    split at hfound
    · exact hfinding.cachedRecord hfound
    · cases hfound
  generalize hsorted : orders.sorted (misses.filter fun entry =>
    (st.hitRecord entry).isNone) = sorted
  have hsortedSub : sorted ⊆ misses := by
    rw [← hsorted]
    intro other hother
    have hmem := (orders.sorted_perm _).mem_iff.mp hother
    exact (List.mem_filter.mp hmem).1
  generalize hloadedEq : (uniquePages sorted).foldl
    (fun st pageId => loadPageToCache pageId st) st = loaded
  have hloaded : Undisturbed st loaded := hloadedEq ▸ undisturbed_loadPages _ st hwf
  have hlast : Wanted (fun i => records[i]?) loaded.loadedRecord sorted := by
    refine (wanted_of_finds hfinds ?_).subset hsortedSub
    intro other record found hfinding hfound
    rw [(hloaded.finds hfinding).loadedRecord] at hfound
    exact (Option.some.inj hfound).symm
  by_cases hbuf : (st.bufferedRecord entry).isSome = true
  · exact writeFound_keeps _ _ hlast _ (writeFound_keeps _ _ hhit _
      (writeFound_found _ _ hbuffered entry hmem hbuf))
  · have hmiss : entry ∈ misses := by
      rw [← hmisses]
      exact List.mem_filter.mpr ⟨hmem, by simpa using hbuf⟩
    by_cases hhitSome : (st.hitRecord entry).isSome = true
    · exact writeFound_keeps _ _ hlast _
        (writeFound_found _ _ hhit entry hmiss hhitSome)
    · refine writeFound_found _ _ hlast entry ?_ rfl
      rw [← hsorted, (orders.sorted_perm _).mem_iff]
      exact List.mem_filter.mpr ⟨hmiss, by simpa using hhitSome⟩

theorem readVectorsBatchFlat_eq {st : Store cfg} (hwf : st.WellFormed) (orders : Orders)
    {ids : List Nat} {records : List (Record cfg)}
    (hserves : List.Forall₂ st.Serves ids records) :
    (readVectorsBatchFlat orders ids st).1 = .returned (records.map some) :=
  readVectorsBatchFlat_displays hwf orders (hserves.imp fun _ _ hone => hone.displays)

end Store

end AsterVec.PagedVectorStorage

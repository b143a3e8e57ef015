import AsterVec.LayerResults
import AsterVec.PagedMirrors

/-!
The two modes of the layer-0 search over a paged store.  Each way to read meets the cache in
its own order and leaves another cache behind, but in every state a store reaches, the
cached copies show what the pages hold, so all of them decode the same records.
-/

namespace AsterVec.PagedVectorStorage

open AsterVec.ByteBuffer
open AsterVec.IdTypes

variable {cfg : Config}

namespace Store

/-! The store as a reader -/

section

variable {V : Type} (orders : Orders) (dequantize : Record cfg → V)

/-- The vectors of a store.  A read of an id outside the arrays, which no store of fitting
tables meets, counts as one that throws. -/
def reader : LayerSearch.Reader (Store cfg) V where
  hasLocation st id := st.hasLocation id
  readVector id st :=
    match readVectorFromDisk id st with
    | (.returned record, st) => (some (dequantize record), st)
    | (_, st) => (none, st)
  readVectorsBatchFlat ids st :=
    match readVectorsBatchFlat orders ids st with
    | (.returned rows, st) => (rows.mapM fun row => row.map dequantize, st)
    | (_, st) => (none, st)

/-- What the pages hold for an id. -/
def decoded (st : Store cfg) (id : Nat) : Option V :=
  (st.location id).map fun loc => dequantize (recordAt cfg (st.overlaidPage loc.1) loc.2)

end

/-- What the reads of a store rely on. -/
structure Readable (st : Store cfg) : Prop where
  sound : st.Sound
  saved : st.Saved
  sized : st.Sized
  clean : st.Clean

theorem Readable.shows {st : Store cfg} (hreadable : st.Readable) {id pageId slot : Nat}
    (hlocation : st.location id = some (pageId, slot)) :
    slot < cfg.vectorsPerPage ∧
      st.Shows pageId slot (recordAt cfg (st.overlaidPage pageId) slot) := by
  obtain ⟨page, hpage, hused⟩ := used_of_location hreadable.saved hlocation
  have hslot : slot < cfg.vectorsPerPage := Nat.lt_of_lt_of_le hused
    (hreadable.sound.offers.used_le page (List.mem_of_getElem? hpage))
  exact ⟨hslot, hreadable.clean.shows hreadable.sized hslot
    (List.getElem?_eq_some_iff.mp hpage).1⟩

theorem Loads.refl (st : Store cfg) : Loads st st := ⟨[], rfl⟩

theorem Loads.trans {st st' st'' : Store cfg} (hfirst : Loads st st')
    (hsecond : Loads st' st'') : Loads st st'' := by
  obtain ⟨pages, rfl⟩ := hfirst
  obtain ⟨more, rfl⟩ := hsecond
  exact ⟨pages ++ more, (List.foldl_append).symm⟩

/-- What keeps the layout, the file's size and every page keeps a store readable. -/
theorem Readable.of_layout {st st' : Store cfg} (hreadable : st.Readable)
    (hwf : st'.WellFormed) (hlayout : st'.layout = st.layout)
    (hsize : st.file.size ≤ st'.file.size) (hclean : st'.Clean) : st'.Readable := by
  have hsound := hreadable.sound.of_layout hwf hlayout
  have hpages := congrArg (fun layout : Layout => layout.pages.length) hlayout
  refine ⟨hsound, ⟨hsound.offers, hsound.fit, ?_⟩, hreadable.sized.congr hpages hsize,
    hclean⟩
  rw [hlayout]
  exact hreadable.saved.savable

theorem Readable.loads {st st' : Store cfg} (hreadable : st.Readable)
    (hloads : Loads st st') : st'.Readable := by
  have hwf := hreadable.sound.wellFormed
  have hsame := hloads.undisturbed hwf
  exact hreadable.of_layout hsame.wellFormed hsame.layout (hsame.keeps 0).size_le
    (hreadable.clean.of_freshens (hloads.freshens hwf))

/-- Loading pages moves no record and changes none. -/
theorem Loads.decoded {V : Type} (dequantize : Record cfg → V) {st st' : Store cfg}
    (hloads : Loads st st') (hreadable : st.Readable) (id : Nat) :
    st'.decoded dequantize id = st.decoded dequantize id := by
  have hsame := hloads.undisturbed hreadable.sound.wellFormed
  unfold Store.decoded
  rw [((sameTables_of_layout_eq hsame.layout).location id).1]
  cases hlocation : st.location id with
  | none => rfl
  | some loc =>
      have hslot := (hreadable.shows hlocation).1
      simp only [Option.map_some]
      rw [recordAt_congr hslot (hsame.keeps loc.1).overlaid]

theorem readVectorFromDisk_of_unlocated {st : Store cfg} (hfit : st.LocationsFit) {id : Nat}
    (hnone : st.location id = none) : readVectorFromDisk id st = (.threw, st) := by
  have hid : st.hasLocation id = false := by
    rw [← location_isSome hfit, hnone]
    rfl
  obtain ⟨n, hpage⟩ := pageOf_of_unlocated hfit hid
  unfold readVectorFromDisk
  rw [hpage]

section

variable {V : Type} (orders : Orders) (dequantize : Record cfg → V) {st : Store cfg}

theorem readVector_decoded (hreadable : st.Readable) (id : Nat) :
    ((reader orders dequantize).readVector id st).1 = st.decoded dequantize id ∧
      Loads st ((reader orders dequantize).readVector id st).2 := by
  have hloads := loads_readVectorFromDisk id st
  unfold decoded reader
  simp only
  cases hlocation : st.location id with
  | none =>
      rw [readVectorFromDisk_of_unlocated hreadable.sound.fit hlocation]
      exact ⟨rfl, [], rfl⟩
  | some loc =>
      obtain ⟨hslot, hshows⟩ := hreadable.shows hlocation
      have hread := readRecordAt_shows hreadable.sound.wellFormed hslot hshows
      rw [readVectorFromDisk_of_location hlocation] at hloads ⊢
      generalize readRecordAt loc.1 loc.2 st = call at hread hloads
      obtain ⟨outcome, later⟩ := call
      subst hread
      exact ⟨rfl, hloads⟩

theorem readVectorsBatchFlat_decoded (hreadable : st.Readable) {ids : List Nat}
    {found : List V}
    (hfound : List.Forall₂ (fun id v => st.decoded dequantize id = some v) ids found) :
    ((reader orders dequantize).readVectorsBatchFlat ids st).1 = some found ∧
      Loads st ((reader orders dequantize).readVectorsBatchFlat ids st).2 := by
  have hrecords : ∃ records, List.Forall₂ st.Displays ids records ∧
      found = records.map dequantize := by
    induction hfound with
    | nil => exact ⟨[], .nil, rfl⟩
    | cons hone _ ih =>
        obtain ⟨records, hdisplays, rfl⟩ := ih
        obtain ⟨⟨pageId, slot⟩, hlocation, rfl⟩ := Option.map_eq_some_iff.mp hone
        obtain ⟨hslot, hshows⟩ := hreadable.shows hlocation
        exact ⟨_ :: records, .cons ⟨pageId, slot, hlocation, hslot, hshows⟩ hdisplays, rfl⟩
  obtain ⟨records, hdisplays, rfl⟩ := hrecords
  have hread := readVectorsBatchFlat_displays hreadable.sound.wellFormed orders hdisplays
  have hloads := loads_readVectorsBatchFlat orders ids st
  unfold reader
  simp only
  generalize readVectorsBatchFlat orders ids st = call at hread hloads
  obtain ⟨outcome, later⟩ := call
  subst hread
  refine ⟨?_, hloads⟩
  simp only [List.mapM_map]
  exact LayerSearch.mapM_eq_some (by simp [List.forall₂_map_right_iff, List.forall₂_same])

/-- Whatever pages were loaded since, every read returns what the pages held. -/
theorem reads_decoded (hreadable : st.Readable) :
    LayerSearch.Reads (reader orders dequantize) (Loads st) (st.decoded dequantize) where
  located later id hloads := by
    have hkept := hreadable.loads hloads
    rw [← hloads.decoded dequantize hreadable]
    change later.hasLocation id = _
    rw [← location_isSome hkept.sound.fit, decoded, Option.isSome_map]
  one later id hloads := by
    obtain ⟨hread, hmore⟩ := readVector_decoded orders dequantize (hreadable.loads hloads) id
    exact ⟨hread.trans (hloads.decoded dequantize hreadable id), hloads.trans hmore⟩
  batch later ids found hloads hfound := by
    obtain ⟨hread, hmore⟩ := readVectorsBatchFlat_decoded orders dequantize
      (hreadable.loads hloads) (hfound.imp fun id v hone =>
        (hloads.decoded dequantize hreadable id).trans hone)
    exact ⟨hread, hloads.trans hmore⟩

end

end Store

namespace Session

/-! Runs -/

/-- The sessions that stores, reads, flushes, changes of the cache's bound, deletes and
reopenings lead to.  A crash may leave any file that is not shorter than the one the
checkpoint was saved over. -/
inductive Reached (capacity : Nat) : Session cfg → Prop
  | start {file : ByteFile} {deletedFlags : Nat → Bool} {fresh : Store cfg} :
      Store.construct cfg capacity file deletedFlags = some fresh →
      Reached capacity (start fresh)
  | happens {s t : Session cfg} (event : Event cfg) :
      Reached capacity s → s.happens capacity event = some t → Reached capacity t
  | markDeletedAt {s : Session cfg} (id : Nat) (deleted : Bool) : Reached capacity s →
      Reached capacity { s with st := s.st.markDeletedAt id deleted }
  | recover {s : Session cfg} {file : ByteFile} {deletedFlags : Nat → Bool}
      {fresh loaded : Store (cfg.withMaxCachedPages s.maxCachedPages)} {rest : List UInt8} :
      Reached capacity s → s.st.file.size ≤ file.size →
      Store.construct (cfg.withMaxCachedPages s.maxCachedPages) capacity file deletedFlags =
        some fresh →
      fresh.deserializeMetadata s.st.serializeMetadata = .returned (some (loaded, rest)) →
      Reached capacity { s with st := loaded }

/-- What every run keeps, also one that stores ids again behind a live buffer. -/
structure Coherent (capacity : Nat) (s : Session cfg) : Prop where
  readable : s.st.Readable
  exactly : s.st.cacheTable.Exact
  doubled : Store.Doubled capacity s.st.totalVectors

theorem Coherent.start {capacity : Nat} {file : ByteFile} {deletedFlags : Nat → Bool}
    {fresh : Store cfg}
    (hconstruct : Store.construct cfg capacity file deletedFlags = some fresh) :
    Coherent capacity (start fresh) := by
  obtain ⟨hexact, hsized, -, -⟩ := Store.construct_empty hconstruct
  have hclean : fresh.Clean := by
    refine .of_uncached fun pageId => ?_
    unfold Store.construct at hconstruct
    split at hconstruct
    · cases hconstruct
    · cases hconstruct
      rfl
  have hsound := Store.sound_construct hconstruct
  exact ⟨⟨hsound, Store.saved_construct hconstruct, hsized, hclean⟩, hexact,
    (Durable.start hconstruct).doubled⟩

/-- What moves no record and refreshes what it flushes. -/
theorem Coherent.undisturbed {capacity : Nat} {s : Session cfg}
    (hcoherent : s.Coherent capacity)
    {st : Store (cfg.withMaxCachedPages s.maxCachedPages)}
    (hsame : Store.Undisturbed s.st st) (hclean : st.Clean) :
    Coherent capacity { s with st := st } := by
  refine ⟨hcoherent.readable.of_layout hsame.wellFormed hsame.layout
    (hsame.keeps 0).size_le hclean, hsame.exactly hcoherent.exactly, ?_⟩
  rw [show st.totalVectors = s.st.totalVectors from
    congrArg Layout.totalVectors hsame.layout]
  exact hcoherent.doubled

theorem Coherent.loads {capacity : Nat} {s t : Session cfg} (hcoherent : s.Coherent capacity)
    {α : Type} {call : Outcome α × Store (cfg.withMaxCachedPages s.maxCachedPages)}
    (hloads : Store.Loads s.st call.2) (hstep : s.after call = some t) :
    t.Coherent capacity := by
  have hwf := hcoherent.readable.sound.wellFormed
  have hkept := hcoherent.undisturbed (hloads.undisturbed hwf)
    (hcoherent.readable.loads hloads).clean
  obtain ⟨outcome, st⟩ := call
  cases outcome with
  | undefined => cases hstep
  | threw =>
      cases hstep
      exact hkept
  | returned _ =>
      cases hstep
      exact hkept

theorem Coherent.stores {capacity : Nat} {s t : Session cfg} (hcoherent : s.Coherent capacity)
    (id : NodeId) (record : Record cfg) (sectionKey : NodeId)
    (hstep : s.step (.storeEncoded id record sectionKey) = some t) : t.Coherent capacity := by
  have hreadable := hcoherent.readable
  have hsteady := Store.steady_storeEncoded id (record.under s.maxCachedPages) sectionKey s.st
  have hsound := (Arrays.storeEncoded_defined hreadable.sound id
    (record.under s.maxCachedPages) sectionKey).2
  have hsaved := Store.saved_storeEncoded hreadable.saved id.isLt
    (record.under s.maxCachedPages) sectionKey.isLt
  have hsized := Store.sized_storeEncoded hreadable.sized hreadable.sound.fit id
    (record.under s.maxCachedPages) sectionKey
  have hclean := hreadable.clean.storeEncoded hreadable.sound hreadable.saved id
    (record.under s.maxCachedPages) sectionKey
  have hdoubled := Store.doubled_storeEncoded id.val (record.under s.maxCachedPages)
    sectionKey.val hcoherent.doubled
  have hexact := hcoherent.exactly
  rw [← hsteady.table] at hexact
  change s.afterStore id record _ = some t at hstep
  generalize Store.storeEncoded id (record.under s.maxCachedPages) sectionKey s.st = call at *
  obtain ⟨outcome, st⟩ := call
  cases outcome with
  | undefined => cases hstep
  | threw =>
      cases hstep
      exact ⟨⟨hsound, hsaved, hsized, hclean⟩, hexact, hdoubled⟩
  | returned _ =>
      cases hstep
      exact ⟨⟨hsound, hsaved, hsized, hclean⟩, hexact, hdoubled⟩

theorem Coherent.setMaxCachedPages {capacity : Nat} {s : Session cfg}
    (hcoherent : s.Coherent capacity) (m : Nat) :
    (s.setMaxCachedPages m).Coherent capacity := by
  obtain ⟨⟨hsound, hsaved, hsized, hclean⟩, hexact, hdoubled⟩ := hcoherent
  have hlayout := Store.layout_setMaxCachedPages m s.st
  have hsound' := Store.sound_setMaxCachedPages m hsound hexact
  refine ⟨⟨hsound', ⟨hsound'.offers, hsound'.fit, ?_⟩,
      Store.sized_setMaxCachedPages m hsized,
      hclean.setMaxCachedPages hsound.wellFormed hexact m⟩,
    (Store.cache_setMaxCachedPages m hsound.wellFormed.cache hexact).2.1, ?_⟩
  · change (Store.setMaxCachedPages m s.st).layout.Savable
    rw [hlayout]
    exact hsaved.savable
  · change Store.Doubled capacity (Store.setMaxCachedPages m s.st).layout.totalVectors
    rw [hlayout]
    exact hdoubled

theorem Coherent.flushWrites {capacity : Nat} {s : Session cfg}
    (hcoherent : s.Coherent capacity) :
    Coherent capacity { s with st := s.st.flushWrites } := by
  have hwf := hcoherent.readable.sound.wellFormed
  exact hcoherent.undisturbed (Store.undisturbed_flushWrites hwf)
    (hcoherent.readable.clean.of_freshens (Store.freshens_flushWrites hwf))

/-- A checkpoint opened over a file that is long enough. -/
theorem Coherent.recover {capacity : Nat} {s : Session cfg} (hcoherent : s.Coherent capacity)
    {file : ByteFile} {deletedFlags : Nat → Bool}
    {fresh loaded : Store (cfg.withMaxCachedPages s.maxCachedPages)} {rest : List UInt8}
    (hsize : s.st.file.size ≤ file.size)
    (hconstruct : Store.construct (cfg.withMaxCachedPages s.maxCachedPages) capacity file
      deletedFlags = some fresh)
    (hload : fresh.deserializeMetadata s.st.serializeMetadata =
      .returned (some (loaded, rest))) : Coherent capacity { s with st := loaded } := by
  have hsaved := hcoherent.readable.saved
  obtain ⟨grown, hgrown, hfile, htotal⟩ := load_checkpoint hsaved hcoherent.doubled hconstruct
  cases hgrown.symm.trans hload
  have hrebuilt := Store.saved_rebuild hsaved htotal
  have hwf := Store.wellFormed_rebuild grown s.st.tables
  refine ⟨⟨⟨hwf, hrebuilt.offers, hrebuilt.fit⟩, hrebuilt, ?_, .of_uncached fun _ => rfl⟩,
    ⟨fun cs _ hcs => absurd hcs (Nat.not_lt_zero cs), .inl rfl⟩, ?_⟩
  · change s.st.pages.length * kPageSize ≤ grown.file.size
    rw [hfile]
    exact Nat.le_trans hcoherent.readable.sized hsize
  · change Store.Doubled capacity grown.totalVectors
    rw [htotal]
    exact hcoherent.doubled

theorem Coherent.reopen {capacity : Nat} {s t : Session cfg} (hcoherent : s.Coherent capacity)
    (hstep : s.reopen capacity = some t) : t.Coherent capacity := by
  have hflushed := hcoherent.flushWrites
  unfold Session.reopen Store.syncData at hstep
  generalize s.st.flushWrites = st at hflushed hstep
  simp only at hstep
  split at hstep
  · cases hstep
  · rename_i fresh hconstruct
    split at hstep
    · rename_i loaded rest hload
      cases hstep
      exact hflushed.recover (Nat.le_refl _) hconstruct hload
    · cases hstep

theorem Coherent.markDeletedAt {capacity : Nat} {s : Session cfg}
    (hcoherent : s.Coherent capacity) (id : Nat) (deleted : Bool) :
    Coherent capacity { s with st := s.st.markDeletedAt id deleted } := by
  have hwf := hcoherent.readable.sound.wellFormed
  have hquiet := Store.quiet_markDeletedAt s.st id deleted
  have hlayout := Store.layout_markDeletedAt s.st id deleted
  refine hcoherent.undisturbed
    ⟨hquiet.wellFormed hwf, hlayout, hquiet.keeps hwf, fun hexact => ?_⟩
    (hcoherent.readable.clean.of_freshens (hquiet.freshens hwf))
  rw [hquiet.steady.table]
  exact hexact

theorem Coherent.happens {capacity : Nat} {s t : Session cfg}
    (hcoherent : s.Coherent capacity) {event : Event cfg}
    (hstep : s.happens capacity event = some t) : t.Coherent capacity := by
  cases event with
  | reopen => exact hcoherent.reopen hstep
  | call c =>
      cases c with
      | storeEncoded id record sectionKey => exact hcoherent.stores id record sectionKey hstep
      | readVectorFromDisk id =>
          exact hcoherent.loads (Store.loads_readVectorFromDisk id s.st) hstep
      | readVectorsBatch orders ids =>
          exact hcoherent.loads (Store.loads_readVectorsBatch orders ids s.st) hstep
      | readVectorsBatchFlat orders ids =>
          exact hcoherent.loads (Store.loads_readVectorsBatchFlat orders ids s.st) hstep
      | prefetchByIds ids => exact hcoherent.loads (Store.loads_prefetchByIds ids s.st) hstep
      | flushWrites =>
          cases hstep
          exact hcoherent.flushWrites
      | setMaxCachedPages m =>
          cases hstep
          exact hcoherent.setMaxCachedPages m

theorem Reached.coherent {capacity : Nat} {s : Session cfg} (hreached : s.Reached capacity) :
    s.Coherent capacity := by
  induction hreached with
  | start hconstruct => exact .start hconstruct
  | happens event _ hstep ih => exact ih.happens hstep
  | markDeletedAt id deleted _ ih => exact ih.markDeletedAt id deleted
  | recover _ hsize hconstruct hload ih => exact ih.recover hsize hconstruct hload

theorem Reached.run {capacity : Nat} {events : List (Event cfg)} {s t : Session cfg}
    (hreached : s.Reached capacity)
    (hrun : Machines.run (Session.happens capacity) s events = some t) :
    t.Reached capacity := by
  induction events generalizing s with
  | nil =>
      cases hrun
      exact hreached
  | cons event events ih =>
      obtain ⟨m, hm, hrest⟩ := Machines.run_cons.mp hrun
      exact ih (hreached.happens event hm) hrest

end Session

/-- The ids with a location are finitely many. -/
theorem Store.located_finite {st : Store cfg} (hfit : st.LocationsFit) :
    ∃ located : Finset Nat, ∀ id, st.hasLocation id = true → id ∈ located := by
  refine ⟨Finset.range st.idToPage.length ∪ st.updateLocations.keys.toFinset,
    fun id hid => ?_⟩
  unfold Store.hasLocation at hid
  rw [Store.pageOf_eq hfit] at hid
  cases hdirect : isDirectId id with
  | true =>
      refine Finset.mem_union_left _ (Finset.mem_range.mpr ?_)
      by_contra hge
      simp [hdirect, List.getElem?_eq_none (Nat.not_lt.mp hge)] at hid
  | false =>
      refine Finset.mem_union_right _ (List.mem_toFinset.mpr ?_)
      by_contra hmem
      have hnone := AList.lookup_eq_none.mpr (fun hin => hmem (AList.mem_keys.mp hin))
      simp [hdirect, hnone] at hid

/-- In every state a store reaches, batch reads and reads one by one lead the layer-0 search
to the same list, over every graph and from every entry point; and from an entry point with
a location the search ends. -/
theorem Session.Reached.modes_agree {V D : Type} [LinearOrder D] {capacity : Nat}
    {s : Session cfg} (hreached : s.Reached capacity) (orders : Orders)
    (dequantize : Record (cfg.withMaxCachedPages s.maxCachedPages) → V)
    (edges : Nat → List Nat) (metric : Dense.Metric V D) (query : V) (entryPointId : Nat)
    (efSearch : Int) :
    (∀ fuel,
      (LayerSearch.searchLayer (Store.reader orders dequantize) edges metric query true fuel
        entryPointId efSearch s.st).1 =
      (LayerSearch.searchLayer (Store.reader orders dequantize) edges metric query false fuel
        entryPointId efSearch s.st).1) ∧
    (s.st.hasLocation entryPointId = true → ∃ enough, ∀ fuel, enough < fuel →
      ∃ results,
        (LayerSearch.searchLayer (Store.reader orders dequantize) edges metric query true fuel
          entryPointId efSearch s.st).1 = Dense.SearchEnd.hits results) := by
  have hreadable := hreached.coherent.readable
  have hreads := Store.reads_decoded orders dequantize hreadable
  have hsearch := fun enableBatchRead fuel =>
    (hreads.searchLayer edges metric query enableBatchRead fuel entryPointId efSearch
      (.refl s.st)).1
  refine ⟨fun fuel => (hsearch true fuel).trans (hsearch false fuel).symm, fun hid => ?_⟩
  have hlocation : ∀ id, s.st.hasLocation id = (s.st.decoded dequantize id).isSome :=
    fun id => hreads.located s.st id (.refl s.st)
  obtain ⟨located, hlocated⟩ := Store.located_finite hreadable.sound.fit
  refine ⟨located.card, fun fuel hfuel => ?_⟩
  rw [hsearch true fuel]
  exact LayerSearch.plainSearch_ends (fun id hvector => hlocated id ((hlocation id).trans hvector))
    ((hlocation entryPointId).symm.trans hid) hfuel efSearch

/-- After a second store past the live buffer of a page, the page that readers see and the
one in the file differ. -/
theorem Session.storesTwice_modes_agree :
    ∃ s : Session Store.tinyConfig, s.Reached 2 ∧ s.st.hasLocation 0 = true ∧
      ∃ enough, ∀ fuel, enough < fuel → ∃ results,
        (LayerSearch.searchLayer (Store.reader inOrder fun record => (record.bytes.headD 0).toNat)
          (fun _ => [0, 1]) Dense.onLine 1 true fuel 0 4 s.st).1 =
            Dense.SearchEnd.hits results ∧
        (LayerSearch.searchLayer (Store.reader inOrder fun record => (record.bytes.headD 0).toNat)
          (fun _ => [0, 1]) Dense.onLine 1 false fuel 0 4 s.st).1 =
            Dense.SearchEnd.hits results := by
  have hreached : ∃ s : Session Store.tinyConfig, s.Reached 2 ∧ s.st.hasLocation 0 = true :=
    have hrun : Machines.run (happens 2) (start Store.roomForTwo) storesTwice = some _ := rfl
    ⟨_, (Reached.start Store.construct_roomForTwo).run hrun, rfl⟩
  obtain ⟨s, hreached, hlocation⟩ := hreached
  refine ⟨s, hreached, hlocation, ?_⟩
  obtain ⟨hagree, hends⟩ := Session.Reached.modes_agree hreached inOrder
    (fun record => (record.bytes.headD 0).toNat) (fun _ => [0, 1]) Dense.onLine 1 0 4
  obtain ⟨enough, henough⟩ := hends hlocation
  refine ⟨enough, fun fuel hfuel => ?_⟩
  obtain ⟨results, hresults⟩ := henough fuel hfuel
  exact ⟨results, hresults, (hagree fuel).symm.trans hresults⟩

end AsterVec.PagedVectorStorage

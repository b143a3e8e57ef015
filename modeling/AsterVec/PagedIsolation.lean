import AsterVec.PagedLoad

/-!
After a load, storing one id leaves the records of the others alone.  The store
hands out free slots of used pages, the tails of open pages and fresh pages; a
record is safe as long as neither its slot nor slot 0 of its page is among them.
-/

namespace AsterVec.PagedVectorStorage

open AsterVec.ByteBuffer
open AsterVec.IdTypes
open AsterVec.LittleEndian

variable {cfg : Config}

namespace Store

/-- The stream places `id` at a slot. -/
def MetaTables.Locates (tables : MetaTables) (id pageId slot : Nat) : Prop :=
  if isDirectId id then
    tables.idToPage[id]? = some (pageId : Int) ∧ tables.idToSlot.getD id 0 = slot
  else (updateMap tables.updateLocs).lookup id = some ⟨pageId, slot⟩

/-- No two ids of the stream share a slot. -/
def MetaTables.Unshared (tables : MetaTables) : Prop :=
  ∀ id other pageId slot, tables.Locates id pageId slot →
    tables.Locates other pageId slot → id = other

/-- A stream and a capacity under which no slot on offer can damage a located
record: the capacity the store grows to is the saved one, every update id lies
in a slot of the page table that is used or on a page no section fills, and a
page with a record behind slot 0 does not have slot 0 on offer. -/
structure Isolating (cfg : Config) (capacity : Nat) (header : MetaHeader)
    (tables : MetaTables) : Prop where
  capacity_fits : growCapacity capacity header.totalVectors =
    some header.totalVectors
  update_slot : ∀ id pageId slot, isDirectId id = false →
    tables.Locates id pageId slot → slot < cfg.vectorsPerPage ∧
      ∃ page, tables.pages[pageId]? = some page ∧
        (slot < page.usedSlots ∨ page.sectionIdx < 0)
  first_slot : ∀ id pageId slot page, tables.Locates id pageId slot → slot ≠ 0 →
    tables.pages[pageId]? = some page → 0 ≤ page.sectionIdx →
      0 < page.usedSlots ∧ slotInUse tables pageId 0 = true

/-! What one thread may do after a load -/

/-- The store after a call, unless the call is undefined. -/
def after {α : Type} : Outcome α × Store cfg → Outcome (Store cfg)
  | (.undefined, _) => .undefined
  | (.returned _, st) => .returned st
  | (.threw, st) => .returned st

/-- The states one thread reaches by storing ids without a location, reading,
flushing and evicting. -/
inductive Later (start : Store cfg) : Outcome (Store cfg) → Prop
  | start : Later start (.returned start)
  | storeEncoded {st : Store cfg} (id : Nat) (record : Record cfg)
      (sectionKey : Nat) (hlater : Later start (.returned st))
      (hid : st.hasLocation id = false) :
      Later start (after (storeEncoded id record sectionKey st))
  | readVectorFromDisk {st : Store cfg} (id : Nat)
      (hlater : Later start (.returned st)) :
      Later start (after (readVectorFromDisk id st))
  | flushWrites {st : Store cfg} (hlater : Later start (.returned st)) :
      Later start (.returned st.flushWrites)
  | syncData {st : Store cfg} (hlater : Later start (.returned st)) :
      Later start (.returned st.syncData)
  | evictOldest {st next : Store cfg} (sectionIdx : Int)
      (hlater : Later start (.returned st))
      (hturn : evictOldest sectionIdx st = some next) :
      Later start (.returned next)

/-- Whatever one thread does later, no call is undefined and every id that has a
location now is read as now. -/
def KeepsLocated (start : Store cfg) : Prop :=
  ∀ outcome, Later start outcome → ∃ st, outcome = .returned st ∧
    ∀ id record, start.hasLocation id = true →
      (readVectorFromDisk id start).1 = .returned record →
      (readVectorFromDisk id st).1 = .returned record

/-! One operation keeps guarded records -/

theorem readVectorFromDisk_defined {st : Store cfg} (hfit : st.LocationsFit)
    (id : Nat) : (readVectorFromDisk id st).1 ≠ .undefined := by
  have hread : ∀ pageId slot, (readRecordAt pageId slot st).1 ≠ .undefined := by
    intro pageId slot
    unfold readRecordAt
    split
    · simp
    · split
      · simp
      · simp only
        split
        · simp
        · unfold preadRecord
          simp only
          split <;> simp
  unfold readVectorFromDisk
  rw [pageOf_eq hfit, slotOf_eq hfit]
  split
  · rename_i hnone
    cases hnone
  · simp
  · rename_i hnone
    cases hnone
  · exact hread _ _

theorem after_eq {α : Type} {call : Outcome α × Store cfg}
    (hdefined : call.1 ≠ .undefined) : after call = .returned call.2 := by
  obtain ⟨outcome, st⟩ := call
  cases outcome with
  | undefined => exact absurd rfl hdefined
  | returned value => rfl
  | threw => rfl

/-- What a run keeps of the store it started from: the guarded records, and the
location of every id that had one. -/
structure Kept (start st : Store cfg) : Prop where
  sound : st.Sound
  reserved : ∀ pageId slot, start.Reserved pageId slot → st.Reserved pageId slot
  holds : ∀ pageId slot record, start.Guarded pageId slot →
    start.Holds pageId slot record → st.Holds pageId slot record
  location : ∀ id, start.hasLocation id = true →
    st.location id = start.location id ∧ st.hasLocation id = true

theorem Kept.step {start st st' : Store cfg} {id : Nat} (hkept : Kept start st)
    (hpreserves : Preserves id st st')
    (hid : st.hasLocation id = false ∨ st'.layout = st.layout) : Kept start st' := by
  refine ⟨hpreserves.sound,
    fun p k h => hpreserves.reserved p k (hkept.reserved p k h), ?_, ?_⟩
  · intro pageId slot record hguarded hholds
    exact hpreserves.holds pageId slot record
      ⟨hkept.reserved _ _ hguarded.1, fun hne => hkept.reserved _ _ (hguarded.2 hne)⟩
      (hkept.holds pageId slot record hguarded hholds)
  · intro other hother
    obtain ⟨hlocation, hlocated⟩ := hkept.location other hother
    rcases hid with hnone | hlayout
    · have hne : other ≠ id := by
        rintro rfl
        rw [hlocated] at hnone
        cases hnone
      obtain ⟨hsame, hsameLocated⟩ := hpreserves.location other hne
      exact ⟨hsame.trans hlocation, hsameLocated.trans hlocated⟩
    · obtain ⟨hsame, hsameLocated⟩ := (sameTables_of_layout_eq hlayout).location other
      exact ⟨hsame.trans hlocation, hsameLocated.trans hlocated⟩

theorem Kept.flushWrites {start st : Store cfg} (hkept : Kept start st) :
    Kept start st.flushWrites := by
  obtain ⟨hwf, hkeeps, -⟩ := flushWrites_spec hkept.sound.wellFormed
  have hpreserves : Preserves 0 st st.flushWrites :=
    Preserves.of_keeps 0 hkept.sound (layout_flushWrites st) hwf hkeeps
  exact hkept.step hpreserves (.inr (layout_flushWrites st))

theorem Later.kept {start : Store cfg} (hsound : start.Sound)
    {outcome : Outcome (Store cfg)} (hlater : Later start outcome) :
    ∃ st, outcome = .returned st ∧ Kept start st := by
  induction hlater with
  | start =>
      exact ⟨start, rfl, hsound, fun _ _ h => h, fun _ _ _ _ h => h,
        fun _ h => ⟨rfl, h⟩⟩
  | storeEncoded id record sectionKey _ hid ih =>
      obtain ⟨_, heq, hkept⟩ := ih
      cases heq
      obtain ⟨hdefined, hpreserves, -⟩ :=
        storeEncoded_spec hkept.sound hid record sectionKey
      exact ⟨_, after_eq hdefined, hkept.step hpreserves (.inl hid)⟩
  | @readVectorFromDisk st id _ ih =>
      obtain ⟨_, heq, hkept⟩ := ih
      cases heq
      have hlayout := layout_readVectorFromDisk id st
      obtain ⟨hwf, hkeeps⟩ := readVectorFromDisk_keeps hkept.sound.wellFormed id
      exact ⟨_, after_eq (readVectorFromDisk_defined hkept.sound.fit id),
        hkept.step (Preserves.of_keeps id hkept.sound hlayout hwf hkeeps)
          (.inr hlayout)⟩
  | @flushWrites st _ ih =>
      obtain ⟨_, heq, hkept⟩ := ih
      cases heq
      exact ⟨st.flushWrites, rfl, hkept.flushWrites⟩
  | @syncData st _ ih =>
      obtain ⟨_, heq, hkept⟩ := ih
      cases heq
      exact ⟨st.flushWrites, rfl, hkept.flushWrites⟩
  | @evictOldest st next sectionIdx _ hturn ih =>
      obtain ⟨_, heq, hkept⟩ := ih
      cases heq
      obtain ⟨hwf, hkeeps, -⟩ := evictOldest_keeps hkept.sound.wellFormed hturn
      have hlayout := layout_evictOldest hturn
      exact ⟨next, rfl, hkept.step (Preserves.of_keeps 0 hkept.sound hlayout hwf
        hkeeps) (.inr hlayout)⟩

/-- A store all of whose located slots are guarded, and without cached pages or
buffers, keeps every located record. -/
theorem keepsLocated_of_guarded {start : Store cfg} (hsound : start.Sound)
    (hguarded : ∀ id pageId slot, start.location id = some (pageId, slot) →
      start.Guarded pageId slot)
    (hcached : ∀ pageId, start.cachedImage pageId = none)
    (hbufs : ∀ pageId, start.bufferHolding pageId = none) : KeepsLocated start := by
  intro outcome hlater
  obtain ⟨st, rfl, hkept⟩ := hlater.kept hsound
  refine ⟨st, rfl, ?_⟩
  intro id record hlocated hread
  have hsome : (start.location id).isSome = true := by
    rw [location_isSome hsound.fit]
    exact hlocated
  obtain ⟨⟨pageId, slot⟩, hlocation⟩ := Option.isSome_iff_exists.mp hsome
  have hguard := hguarded id pageId slot hlocation
  rw [readVectorFromDisk_of_location hlocation] at hread
  have hholds := holds_of_readRecordAt hsound.wellFormed hguard.1.slot_lt
    (hcached pageId) (hbufs pageId) hread
  have hlater' := (hkept.location id hlocated).1
  rw [hlocation] at hlater'
  rw [readVectorFromDisk_of_location hlater']
  exact (readRecordAt_spec hkept.sound.wellFormed hguard.1.slot_lt
    (hkept.holds pageId slot record hguard hholds)).1

/-! A loaded store -/

/-- A loaded store finds an id where its stream places it. -/
theorem locates_of_location {grown : Store cfg} {tables : MetaTables}
    (hfit : (rebuild grown tables).LocationsFit) {id pageId slot : Nat}
    (hlocation : (rebuild grown tables).location id = some (pageId, slot)) :
    tables.Locates id pageId slot := by
  obtain ⟨hpage, hslot⟩ := location_eq_some hlocation
  rw [pageOf_eq hfit, Option.some.injEq] at hpage
  rw [slotOf_eq hfit, Option.some.injEq] at hslot
  unfold MetaTables.Locates
  cases hdirect : isDirectId id with
  | true =>
      simp only [hdirect, if_true] at hpage hslot ⊢
      change tables.idToPage.getD id (-1) = Int.ofNat pageId at hpage
      by_cases hid : id < tables.idToPage.length
      · rw [getElem?_eq_getD (-1) hid, hpage]
        exact ⟨rfl, hslot⟩
      · rw [List.getD_eq_default _ _ (Nat.not_lt.mp hid)] at hpage
        cases hpage
  | false =>
      simp only [hdirect, Bool.false_eq_true, if_false] at hpage hslot ⊢
      change ((updateMap tables.updateLocs).lookup id).elim (-1) UpdateLoc.page =
        Int.ofNat pageId at hpage
      change ((updateMap tables.updateLocs).lookup id).elim 0 UpdateLoc.slot = slot at hslot
      cases hlookup : (updateMap tables.updateLocs).lookup id with
      | none =>
          rw [hlookup] at hpage
          cases hpage
      | some loc =>
          obtain ⟨page, slot'⟩ := loc
          rw [hlookup] at hpage hslot
          cases hpage
          cases hslot
          rfl

theorem slotInUse_of_locates {tables : MetaTables} {id pageId slot : Nat}
    (hlength : tables.idToPage.length = tables.idToSlot.length)
    (hlocates : tables.Locates id pageId slot) :
    slotInUse tables pageId slot = true := by
  unfold MetaTables.Locates at hlocates
  unfold slotInUse
  rw [Bool.or_eq_true]
  split at hlocates
  · obtain ⟨hpage, hslot⟩ := hlocates
    obtain ⟨hid, hpage⟩ := List.getElem?_eq_some_iff.mp hpage
    left
    rw [List.any_eq_true]
    have hidSlot : id < tables.idToSlot.length := by omega
    refine ⟨(tables.idToPage[id], tables.idToSlot[id]), ?_, ?_⟩
    · exact List.mem_iff_getElem.mpr ⟨id, by simp [hid, hidSlot], by simp⟩
    · rw [List.getD_eq_getElem _ _ hidSlot] at hslot
      simp [hpage, hslot]
  · right
    rw [List.any_eq_true]
    exact ⟨⟨id, _⟩, AList.mem_lookup_iff.mp hlocates, by simp⟩

/-- A direct id lies in a used slot. -/
theorem used_of_locates {tables : MetaTables} {id pageId slot : Nat}
    (hlength : tables.idToPage.length = tables.idToSlot.length)
    (hvalid : directLocsValid tables = true) (hdirect : isDirectId id = true)
    (hlocates : tables.Locates id pageId slot) :
    ∃ page, tables.pages[pageId]? = some page ∧ slot < page.usedSlots := by
  unfold MetaTables.Locates at hlocates
  rw [if_pos hdirect] at hlocates
  obtain ⟨hpage, hslot⟩ := hlocates
  obtain ⟨hid, hpage⟩ := List.getElem?_eq_some_iff.mp hpage
  have hidSlot : id < tables.idToSlot.length := by omega
  have hmem : ((pageId : Int), slot) ∈ tables.idToPage.zip tables.idToSlot := by
    rw [List.getD_eq_getElem _ _ hidSlot] at hslot
    exact List.mem_iff_getElem.mpr ⟨id, by simp [hid, hidSlot], by simp [hpage, hslot]⟩
  have hone := List.all_eq_true.mp hvalid _ hmem
  simp only [Bool.or_eq_true, decide_eq_true_eq, Int.toNat_natCast] at hone
  rcases hone with hneg | hany
  · omega
  · cases hpages : tables.pages[pageId]? with
    | none =>
        rw [hpages] at hany
        cases hany
    | some page =>
        rw [hpages] at hany
        exact ⟨page, rfl, by simpa using hany⟩

/-- Every located slot of a loaded store is guarded when its stream is
isolating. -/
theorem guarded_rebuild {st grown : Store cfg} {stream rest : List UInt8}
    {header : MetaHeader} {tables : MetaTables} {capacity : Nat}
    (haccepts : Accepts st stream rest header tables grown)
    (hisolating : Isolating cfg capacity header tables) {id pageId slot : Nat}
    (hlocates : tables.Locates id pageId slot) :
    (rebuild grown tables).Guarded pageId slot := by
  have hlength : tables.idToPage.length = tables.idToSlot.length :=
    haccepts.page_length.trans haccepts.slot_length.symm
  have hplace : slot < cfg.vectorsPerPage ∧
      ∃ page, tables.pages[pageId]? = some page ∧
        (slot < page.usedSlots ∨ page.sectionIdx < 0) := by
    cases hdirect : isDirectId id with
    | true =>
        obtain ⟨page, hpage, hused⟩ :=
          used_of_locates hlength haccepts.locs_valid hdirect hlocates
        have hle := haccepts.used_le page (List.mem_of_getElem? hpage)
        exact ⟨by omega, page, hpage, .inl hused⟩
    | false => exact hisolating.update_slot id pageId slot hdirect hlocates
  obtain ⟨hslot, page, hpage, hused⟩ := hplace
  -- A page of a negative section offers nothing at all.
  have hclosed : page.sectionIdx < 0 →
      ∀ sectionIdx, pageId ∉ (rebuild grown tables).openPages sectionIdx := by
    intro hneg sectionIdx hmem
    obtain ⟨hnonneg, page', hpage', hsection, -⟩ := mem_openPagesOf.mp hmem
    rw [hpage] at hpage'
    cases hpage'
    omega
  have hnotFree : ∀ other : Nat, slotInUse tables pageId other = true ∨
      page.sectionIdx < 0 →
      ∀ sectionIdx, (pageId, other) ∉ (rebuild grown tables).freeSlots sectionIdx := by
    intro other hother sectionIdx hmem
    obtain ⟨hnonneg, page', hpage', hsection, -, hfree⟩ := mem_freeSlotsOf.mp hmem
    rw [hpage] at hpage'
    cases hpage'
    rcases hother with hinUse | hneg
    · rw [hinUse] at hfree
      cases hfree
    · omega
  refine ⟨⟨hslot, hnotFree slot (.inl (slotInUse_of_locates hlength hlocates)),
    page, hpage, hused.imp_right hclosed⟩, fun hne => ?_⟩
  by_cases hneg : page.sectionIdx < 0
  · exact ⟨cfg.vectorsPerPage_pos, hnotFree 0 (.inr hneg), page, hpage,
      .inr (hclosed hneg)⟩
  · obtain ⟨hpos, hinUse⟩ := hisolating.first_slot id pageId slot page hlocates hne
      hpage (by omega)
    exact ⟨cfg.vectorsPerPage_pos, hnotFree 0 (.inl hinUse), page, hpage, .inl hpos⟩

/-- A load of an isolating stream keeps every record it located, over every
content of the vector file and everything one thread stores, reads, flushes or
evicts later. -/
theorem deserializeMetadata_keepsLocated {capacity : Nat} {file : ByteFile}
    {deletedFlags : Nat → Bool} {fresh loaded : Store cfg}
    {stream rest : List UInt8} {header : MetaHeader} {tables : MetaTables}
    (hconstruct : construct cfg capacity file deletedFlags = some fresh)
    (hparse : (parseMetadata cfg).run stream = some ((header, tables), rest))
    (hisolating : Isolating cfg capacity header tables)
    (hload : fresh.deserializeMetadata stream = .returned (some (loaded, rest))) :
    KeepsLocated loaded := by
  obtain ⟨header', tables', grown, haccepts, rfl⟩ := deserializeMetadata_accepts hload
  obtain ⟨⟨rfl, rfl⟩, -⟩ := Prod.mk.inj (Option.some.inj
    (hparse.symm.trans haccepts.parse_eq)) |>.imp_left Prod.mk.inj
  have hcapacity : grown.totalVectors = header.totalVectors := by
    have hgrow := haccepts.capacity
    rw [construct_totalVectors hconstruct, hisolating.capacity_fits] at hgrow
    exact (Option.some.inj hgrow).symm
  have hsound := sound_rebuild haccepts hcapacity
  refine keepsLocated_of_guarded hsound ?_ (fun _ => rfl) ?_
  · intro id pageId slot hlocation
    exact guarded_rebuild haccepts hisolating
      (locates_of_location hsound.fit hlocation)
  · intro pageId
    rw [bufferHolding_eq_none_iff hsound.wellFormed.buffers]
    intro sectionIdx swb hbuf
    rw [writeBuf_rebuild] at hbuf
    cases hbuf

/-! A stream of the first version records no update ids, so a slot one of them
held looks free to the load. -/

/-- Id 0 lies in `slot` of the one page, of which `usedSlots` are used. -/
def versionOneStream (usedSlots slot : Nat) : List UInt8 :=
  putLE 4 1 ++ (putLE 8 1 ++ (putLE 8 1 ++ (putLE 8 455 ++ (putLE 8 1 ++
  (putLE 8 1 ++ (putPage ⟨0, usedSlots⟩ ++ (putLE 8 7 ++ (putLE 8 1 ++
  (putLE 8 1 ++ (putInt 8 0 ++ putLE 2 slot))))))))))

def versionOneHeader : MetaHeader := ⟨1, 1, 1, 455, 1, 1⟩

def versionOneTables (usedSlots slot : Nat) : MetaTables :=
  ⟨[⟨0, usedSlots⟩], [7], [0], [slot], []⟩

/-- A vector file with the record of id 0 in `slot`. -/
def versionOneFile (slot : Nat) : ByteFile :=
  ByteFile.empty.pwriteBytes (9 * slot) (tinyRecord 1).bytes

def versionOneStore (slot : Nat) : Store tinyConfig :=
  (construct tinyConfig 1 (versionOneFile slot) fun _ => false).get rfl

theorem versionOneTables_locates {usedSlots slot id pageId found : Nat}
    (hlocates : (versionOneTables usedSlots slot).Locates id pageId found) :
    id = 0 ∧ pageId = 0 ∧ found = slot := by
  unfold MetaTables.Locates at hlocates
  split at hlocates
  · obtain ⟨hpage, hslot⟩ := hlocates
    cases id with
    | zero =>
        simp only [versionOneTables, List.getElem?_cons_zero, Option.some.injEq] at hpage
        exact ⟨rfl, by omega, hslot.symm⟩
    | succ id => cases hpage
  · cases hlocates

theorem versionOneStream_isolating :
    ∃ loaded : Store tinyConfig,
      (versionOneStore 0).deserializeMetadata (versionOneStream 1 0) =
        .returned (some (loaded, [])) ∧ KeepsLocated loaded := by
  have hisolating : Isolating tinyConfig 1 versionOneHeader (versionOneTables 1 0) := by
    refine ⟨rfl, ?_, ?_⟩
    · intro id pageId slot hdirect hlocates
      obtain ⟨rfl, -, -⟩ := versionOneTables_locates hlocates
      cases hdirect
    · intro id pageId slot page hlocates hne
      exact absurd (versionOneTables_locates hlocates).2.2 hne
  have hconstruct : construct tinyConfig 1 (versionOneFile 0) (fun _ => false) =
      some (versionOneStore 0) := rfl
  have hparse : (parseMetadata tinyConfig).run (versionOneStream 1 0) =
      some ((versionOneHeader, versionOneTables 1 0), []) := rfl
  exact ⟨rebuild (versionOneStore 0) (versionOneTables 1 0), rfl,
    deserializeMetadata_keepsLocated hconstruct hparse hisolating rfl⟩

/-- The slot an update id held before id 0's is handed out again, and its record
starts a buffer from zeros over the page. -/
theorem versionOneStream_wipes :
    ∃ loaded : Store tinyConfig,
      (parseMetadata tinyConfig).run (versionOneStream 2 1) =
        some ((versionOneHeader, versionOneTables 2 1), []) ∧
      (versionOneTables 2 1).Unshared ∧
      (versionOneStore 1).deserializeMetadata (versionOneStream 2 1) =
        .returned (some (loaded, [])) ∧ ¬KeepsLocated loaded := by
  refine ⟨rebuild (versionOneStore 1) (versionOneTables 2 1), rfl, ?_, rfl, ?_⟩
  · intro id other pageId slot hid hother
    rw [(versionOneTables_locates hid).1, (versionOneTables_locates hother).1]
  · intro hkeeps
    obtain ⟨st, heq, hread⟩ := hkeeps _
      (Later.storeEncoded 1 (tinyRecord 2) 7 Later.start (by decide))
    cases heq
    have hwiped := hread 0 (tinyRecord 1) (by decide) (by decide)
    exact absurd hwiped (by decide)

end Store

end AsterVec.PagedVectorStorage

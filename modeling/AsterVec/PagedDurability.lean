import AsterVec.PagedFaults
import AsterVec.PagedIsolation

/-!
What a checkpoint can rely on.  As long as every page flush writes its page and
records are overwritten only where no buffer can undo it, the file holds the last
record of every located id once the buffers are flushed.
-/

namespace AsterVec.PagedVectorStorage

open AsterVec.ByteBuffer
open AsterVec.IdTypes

variable {cfg : Config}

namespace Store

/-- No section has slots to fill again.  Slots get free only in stores loaded
from older streams. -/
def NoFree (st : Store cfg) : Prop := ∀ sectionIdx, st.layout.freeSlots sectionIdx = []

theorem noFree_takeSectionSlot {st : Store cfg} (hfree : st.NoFree) (sectionIdx : Int) :
    (takeSectionSlot sectionIdx st).2.NoFree := by
  have hnone : st.freeSlots sectionIdx = [] := hfree sectionIdx
  unfold takeSectionSlot
  rw [hnone]
  simp only
  split
  · exact hfree
  · split
    · intro other
      change (setOpenPages sectionIdx _ st).layout.freeSlots other = []
      rw [layout_setOpenPages]
      exact hfree other
    · intro other
      rw [layout_setOpenPages]
      exact hfree other

theorem noFree_allocateSlotForSection {st : Store cfg} (hfree : st.NoFree)
    (sectionKey : Nat) : (allocateSlotForSection sectionKey st).2.NoFree := by
  refine allocateSlotForSection_induct (motive := NoFree) (fun _ => True) hfree
    ?_ ?_ ?_ ?_
  · intro sectionIdx found hlookup
    refine ⟨fun other => ?_, trivial⟩
    rw [lookupSection_layout hlookup]
    exact hfree other
  · exact fun sectionIdx found hfound => noFree_takeSectionSlot hfound sectionIdx
  · intro sectionIdx found pageId opened _ hfound happend other
    rw [(appendPage_eq_some happend).2]
    exact hfound other
  · intro sectionIdx pageId opened hopened other
    rcases layout_publishOpenPage sectionIdx pageId opened with hlayout | hlayout
    · rw [hlayout]
      exact hopened other
    · rw [hlayout]
      exact hopened other

theorem NoFree.congr {st st' : Store cfg} (hfree : st.NoFree)
    (hslots : st'.layout.freeSlots = st.layout.freeSlots) : st'.NoFree := fun sectionIdx => by
  rw [hslots]
  exact hfree sectionIdx

/-- Without free slots, a reserved slot is guarded: slot 0 is used before it. -/
theorem guarded_of_noFree {st : Store cfg} (hfree : st.NoFree) {pageId slot : Nat}
    (hreserved : st.Reserved pageId slot) : st.Guarded pageId slot := by
  refine ⟨hreserved, fun _ => ⟨cfg.vectorsPerPage_pos, ?_, ?_⟩⟩
  · intro sectionIdx
    rw [hfree sectionIdx]
    exact List.not_mem_nil
  · obtain ⟨page, hpage, hused⟩ := hreserved.used_or_closed
    exact ⟨page, hpage, hused.imp_left Nat.zero_lt_of_lt⟩

/-- The outcome of storing an id without a location: everything else is kept, and
either the id has a new slot with its record or it still has none. -/
structure StoredNew (id : Nat) (record : Record cfg) (st : Store cfg)
    (result : Outcome Unit × Store cfg) : Prop where
  defined : result.1 ≠ .undefined
  preserves : Preserves id st result.2
  noFree : st.NoFree → result.2.NoFree
  placed : result.1 = .returned () → ∃ pageId slot,
    result.2.location id = some (pageId, slot) ∧ ¬st.Reserved pageId slot ∧
      result.2.Reserved pageId slot ∧ result.2.Holds pageId slot record
  unplaced : result.1 ≠ .returned () → result.2.location id = st.location id

theorem storedNew_allocated {st grown allocated : Store cfg} {id : Nat}
    (hgrown : Preserves id st grown) (hfree : st.NoFree → grown.NoFree)
    (hlocation : grown.location id = st.location id)
    (hroom : isDirectId id = true → id < grown.totalVectors)
    (hquiet : Quiet grown allocated) (htables : SameTables grown allocated)
    (hallocFree : grown.NoFree → allocated.NoFree) {sectionIdx : Int} {pageId slot : Nat}
    (hgrants : Grants grown allocated sectionIdx pageId slot) {record : Record cfg}
    {writes : Writes} (hcomplete : writes.Complete) :
    StoredNew id record st
      (match Faulty.writeNewRecord writes sectionIdx pageId slot record allocated with
      | none => (.undefined, allocated)
      | some (false, st) => (.threw, st)
      | some (true, st) => (st.markDeletedAt id false).assignLocation id pageId slot) := by
  have hallocated := Preserves.of_quiet id hgrown.sound hquiet hgrants.offers
    (htables.fit hgrown.sound.fit) hgrants.keeps
    fun other _ => ⟨htables.pageOf other, htables.slotOf other⟩
  obtain ⟨written, hplain, hdefined, hpreserves, hreserved, hholds, hplaced⟩ :=
    storeAllocated_spec hgrown.sound hroom hquiet htables hgrants record
  have hpage := sectionIdxOfPage_of_inUse hgrants.inUse
  split
  · rename_i hundefined
    -- The plain write always ends, so the faulty one does.
    exfalso
    unfold Faulty.writeNewRecord at hundefined
    unfold writeNewRecord at hplain
    rw [writeToSectionBufferLocked_of_complete hcomplete] at hundefined
    split at hundefined
    · cases hundefined
    · rename_i hneg
      rw [if_neg hneg] at hplain
      split at hundefined
      · rename_i hlocked
        rw [hlocked] at hplain
        cases hplain
      · cases hundefined
      · cases hundefined
  · rename_i torn hthrew
    obtain ⟨hlayout, hwf, hothers⟩ := writeNewRecord_threw hcomplete
      hallocated.sound.wellFormed hgrants.reserved.slot_lt hpage hthrew
    have htorn : Preserves id grown torn := by
      refine ⟨⟨hwf, (offers_congr hlayout).mpr hgrants.offers,
          (sameTables_of_layout_eq hlayout).fit (htables.fit hgrown.sound.fit)⟩,
        fun p k hold => (reserved_congr hlayout p k).mpr (hgrants.keeps p k hold), ?_, ?_⟩
      · intro p k found hguarded hheld
        apply hothers p k found hguarded.1.slot_lt _
          (hallocated.holds p k found hguarded hheld)
        rintro rfl rfl
        exact hgrants.not_reserved hguarded.1
      · exact fun other _ => (htables.trans (sameTables_of_layout_eq hlayout)).location other
    refine ⟨by simp, hgrown.trans htorn, ?_, by simp, fun _ => ?_⟩
    · exact fun hst => (hallocFree (hfree hst)).congr (by rw [hlayout])
    · rw [← hlocation]
      exact ((htables.trans (sameTables_of_layout_eq hlayout)).location id).1
  · rename_i stored hstored
    have hsame := writeNewRecord_of_complete hcomplete hstored rfl
    rw [hplain] at hsame
    cases hsame
    have hlayout := layout_writeNewRecord hplain
    have hmark := layout_markDeletedAt written id false
    obtain ⟨-, hfreeSlots, -⟩ :=
      lists_assignLocation (written.markDeletedAt id false) id pageId slot
    refine ⟨hdefined, hgrown.trans hpreserves, ?_, ?_, ?_⟩
    · intro hst
      exact (hallocFree (hfree hst)).congr (by rw [hfreeSlots, hmark, hlayout])
    · intro hreturned
      exact ⟨pageId, slot, hplaced hreturned,
        fun hold => hgrants.not_reserved (hgrown.reserved _ _ hold), hreserved, hholds⟩
    · intro hthrew
      have hmarkedFit : (written.markDeletedAt id false).LocationsFit :=
        (sameTables_of_layout_eq (hmark.trans hlayout)).fit (htables.fit hgrown.sound.fit)
      have hidLt : isDirectId id = true →
          id < (written.markDeletedAt id false).totalVectors := by
        intro hdirect
        have htotal := congrArg Layout.totalVectors (hmark.trans hlayout)
        change (written.markDeletedAt id false).totalVectors = allocated.totalVectors
          at htotal
        rw [htotal, htables.total]
        exact hroom hdirect
      rw [(assignLocation_spec hmarkedFit pageId slot hidLt).2.2.2.2 hthrew, ← hlocation]
      exact ((htables.trans (sameTables_of_layout_eq (hmark.trans hlayout))).location id).1

/-- A store of an id without a location whose page flushes are complete keeps
what the plain one keeps, also when its record write or the extension of the file
fails. -/
theorem storedNew_storeEncoded {writes : Writes} (hcomplete : writes.Complete)
    {st : Store cfg} (hsound : st.Sound) {id : Nat} (hid : st.hasLocation id = false)
    (record : Record cfg) (sectionKey : Nat) :
    StoredNew id record st (Faulty.storeEncoded writes id record sectionKey st) := by
  unfold Faulty.storeEncoded
  have hensured := preserves_ensureDenseCapacity hsound id
  obtain ⟨hdefined, hgrownFit, hlocation, hroom, _, _, _, hgrownEq⟩ :=
    ensureDenseCapacity_spec hsound.fit id
  cases hensure : st.ensureDenseCapacity id with
  | mk outcome grown =>
      rw [hensure] at hensured hdefined hgrownFit hlocation hroom hgrownEq
      change grown = _ at hgrownEq
      have hfree : st.NoFree → grown.NoFree := fun hst => hst.congr (by
        rw [hgrownEq]
        rfl)
      have hsame := location_of_tables (hlocation id).1 (hlocation id).2
      cases outcome with
      | undefined => exact absurd rfl hdefined
      | threw => exact ⟨by simp, hensured, hfree, by simp, fun _ => hsame.1⟩
      | returned _ =>
          obtain ⟨n, hpage⟩ := pageOf_of_unlocated hgrownFit (hsame.2.trans hid)
          simp only [hpage]
          have hquiet := quiet_allocateSlotForSection sectionKey grown
          have htables := sameTables_allocateSlotForSection sectionKey grown
          have hallocFree : grown.NoFree →
              (allocateSlotForSection sectionKey grown).2.NoFree :=
            fun hst => noFree_allocateSlotForSection hst sectionKey
          unfold Faulty.allocateSlotForSection
          cases halloc : allocateSlotForSection sectionKey grown with
          | mk granted allocated =>
              rw [halloc] at hquiet htables hallocFree
              change SameTables grown allocated at htables
              -- Growing the file or not, the tables and the bytes are the same.
              obtain ⟨extended, hextended, hquiet', hlayout⟩ : ∃ extended : Store cfg,
                  (if writes.extension then allocated
                    else { allocated with file := grown.file }) = extended ∧
                  Quiet grown extended ∧ extended.layout = allocated.layout := by
                split
                · exact ⟨_, rfl, hquiet, rfl⟩
                · exact ⟨_, rfl, { hquiet with bytes := rfl, size_le := Nat.le_refl _ }, rfl⟩
              simp only [hextended]
              have htables' := htables.trans (sameTables_of_layout_eq hlayout)
              cases granted with
              | none =>
                  obtain ⟨hoffers, hreserved⟩ :=
                    allocateSlotForSection_none hensured.sound.offers halloc
                  refine ⟨by simp, hensured.trans (Preserves.of_quiet id hensured.sound
                    hquiet' ((offers_congr hlayout).mpr hoffers) (htables'.fit hgrownFit)
                    (fun p k hold => (reserved_congr hlayout p k).mpr (hreserved p k hold))
                    fun other _ => ⟨htables'.pageOf other, htables'.slotOf other⟩),
                    fun hst => (hallocFree (hfree hst)).congr (by rw [hlayout]), by simp,
                    fun _ => (htables'.location id).1.trans hsame.1⟩
              | some entry =>
                  obtain ⟨sectionIdx, pageId, slot⟩ := entry
                  have hgrants :=
                    allocateSlotForSection_grants hensured.sound.offers halloc
                  have hgrants' : Grants grown extended sectionIdx pageId slot :=
                    ⟨(offers_congr hlayout).mpr hgrants.offers,
                      fun p k hold => (reserved_congr hlayout p k).mpr (hgrants.keeps p k hold),
                      hgrants.not_reserved, hlayout ▸ hgrants.inUse,
                      (reserved_congr hlayout _ _).mpr hgrants.reserved⟩
                  exact storedNew_allocated hensured hfree hsame.1 (hroom rfl) hquiet'
                    htables' (fun hst => (hallocFree hst).congr (by rw [hlayout])) hgrants'
                    hcomplete

/-! Runs -/

/-- Every located id has a slot of its own, and readers of the slot find the last
record stored for the id. -/
structure Recorded (st : Store cfg) (last : Nat → Option (Record cfg)) : Prop where
  sound : st.Sound
  noFree : st.NoFree
  located : ∀ id pageId slot, st.location id = some (pageId, slot) →
    st.Reserved pageId slot ∧ ∃ record, last id = some record ∧ st.Holds pageId slot record
  apart : ∀ id id' loc, st.location id = some loc → st.location id' = some loc → id = id'

/-- The condition on storing an id again: its record write fails without a byte,
or it succeeds and no buffer holds the page. -/
def Overwrites (writes : Writes) (id : Nat) (st : Store cfg) : Prop :=
  ∀ pageId slot, st.location id = some (pageId, slot) →
    writes.record = some 0 ∨ writes.record = none ∧ st.bufferHolding pageId = none

/-- Runs of stores and flushes with the record last stored for every id.
`Condition` is asked of every call: of the writes it makes, its id (none for a
flush) and the state it starts from. -/
inductive Runs (Condition : Writes → Option Nat → Store cfg → Prop) :
    Store cfg → (Nat → Option (Record cfg)) → Prop where
  | start {st : Store cfg} {last : Nat → Option (Record cfg)}
      (hrecorded : st.Recorded last) : Runs Condition st last
  | stored {st : Store cfg} {last : Nat → Option (Record cfg)} {writes : Writes}
      {id : Nat} (record : Record cfg) (sectionKey : Nat)
      (hruns : Runs Condition st last) (hmeets : Condition writes (some id) st)
      (hreturned : (Faulty.storeEncoded writes id record sectionKey st).1 = .returned ()) :
      Runs Condition (Faulty.storeEncoded writes id record sectionKey st).2
        (Function.update last id (some record))
  | failed {st : Store cfg} {last : Nat → Option (Record cfg)} {writes : Writes}
      {id : Nat} (record : Record cfg) (sectionKey : Nat)
      (hruns : Runs Condition st last) (hmeets : Condition writes (some id) st)
      (hfailed : (Faulty.storeEncoded writes id record sectionKey st).1 ≠ .returned ()) :
      Runs Condition (Faulty.storeEncoded writes id record sectionKey st).2 last
  | flushed {st : Store cfg} {last : Nat → Option (Record cfg)} {writes : Writes}
      (hruns : Runs Condition st last) (hmeets : Condition writes none st) :
      Runs Condition (Faulty.flushWrites writes st) last
  | evicted {st next : Store cfg} {last : Nat → Option (Record cfg)} {writes : Writes}
      (sectionIdx : Int) (hruns : Runs Condition st last)
      (hmeets : Condition writes none st)
      (hturn : Faulty.evictOldest writes sectionIdx st = some next) :
      Runs Condition next last

/-- The condition on one call: its page flushes write their pages, and it stores
an id again only as above. -/
def FlushesWhole (writes : Writes) (id : Option Nat) (st : Store cfg) : Prop :=
  writes.Complete ∧ ∀ stored, id = some stored → Overwrites writes stored st

/-- The records at the slots of the located ids are in the file. -/
def OnDisk (st : Store cfg) (last : Nat → Option (Record cfg)) : Prop :=
  ∀ id pageId slot, st.location id = some (pageId, slot) →
    ∃ record, last id = some record ∧
      slice st.file.bytes (pageId * kPageSize + slot * cfg.recordSize) cfg.recordSize =
        record.bytes

/-- A step that keeps every guarded slot and every location. -/
theorem Recorded.of_preserves {st st' : Store cfg} {last : Nat → Option (Record cfg)}
    (hrecorded : st.Recorded last) {id : Nat} (hpreserves : Preserves id st st')
    (hfree : st'.NoFree) (hid : st'.location id = st.location id) : st'.Recorded last := by
  have hsame : ∀ other, st'.location other = st.location other := by
    intro other
    rcases eq_or_ne other id with rfl | hne
    · exact hid
    · exact (hpreserves.location other hne).1
  refine ⟨hpreserves.sound, hfree, ?_, ?_⟩
  · intro id pageId slot hlocation
    rw [hsame] at hlocation
    obtain ⟨hreserved, record, hlast, hholds⟩ := hrecorded.located id pageId slot hlocation
    exact ⟨hpreserves.reserved _ _ hreserved, record, hlast,
      hpreserves.holds _ _ _ (guarded_of_noFree hrecorded.noFree hreserved) hholds⟩
  · intro id id' loc hid hid'
    rw [hsame] at hid hid'
    exact hrecorded.apart id id' loc hid hid'

/-- A step that keeps the layout and every page. -/
theorem Recorded.of_keeps {st st' : Store cfg} {last : Nat → Option (Record cfg)}
    (hrecorded : st.Recorded last) (hlayout : st'.layout = st.layout)
    (hwf : st'.WellFormed) (hkeeps : ∀ pageId, Keeps pageId st st') : st'.Recorded last :=
  hrecorded.of_preserves (Preserves.of_keeps 0 hrecorded.sound hlayout hwf hkeeps)
    (hrecorded.noFree.congr (by rw [hlayout]))
    ((sameTables_of_layout_eq hlayout).location 0).1

/-- Located ids other than the one being stored keep their records. -/
theorem StoredNew.recorded {st : Store cfg} {last : Nat → Option (Record cfg)} {id : Nat}
    {record : Record cfg} {result : Outcome Unit × Store cfg}
    (hstored : StoredNew id record st result) (hrecorded : st.Recorded last)
    (hid : st.location id = none) :
    (result.1 = .returned () →
        result.2.Recorded (Function.update last id (some record))) ∧
      (result.1 ≠ .returned () → result.2.Recorded last) := by
  have hkept : ∀ other pageId slot, other ≠ id →
      result.2.location other = some (pageId, slot) →
      st.location other = some (pageId, slot) ∧ result.2.Reserved pageId slot ∧
        ∃ found, last other = some found ∧ result.2.Holds pageId slot found := by
    intro other pageId slot hne hlocation
    rw [(hstored.preserves.location other hne).1] at hlocation
    obtain ⟨hreserved, found, hlast, hholds⟩ :=
      hrecorded.located other pageId slot hlocation
    exact ⟨hlocation, hstored.preserves.reserved _ _ hreserved, found, hlast,
      hstored.preserves.holds _ _ _ (guarded_of_noFree hrecorded.noFree hreserved) hholds⟩
  constructor
  · intro hreturned
    obtain ⟨newPage, newSlot, hplaced, hfresh, hreserved, hholds⟩ :=
      hstored.placed hreturned
    -- The new slot was nobody's.
    have hnew : ∀ other, other ≠ id →
        result.2.location other ≠ some (newPage, newSlot) := by
      intro other hne hlocation
      rw [(hstored.preserves.location other hne).1] at hlocation
      exact hfresh (hrecorded.located other _ _ hlocation).1
    refine ⟨hstored.preserves.sound, hstored.noFree hrecorded.noFree, ?_, ?_⟩
    · intro other pageId slot hlocation
      rcases eq_or_ne other id with rfl | hne
      · rw [hplaced] at hlocation
        cases hlocation
        exact ⟨hreserved, record, Function.update_self _ _ _, hholds⟩
      · obtain ⟨-, hkeptReserved, found, hlast, hfound⟩ :=
          hkept other pageId slot hne hlocation
        exact ⟨hkeptReserved, found, by rw [Function.update_of_ne hne]; exact hlast, hfound⟩
    · intro a b loc ha hb
      rcases eq_or_ne a id with rfl | hane
      · rcases eq_or_ne b a with rfl | hbne
        · rfl
        · rw [hplaced] at ha
          cases ha
          exact absurd hb (hnew b hbne)
      · rcases eq_or_ne b id with rfl | hbne
        · rw [hplaced] at hb
          cases hb
          exact absurd ha (hnew a hane)
        · exact hrecorded.apart a b loc (hkept a loc.1 loc.2 hane ha).1
            (hkept b loc.1 loc.2 hbne hb).1
  · exact fun hfailed => hrecorded.of_preserves hstored.preserves
      (hstored.noFree hrecorded.noFree) (hstored.unplaced hfailed)

/-- A failed record write without a byte leaves the file as it was. -/
theorem pwriteBytes_nil (file : ByteFile) (offset : Nat) :
    file.pwriteBytes offset [] = file := by
  have hbytes : (fun i => if offset ≤ i ∧ i < offset + 0 then
      ([] : List UInt8).getD (i - offset) 0 else file.bytes i) = file.bytes :=
    funext fun i => if_neg (by omega)
  obtain ⟨bytes, size, hzero⟩ := file
  simp only [ByteFile.pwriteBytes, ByteFile.pwrite, List.length_nil, if_true,
    ByteFile.mk.injEq, and_true]
  exact hbytes

/-- The direct write of a record at the slot of its id. -/
theorem Recorded.overwrite {st : Store cfg} {last : Nat → Option (Record cfg)}
    (hrecorded : st.Recorded last) {id pageId slot : Nat}
    (hlocation : st.location id = some (pageId, slot))
    (hnone : st.bufferHolding pageId = none) (record : Record cfg) :
    (updateCacheAfterWrite pageId slot record
      (writeRecord pageId slot record st)).Recorded (Function.update last id (some record)) := by
  obtain ⟨hreserved, -⟩ := hrecorded.located id pageId slot hlocation
  have hslot := hreserved.slot_lt
  have hwf := hrecorded.sound.wellFormed
  have hwrittenWF := hwf.writeRecord pageId slot record
  have hlayout : (updateCacheAfterWrite pageId slot record
      (writeRecord pageId slot record st)).layout = st.layout := by simp
  have hsame := fun other => ((sameTables_of_layout_eq hlayout).location other).1
  have hfills : Fills pageId slot record st (writeRecord pageId slot record st) :=
    writeRecord_fills record hnone
  have hstored : (updateCacheAfterWrite pageId slot record
      (writeRecord pageId slot record st)).Holds pageId slot record :=
    updateCacheAfterWrite_holds hwrittenWF hslot (hfills.content hslot) hfills.backed
  refine ⟨⟨hwrittenWF.updateCacheAfterWrite _ _ _,
      (offers_congr hlayout).mpr hrecorded.sound.offers,
      (sameTables_of_layout_eq hlayout).fit hrecorded.sound.fit⟩,
    hrecorded.noFree.congr (by rw [hlayout]), ?_, ?_⟩
  · intro other otherPage otherSlot hother
    rw [hsame] at hother
    obtain ⟨hotherReserved, found, hlast, hholds⟩ :=
      hrecorded.located other otherPage otherSlot hother
    refine ⟨(reserved_congr hlayout _ _).mpr hotherReserved, ?_⟩
    rcases eq_or_ne other id with rfl | hne
    · rw [hlocation] at hother
      cases hother
      exact ⟨record, Function.update_self _ _ _, hstored⟩
    · have hapart : otherPage = pageId → otherSlot ≠ slot := by
        rintro rfl rfl
        exact hne (hrecorded.apart other id _ hother hlocation)
      refine ⟨found, by rw [Function.update_of_ne hne]; exact hlast, ?_⟩
      exact updateCacheAfterWrite_holds_other hwrittenWF record hslot hapart
        (holds_pwriteBytes hnone hslot record.length_eq.le hotherReserved.slot_lt hapart
          hholds)
  · intro a b loc ha hb
    rw [hsame] at ha hb
    exact hrecorded.apart a b loc ha hb

/-- A store whose record write ends as asked keeps the record of every located id. -/
theorem Recorded.storeEncoded {st : Store cfg} {last : Nat → Option (Record cfg)}
    (hrecorded : st.Recorded last) {writes : Writes} {id : Nat}
    (hmeets : FlushesWhole writes (some id) st) (record : Record cfg) (sectionKey : Nat) :
    ((Faulty.storeEncoded writes id record sectionKey st).1 = .returned () →
        (Faulty.storeEncoded writes id record sectionKey st).2.Recorded
          (Function.update last id (some record))) ∧
      ((Faulty.storeEncoded writes id record sectionKey st).1 ≠ .returned () →
        (Faulty.storeEncoded writes id record sectionKey st).2.Recorded last) := by
  obtain ⟨hcomplete, hoverwrites⟩ := hmeets
  rcases hlocated : st.location id with _ | ⟨pageId, slot⟩
  · exact (storedNew_storeEncoded hcomplete hrecorded.sound
      (by rw [← location_isSome hrecorded.sound.fit, hlocated]; rfl) record
      sectionKey).recorded hrecorded hlocated
  · have hensured := preserves_ensureDenseCapacity hrecorded.sound id
    obtain ⟨hdefined, hgrownFit, hlocation, -, _, _, _, hgrownEq⟩ :=
      ensureDenseCapacity_spec hrecorded.sound.fit id
    unfold Faulty.storeEncoded
    cases hensure : st.ensureDenseCapacity id with
    | mk outcome grown =>
        rw [hensure] at hensured hdefined hgrownFit hlocation hgrownEq
        change grown = _ at hgrownEq
        have hsame := location_of_tables (hlocation id).1 (hlocation id).2
        have hgrown : grown.Recorded last := hrecorded.of_preserves hensured
          (hrecorded.noFree.congr (by rw [hgrownEq]; rfl)) hsame.1
        have hgrownAt : grown.location id = some (pageId, slot) := hsame.1.trans hlocated
        cases outcome with
        | undefined => exact absurd rfl hdefined
        | threw => exact ⟨by simp, fun _ => hgrown⟩
        | returned _ =>
            obtain ⟨hpage, hslot⟩ := location_eq_some hgrownAt
            simp only [hpage, hslot, Faulty.writeRecord]
            rcases hoverwrites id rfl pageId slot hlocated with hfails | ⟨hwrites, hnone⟩
            · simp only [hfails]
              refine ⟨by simp, fun _ => ?_⟩
              rw [List.take_zero, pwriteBytes_nil]
              exact hgrown
            · simp only [hwrites]
              refine ⟨fun _ => ?_, by simp⟩
              have hwritten := hgrown.overwrite hgrownAt
                (show grown.bufferHolding pageId = none by rw [hgrownEq]; exact hnone) record
              exact hwritten.of_keeps (layout_markDeletedAt _ _ _)
                ((quiet_markDeletedAt _ _ _).wellFormed hwritten.sound.wellFormed)
                ((quiet_markDeletedAt _ _ _).keeps hwritten.sound.wellFormed)

/-- Until a call misses its condition, every located id has its record. -/
theorem Runs.recorded {st : Store cfg} {last : Nat → Option (Record cfg)}
    (hruns : Runs FlushesWhole st last) : st.Recorded last := by
  induction hruns with
  | start hrecorded => exact hrecorded
  | stored record sectionKey _ hmeets hreturned ih =>
      exact (ih.storeEncoded hmeets record sectionKey).1 hreturned
  | failed record sectionKey _ hmeets hfailed ih =>
      exact (ih.storeEncoded hmeets record sectionKey).2 hfailed
  | flushed _ hmeets ih =>
      rw [flushWrites_of_complete hmeets.1]
      obtain ⟨hwf, hkeeps, -⟩ := flushWrites_spec ih.sound.wellFormed
      exact ih.of_keeps (layout_flushWrites _) hwf hkeeps
  | evicted sectionIdx _ hmeets hturn ih =>
      rw [evictOldest_of_complete hmeets.1] at hturn
      obtain ⟨hwf, hkeeps, -⟩ := evictOldest_keeps ih.sound.wellFormed hturn
      exact ih.of_keeps (layout_evictOldest hturn) hwf hkeeps

/-- A synchronisation that answers true after such a run leaves the last record
of every located id in the file. -/
theorem Runs.syncData_onDisk {st st' : Store cfg} {last : Nat → Option (Record cfg)}
    (hruns : Runs FlushesWhole st last) {writes : Writes} {synced : Bool}
    (hmeets : FlushesWhole writes none st)
    (hsync : Faulty.syncData writes synced st = (true, st')) : st'.OnDisk last := by
  have hrecorded := (Runs.flushed hruns hmeets).recorded
  obtain ⟨-, hflushed⟩ := Prod.mk.inj hsync
  rw [hflushed] at hrecorded
  intro id pageId slot hlocation
  obtain ⟨-, record, hlast, hholds⟩ := hrecorded.located id pageId slot hlocation
  refine ⟨record, hlast, ?_⟩
  have hnone : st'.bufferHolding pageId = none := by
    rw [flushWrites_of_complete hmeets.1] at hflushed
    rw [bufferHolding_eq_none_iff hrecorded.sound.wellFormed.buffers]
    intro sectionIdx swb hbuf
    obtain ⟨-, -, hempty⟩ := flushWrites_spec hruns.recorded.sound.wellFormed
    rw [hflushed] at hempty
    rw [hempty] at hbuf
    cases hbuf
  have hcontent := congrArg Record.bytes hholds.content
  rw [overlaidPage_of_none hnone] at hcontent
  rw [← hcontent]
  dsimp only [recordAt]
  apply slice_congr
  intro k _
  rw [Nat.add_assoc]

/-- A new store has no located id. -/
theorem recorded_construct {capacity : Nat} {file : ByteFile}
    {deletedFlags : Nat → Bool} {fresh : Store cfg}
    (hconstruct : construct cfg capacity file deletedFlags = some fresh)
    (last : Nat → Option (Record cfg)) : fresh.Recorded last := by
  have hsound := sound_construct hconstruct
  have hnone : ∀ id, fresh.location id = none := by
    intro id
    have hunlocated : fresh.hasLocation id = false := by
      unfold hasLocation
      rw [pageOf_eq hsound.fit]
      unfold construct at hconstruct
      split at hconstruct
      · cases hconstruct
      · cases hconstruct
        rcases Nat.lt_or_ge id capacity with hlt | hge
        · simp [hlt]
        · simp [hge]
    rw [← location_isSome hsound.fit] at hunlocated
    exact Option.not_isSome_iff_eq_none.mp (Bool.not_eq_true _ ▸ hunlocated)
  refine ⟨hsound, ?_, ?_, ?_⟩
  · unfold construct at hconstruct
    split at hconstruct
    · cases hconstruct
    · cases hconstruct
      exact fun _ => rfl
  · intro id pageId slot hlocation
    rw [hnone] at hlocation
    cases hlocation
  · intro id id' loc hid
    rw [hnone] at hid
    cases hid

/-! One record stored into an empty store -/

def everyByte : Writes := ⟨fun _ => kPageSize, none, true⟩

def noPage : Writes := ⟨fun _ => 0, none, true⟩

def oneStored : Outcome Unit × Store tinyConfig :=
  Faulty.storeEncoded everyByte 0 (tinyRecord 1) 7 roomForTwo

theorem oneStored_runs : Runs FlushesWhole oneStored.2
    (Function.update (fun _ => none) 0 (some (tinyRecord 1))) := by
  refine .stored (tinyRecord 1) 7 (.start (recorded_construct construct_roomForTwo _))
    ⟨fun _ => Nat.le_refl _, ?_⟩ (by decide)
  intro id hid pageId slot hlocation
  cases hid
  rw [show roomForTwo.location 0 = none by decide] at hlocation
  cases hlocation

theorem oneStored_onDisk : (Faulty.flushWrites everyByte oneStored.2).OnDisk
    (Function.update (fun _ => none) 0 (some (tinyRecord 1))) :=
  oneStored_runs.syncData_onDisk ⟨fun _ => Nat.le_refl _, fun _ hid => by cases hid⟩
    (show Faulty.syncData everyByte true oneStored.2 = _ from rfl)

/-- A page flush that fails is not noticed: the synchronisation answers true and
the record is not in the file. -/
theorem pageLost_notOnDisk :
    Runs (fun _ _ _ => True) oneStored.2
      (Function.update (fun _ => none) 0 (some (tinyRecord 1))) ∧
    (Faulty.syncData noPage true oneStored.2).1 = true ∧
    ¬(Faulty.syncData noPage true oneStored.2).2.OnDisk
      (Function.update (fun _ => none) 0 (some (tinyRecord 1))) := by
  refine ⟨?_, rfl, ?_⟩
  · exact .stored (tinyRecord 1) 7 (.start (recorded_construct construct_roomForTwo _))
      trivial (by decide)
  · intro hdisk
    obtain ⟨record, hlast, hbytes⟩ := hdisk 0 0 0 (by decide +kernel)
    rw [Function.update_self] at hlast
    cases hlast
    revert hbytes
    decide +kernel

end Store

end AsterVec.PagedVectorStorage

import AsterVec.PagedGrowth
import AsterVec.PagedRuns

/-!
Storing an id again.  An overwrite goes to the file and to the cached page, past a live
buffer of the page; readers look into the buffer first, and a later flush writes the
buffer over the record.  Over any run in which no overwrite meets such a buffer, every id
is read as it was last stored, also after a checkpoint is saved and reopened.
-/

namespace AsterVec.PagedVectorStorage

open AsterVec.ByteBuffer
open AsterVec.IdTypes

variable {cfg : Config}

namespace Store

/-! The overwrite -/

/-- The branch of `storeEncoded` for an id that has a slot. -/
def overwritten (id pageId slot : Nat) (record : Record cfg) (st : Store cfg) : Store cfg :=
  (updateCacheAfterWrite pageId slot record
    (writeRecord pageId slot record st)).markDeletedAt id false

theorem storeEncoded_of_location {st : Store cfg} (hfit : st.LocationsFit)
    {id pageId slot : Nat} (hlocation : st.location id = some (pageId, slot))
    (record : Record cfg) (sectionKey : Nat) :
    storeEncoded id record sectionKey st =
      (.returned (), overwritten id pageId slot record st) := by
  obtain ⟨hpage, hslot⟩ := location_eq_some hlocation
  have hensure : st.ensureDenseCapacity id = (.returned (), st) := by
    refine if_neg ?_
    rintro ⟨hdirect, hge⟩
    rw [pageOf_eq hfit, if_pos hdirect,
      List.getD_eq_default _ _ (by rw [hfit.pages_length]; exact hge)] at hpage
    cases hpage
  unfold storeEncoded
  rw [hensure]
  simp only [hpage, hslot]
  rfl

@[simp] theorem layout_overwritten (id pageId slot : Nat) (record : Record cfg)
    (st : Store cfg) : (overwritten id pageId slot record st).layout = st.layout := by
  simp [overwritten]

/-- No live buffer of the page hides the record from its readers. -/
def Unhidden (st : Store cfg) (pageId slot : Nat) (record : Record cfg) : Prop :=
  ∀ swb, st.bufferHolding pageId = some swb → recordAt cfg swb.data slot = record

/-- A write past a live buffer of the page keeps what every reader sees. -/
theorem writeRecord_keeps_buffered {st : Store cfg} {pageId slot : Nat}
    (record : Record cfg) (hslot : slot < cfg.vectorsPerPage) {swb : SectionWriteBuf}
    (hheld : st.bufferHolding pageId = some swb) (other : Nat) :
    Keeps other st (writeRecord pageId slot record st) := by
  by_cases hsame : other = pageId
  · subst hsame
    have hheld' : (writeRecord other slot record st).bufferHolding other = some swb := hheld
    refine ⟨?_, fun _ himage => .inl himage, ?_, ByteFile.size_le_pwrite _ _ _ _⟩
    · intro i _
      unfold overlaidPage
      rw [hheld, hheld']
    · intro hnone
      rw [hheld'] at hnone
      cases hnone
  · exact writeRecord_keeps record hslot hsame

/-- Unless a buffer hides it, an overwritten record is what readers find from then on;
they find what they found before in every other slot. -/
theorem overwritten_spec {st : Store cfg} (hwf : st.WellFormed) (id : Nat)
    {pageId slot : Nat} {record : Record cfg} (hslot : slot < cfg.vectorsPerPage)
    (hunhidden : st.Unhidden pageId slot record) :
    (overwritten id pageId slot record st).WellFormed ∧
      (overwritten id pageId slot record st).Holds pageId slot record ∧
      ∀ other otherSlot found, otherSlot < cfg.vectorsPerPage →
        (other = pageId → otherSlot ≠ slot) → st.Holds other otherSlot found →
          (overwritten id pageId slot record st).Holds other otherSlot found := by
  have hwritten := hwf.writeRecord pageId slot record
  have hrefreshed : (updateCacheAfterWrite pageId slot record
      (writeRecord pageId slot record st)).WellFormed ∧
      (updateCacheAfterWrite pageId slot record
        (writeRecord pageId slot record st)).Holds pageId slot record ∧
      ∀ other otherSlot found, otherSlot < cfg.vectorsPerPage →
        (other = pageId → otherSlot ≠ slot) → st.Holds other otherSlot found →
          (updateCacheAfterWrite pageId slot record
            (writeRecord pageId slot record st)).Holds other otherSlot found := by
    cases hheld : st.bufferHolding pageId with
    | none =>
        exact (writeRecord_fills record hheld).updateCacheAfterWrite hslot hwritten
          fun other hne => writeRecord_keeps record hslot hne
    | some swb =>
        have hheld' : (writeRecord pageId slot record st).bufferHolding pageId = some swb :=
          hheld
        refine ⟨hwritten.updateCacheAfterWrite _ _ _,
          updateCacheAfterWrite_holds hwritten hslot ?_ ?_, ?_⟩
        · unfold overlaidPage
          rw [hheld']
          exact hunhidden swb hheld
        · intro hnone
          rw [hheld'] at hnone
          cases hnone
        · intro other otherSlot found hother hne hholds
          exact updateCacheAfterWrite_holds_other hwritten record hslot hne
            ((writeRecord_keeps_buffered record hslot hheld other).holds hother hholds)
  obtain ⟨hdone, hholds, hothers⟩ := hrefreshed
  have hquiet := quiet_markDeletedAt (updateCacheAfterWrite pageId slot record
    (writeRecord pageId slot record st)) id false
  exact ⟨hquiet.wellFormed hdone, (hquiet.keeps hdone pageId).holds hslot hholds,
    fun other otherSlot found hother hne hheld => (hquiet.keeps hdone other).holds hother
      (hothers other otherSlot found hother hne hheld)⟩

end Store

/-! Runs with overwrites -/

/-- What a session with checkpoints does: a call, or a save and a reopening. -/
inductive Event (cfg : Config) where
  | call (c : Call cfg)
  | reopen

namespace Session

/-- Flush and save, and open the files again with the capacity the store was first opened
with. -/
def reopen (capacity : Nat) (s : Session cfg) : Option (Session cfg) :=
  let saved := s.st.syncData
  match Store.construct (cfg.withMaxCachedPages s.maxCachedPages) capacity saved.file
      saved.deletedFlags with
  | none => none
  | some fresh =>
      match fresh.deserializeMetadata saved.serializeMetadata with
      | .returned (some (loaded, _)) => some { s with st := loaded }
      | _ => none

def happens (capacity : Nat) (s : Session cfg) : Event cfg → Option (Session cfg)
  | .call c => s.step c
  | .reopen => s.reopen capacity

/-- An overwrite finds no live buffer of its page, or one that has the record already, and
a reopened page table is one whose pages all have 32-bit numbers. -/
def Settled (s : Session cfg) : Event cfg → Prop
  | .call (.storeEncoded id record _) =>
      match s.st.location id with
      | none => True
      | some (pageId, slot) => s.st.Unhidden pageId slot (record.under s.maxCachedPages)
  | .call _ => True
  | .reopen => s.st.pages.length ≤ 2 ^ 31

/-- What sessions with checkpoints keep. -/
structure Durable (capacity : Nat) (s : Session cfg) : Prop where
  faithful : s.Faithful
  saved : s.st.Saved
  filled : s.st.pages.length ≤ 2 ^ 31 → s.st.Filled
  doubled : Store.Doubled capacity s.st.totalVectors

/-- An overwrite that no buffer hides. -/
theorem Faithful.overwrite {s : Session cfg} (hfaithful : s.Faithful) {id pageId slot : Nat}
    (hlocation : s.st.location id = some (pageId, slot)) (record : Record cfg)
    (sectionKey : Nat)
    (hunhidden : s.st.Unhidden pageId slot (record.under s.maxCachedPages)) :
    Faithful ⟨s.maxCachedPages, (Store.storeEncoded id (record.under s.maxCachedPages)
      sectionKey s.st).2, Function.update s.stored id (some record)⟩ := by
  have hfit := hfaithful.sound.fit
  have hsteady := Store.steady_storeEncoded id (record.under s.maxCachedPages) sectionKey s.st
  have hsized := Store.sized_storeEncoded hfaithful.sized hfit id
    (record.under s.maxCachedPages) sectionKey
  have hunfree := Store.unfree_storeEncoded hfaithful.unfree hfit id
    (record.under s.maxCachedPages) sectionKey
  have hexact := hfaithful.exactly
  rw [← hsteady.table] at hexact
  rw [Store.storeEncoded_of_location hfit hlocation] at hsized hunfree hexact ⊢
  have hid : s.st.hasLocation id = true := by
    rw [← Store.location_isSome hfit, hlocation]
    rfl
  obtain ⟨old, hold⟩ := hfaithful.located id hid
  obtain ⟨_, _, hloc, hreserved, -⟩ := hfaithful.serves id old hold
  cases hloc.symm.trans hlocation
  have hlayout := Store.layout_overwritten id pageId slot (record.under s.maxCachedPages) s.st
  have hsame := Store.sameTables_of_layout_eq hlayout
  obtain ⟨hwf, hholds, hothers⟩ := Store.overwritten_spec
    hfaithful.sound.wellFormed id hreserved.slot_lt hunhidden
  refine ⟨⟨hwf, (Store.offers_congr hlayout).mpr hfaithful.sound.offers, hsame.fit hfit⟩,
    hexact, hsized, hunfree, ?_, ?_, ?_⟩
  · intro other hother
    by_cases heq : other = id
    · exact ⟨record, by rw [heq]; exact Function.update_self _ _ _⟩
    · obtain ⟨found, hfound⟩ := hfaithful.located other
        ((hsame.location other).2.symm.trans hother)
      exact ⟨found, (Function.update_of_ne heq _ _).trans hfound⟩
  · intro other found hfound
    by_cases heq : other = id
    · subst heq
      cases (Function.update_self other (some record) s.stored).symm.trans hfound
      exact ⟨pageId, slot, (hsame.location other).1.trans hlocation,
        (Store.reserved_congr hlayout _ _).mpr hreserved, hholds⟩
    · obtain ⟨page, otherSlot, hother, hkept, hheld⟩ := hfaithful.serves other found
        ((Function.update_of_ne heq _ _).symm.trans hfound)
      refine ⟨page, otherSlot, (hsame.location other).1.trans hother,
        (Store.reserved_congr hlayout _ _).mpr hkept,
        hothers page otherSlot _ hkept.slot_lt ?_ hheld⟩
      -- Two ids share no slot.
      rintro rfl rfl
      exact heq (hfaithful.distinct other id _ hother hlocation)
  · intro other other' loc hother hother'
    exact hfaithful.distinct other other' loc ((hsame.location other).1.symm.trans hother)
      ((hsame.location other').1.symm.trans hother')

/-- The condition is exact: right after an overwrite the id is read as stored if and only
if no buffer hides the record. -/
theorem Faithful.read_overwritten_iff {s : Session cfg} (hfaithful : s.Faithful)
    {id pageId slot : Nat} (hlocation : s.st.location id = some (pageId, slot))
    (record : Record cfg) :
    (Store.readVectorFromDisk id (Store.overwritten id pageId slot
        (record.under s.maxCachedPages) s.st)).1 =
      .returned (record.under s.maxCachedPages) ↔
      s.st.Unhidden pageId slot (record.under s.maxCachedPages) := by
  have hsame := Store.sameTables_of_layout_eq
    (Store.layout_overwritten id pageId slot (record.under s.maxCachedPages) s.st)
  have hlocation' := (hsame.location id).1.trans hlocation
  have hid : s.st.hasLocation id = true := by
    rw [← Store.location_isSome hfaithful.sound.fit, hlocation]
    rfl
  obtain ⟨old, hold⟩ := hfaithful.located id hid
  obtain ⟨_, _, hloc, hreserved, -⟩ := hfaithful.serves id old hold
  cases hloc.symm.trans hlocation
  rw [Store.readVectorFromDisk_of_location hlocation']
  constructor
  · intro hread swb hheld
    have hheld' : (Store.overwritten id pageId slot (record.under s.maxCachedPages)
        s.st).bufferHolding pageId = some swb := by
      rw [← hheld]
      unfold Store.overwritten Store.markDeletedAt
      split <;> exact Store.bufferHolding_updateCacheAfterWrite _ _ _ _ _
    unfold Store.readRecordAt Store.tryReadFromWriteBuf at hread
    rw [hheld'] at hread
    exact Outcome.returned.inj hread
  · intro hunhidden
    obtain ⟨hwf, hholds, -⟩ := Store.overwritten_spec
      hfaithful.sound.wellFormed id hreserved.slot_lt hunhidden
    exact (Store.readRecordAt_spec hwf hreserved.slot_lt hholds).1

/-! Reopening -/

/-- A store whose tables were rebuilt from a flushed one serves what that one served. -/
theorem Faithful.rebuild {s : Session cfg} (hfaithful : s.Faithful) (hsaved : s.st.Saved)
    (hfilled : s.st.Filled) (hflushed : ∀ pageId, s.st.bufferHolding pageId = none)
    {grown : Store (cfg.withMaxCachedPages s.maxCachedPages)}
    (hfile : grown.file = s.st.file) (htotal : grown.totalVectors = s.st.totalVectors) :
    Faithful { s with st := Store.rebuild grown s.st.tables } := by
  have hloaded := Store.saved_rebuild hsaved htotal
  have hlocation : ∀ id, (Store.rebuild grown s.st.tables).location id = s.st.location id ∧
      (Store.rebuild grown s.st.tables).hasLocation id = s.st.hasLocation id := fun id =>
    Store.location_of_tables (Store.sameLocations_rebuild hsaved htotal id).1
      (Store.sameLocations_rebuild hsaved htotal id).2
  have hwf := Store.wellFormed_rebuild grown s.st.tables
  have hnone : ∀ pageId, (Store.rebuild grown s.st.tables).bufferHolding pageId = none := by
    intro pageId
    rw [Store.bufferHolding_eq_none_iff hwf.buffers]
    intro sectionIdx swb hbuf
    rw [Store.writeBuf_rebuild] at hbuf
    cases hbuf
  have hunfree : (Store.rebuild grown s.st.tables).Unfree := by
    intro sectionIdx
    refine List.eq_nil_iff_forall_not_mem.mpr fun entry hmem => ?_
    obtain ⟨-, page, hpage, -, hused, hfree⟩ := Store.mem_freeSlotsOf.mp hmem
    obtain ⟨id, hid⟩ := hfilled entry.1 entry.2 ⟨page, hpage, hused⟩
    rw [← (hlocation id).1] at hid
    rw [Store.slotInUse_of_locates
      (hsaved.fit.pages_length.trans hsaved.fit.slots_length.symm)
      (Store.locates_of_location hloaded.fit hid)] at hfree
    cases hfree
  refine hfaithful.of_serves ⟨hwf, hloaded.offers, hloaded.fit⟩
    ⟨fun cs _ hcs => absurd hcs (Nat.not_lt_zero cs), .inl rfl⟩ ?_ hunfree rfl hlocation ?_
  · change s.st.pages.length * kPageSize ≤ grown.file.size
    rw [hfile]
    exact hfaithful.sized
  · rintro id record ⟨pageId, slot, hid, hreserved, hholds⟩
    obtain ⟨page, hpage, hslot⟩ := Store.used_of_location hsaved hid
    refine ⟨pageId, slot, (hlocation id).1.trans hid, ⟨hreserved.slot_lt, ?_, page, hpage,
      .inl hslot⟩, ?_, ?_, ?_⟩
    · intro sectionIdx hmem
      change (pageId, slot) ∈ (Store.rebuild grown s.st.tables).freeSlots sectionIdx at hmem
      rw [hunfree sectionIdx] at hmem
      cases hmem
    · have hcontent := hholds.content
      rw [Store.overlaidPage_of_none (hflushed pageId)] at hcontent
      rw [Store.overlaidPage_of_none (hnone pageId)]
      change Store.recordAt _ (fun i => grown.file.bytes (pageId * kPageSize + i)) slot = _
      rw [hfile]
      exact hcontent
    · intro image himage
      cases himage
    · intro _ _
      change _ ≤ grown.file.size
      rw [hfile]
      exact backed_of_reserved hfaithful.sized hreserved

/-- A store without live buffers. -/
theorem bufferHolding_flushWrites {st : Store cfg} (hwf : st.WellFormed) (pageId : Nat) :
    st.flushWrites.bufferHolding pageId = none := by
  obtain ⟨hflushed, -, hnone⟩ := Store.flushWrites_spec hwf
  rw [Store.bufferHolding_eq_none_iff hflushed.buffers]
  intro sectionIdx swb hbuf
  rw [hnone] at hbuf
  cases hbuf

/-- Loading a checkpoint leaves the vector file alone. -/
theorem file_deserializeMetadata {st loaded : Store cfg} {stream rest : List UInt8}
    (hload : st.deserializeMetadata stream = .returned (some (loaded, rest))) :
    loaded.file = st.file := by
  obtain ⟨header, tables, grown, haccepts, rfl⟩ := Store.deserializeMetadata_accepts hload
  obtain ⟨_, _, _, rfl⟩ := haccepts.grown_eq
  rfl

theorem construct_of_le (cfg : Config) {capacity : Nat}
    (hcapacity : capacity ≤ Store.maxVectorElements) (file : ByteFile)
    (deletedFlags : Nat → Bool) :
    ∃ fresh, Store.construct cfg capacity file deletedFlags = some fresh ∧
      fresh.totalVectors = capacity ∧ fresh.file = file := by
  unfold Store.construct
  rw [if_neg (Nat.not_lt.mpr hcapacity)]
  exact ⟨_, rfl, rfl, rfl⟩

/-- The checkpoint of a store that started with some capacity loads into a new store of that
capacity, over whatever file. -/
theorem load_checkpoint {st fresh : Store cfg} {capacity : Nat} {file : ByteFile}
    {deletedFlags : Nat → Bool} (hsaved : st.Saved)
    (hdoubled : Store.Doubled capacity st.totalVectors)
    (hconstruct : Store.construct cfg capacity file deletedFlags = some fresh) :
    ∃ grown, fresh.deserializeMetadata st.serializeMetadata =
        .returned (some (Store.rebuild grown st.tables, [])) ∧
      grown.file = file ∧ grown.totalVectors = st.totalVectors := by
  have hfits := Store.capacityFits_of_doubled hsaved.savable.total_le hdoubled
  unfold Store.CapacityFits at hfits
  rw [← Store.construct_totalVectors hconstruct] at hfits
  obtain ⟨grown, hgrown, hload⟩ := Store.deserializeMetadata_serializeMetadata hsaved hfits
    (.inl hsaved.savable.total_le) []
  rw [List.append_nil] at hload
  have hfile : fresh.file = file := by
    unfold Store.construct at hconstruct
    split at hconstruct
    · cases hconstruct
    · cases hconstruct
      rfl
  exact ⟨grown, hload, (file_deserializeMetadata hload).trans hfile, hgrown⟩

/-- Loading the checkpoint of a flushed store into a new one over the same file. -/
theorem Durable.load {capacity : Nat} {s : Session cfg} (hdurable : s.Durable capacity)
    (hpages : s.st.pages.length ≤ 2 ^ 31) (hcapacity : capacity ≤ Store.maxVectorElements)
    (hflushed : ∀ pageId, s.st.bufferHolding pageId = none) :
    ∃ fresh grown, Store.construct (cfg.withMaxCachedPages s.maxCachedPages) capacity
        s.st.file s.st.deletedFlags = some fresh ∧
      fresh.deserializeMetadata s.st.serializeMetadata =
        .returned (some (Store.rebuild grown s.st.tables, [])) ∧
      Durable capacity { s with st := Store.rebuild grown s.st.tables } := by
  have hsaved := hdurable.saved
  obtain ⟨fresh, hconstruct, -, -⟩ := construct_of_le
    (cfg.withMaxCachedPages s.maxCachedPages) hcapacity s.st.file s.st.deletedFlags
  obtain ⟨grown, hload, hfile, hgrown⟩ := load_checkpoint hsaved hdurable.doubled hconstruct
  refine ⟨fresh, grown, hconstruct, hload,
    hdurable.faithful.rebuild hsaved (hdurable.filled hpages) hflushed hfile hgrown,
    Store.saved_rebuild hsaved hgrown, fun hpages' => ?_, ?_⟩
  · refine (hdurable.filled hpages).congr (fun _ _ hused => hused) fun id => ?_
    exact (Store.location_of_tables (Store.sameLocations_rebuild hsaved hgrown id).1
      (Store.sameLocations_rebuild hsaved hgrown id).2).1
  · change Store.Doubled capacity grown.totalVectors
    rw [hgrown]
    exact hdurable.doubled

/-- What keeps the tables keeps them fit for a checkpoint. -/
theorem Durable.of_layout {capacity : Nat} {s t : Session cfg} (hdurable : s.Durable capacity)
    (hfaithful : t.Faithful) (hlayout : t.st.layout = s.st.layout)
    (hlocation : ∀ id, t.st.location id = s.st.location id) : t.Durable capacity := by
  have hpages : t.st.pages = s.st.pages := congrArg Layout.pages hlayout
  have htotal : t.st.totalVectors = s.st.totalVectors :=
    congrArg Layout.totalVectors hlayout
  refine ⟨hfaithful, ⟨hfaithful.sound.offers, hfaithful.sound.fit, ?_⟩, fun hle => ?_, ?_⟩
  · rw [hlayout]
    exact hdurable.saved.savable
  · rintro pageId slot ⟨page, hpage, hslot⟩
    rw [hpages] at hle hpage
    obtain ⟨id, hid⟩ := hdurable.filled hle pageId slot ⟨page, hpage, hslot⟩
    exact ⟨id, (hlocation id).trans hid⟩
  · rw [htotal]
    exact hdurable.doubled

theorem Durable.reopen {capacity : Nat} {s : Session cfg} (hdurable : s.Durable capacity)
    (hpages : s.st.pages.length ≤ 2 ^ 31) (hcapacity : capacity ≤ Store.maxVectorElements) :
    ∃ t, s.reopen capacity = some t ∧ t.Durable capacity := by
  have hwf := hdurable.faithful.sound.wellFormed
  have hsame := Store.undisturbed_flushWrites hwf
  have hnone := bufferHolding_flushWrites hwf
  unfold Session.reopen Store.syncData
  generalize s.st.flushWrites = st at hsame hnone ⊢
  have hflushed : Durable capacity { s with st := st } :=
    hdurable.of_layout (hdurable.faithful.undisturbed hsame) hsame.layout fun id =>
      ((Store.sameTables_of_layout_eq hsame.layout).location id).1
  have hpages' : st.pages.length ≤ 2 ^ 31 := by
    rw [show st.pages = s.st.pages from congrArg Layout.pages hsame.layout]
    exact hpages
  obtain ⟨fresh, grown, hconstruct, hload, hloaded⟩ := hflushed.load hpages' hcapacity hnone
  refine ⟨_, ?_, hloaded⟩
  simp only [hconstruct, hload]

/-! The runs -/

/-- A store, of a new id or an old one. -/
theorem Durable.stores {capacity : Nat} {s : Session cfg} (hdurable : s.Durable capacity)
    (id : NodeId) (record : Record cfg) (sectionKey : NodeId)
    (hsettled : s.Settled (.call (.storeEncoded id record sectionKey))) :
    ∃ t, s.step (.storeEncoded id record sectionKey) = some t ∧ t.Durable capacity := by
  have hfaithful := hdurable.faithful
  have hsaved := Store.saved_storeEncoded hdurable.saved id.isLt
    (record.under s.maxCachedPages) sectionKey.isLt
  have hdoubled := Store.doubled_storeEncoded id.val (record.under s.maxCachedPages)
    sectionKey.val hdurable.doubled
  cases hlocation : s.st.location id with
  | some loc =>
      obtain ⟨pageId, slot⟩ := loc
      have hunhidden : s.st.Unhidden pageId slot (record.under s.maxCachedPages) := by
        simp only [Settled, hlocation] at hsettled
        exact hsettled
      have hstored := hfaithful.overwrite hlocation record sectionKey hunhidden
      have heq := Store.storeEncoded_of_location hfaithful.sound.fit hlocation
        (record.under s.maxCachedPages) sectionKey
      refine ⟨⟨s.maxCachedPages, (Store.storeEncoded id (record.under s.maxCachedPages)
        sectionKey s.st).2, Function.update s.stored id (some record)⟩, ?_, hstored, hsaved,
        ?_, hdoubled⟩
      · change s.afterStore id record _ = _
        rw [heq]
        rfl
      · rw [heq]
        intro hpages
        have hlayout := Store.layout_overwritten id pageId slot
          (record.under s.maxCachedPages) s.st
        have hold : s.st.pages.length ≤ 2 ^ 31 := by
          rw [← show _ = s.st.pages from congrArg Layout.pages hlayout]
          exact hpages
        exact (hdurable.filled hold).of_layout hlayout
  | none =>
      have hid : s.st.hasLocation id = false := by
        rw [← Store.location_isSome hfaithful.sound.fit, hlocation]
        rfl
      obtain ⟨t, hstep, ht, -⟩ := hfaithful.storeNew id record sectionKey hid
      have hgrows := Store.pages_length_le_storeEncoded id.val
        (record.under s.maxCachedPages) sectionKey.val s.st
      have hfilled := fun hold : s.st.pages.length ≤ 2 ^ 31 =>
        Store.filled_storeEncoded hfaithful.sound hid (record.under s.maxCachedPages)
          sectionKey (hdurable.filled hold)
      refine ⟨t, hstep, ?_⟩
      change s.afterStore id record _ = some t at hstep
      generalize Store.storeEncoded id (record.under s.maxCachedPages) sectionKey s.st = call
        at hsaved hdoubled hgrows hfilled hstep
      obtain ⟨outcome, st⟩ := call
      have hfilled' : st.pages.length ≤ 2 ^ 31 → st.Filled := fun hpages =>
        hfilled (Nat.le_trans hgrows hpages) hpages
      cases outcome with
      | undefined => cases hstep
      | threw =>
          cases hstep
          exact ⟨ht, hsaved, hfilled', hdoubled⟩
      | returned _ =>
          cases hstep
          exact ⟨ht, hsaved, hfilled', hdoubled⟩

/-- Every event of a settled run keeps the invariant. -/
theorem Durable.happens {capacity : Nat} {s : Session cfg} (hdurable : s.Durable capacity)
    (hcapacity : capacity ≤ Store.maxVectorElements) (event : Event cfg)
    (hsettled : s.Settled event) :
    ∃ t, s.happens capacity event = some t ∧ t.Durable capacity := by
  have hwf := hdurable.faithful.sound.wellFormed
  have hfit := hdurable.faithful.sound.fit
  have hafter : ∀ {α : Type}
      {call : Outcome α × Store (cfg.withMaxCachedPages s.maxCachedPages)},
      call.1 ≠ .undefined → Store.Undisturbed s.st call.2 →
        ∃ t, s.after call = some t ∧ t.Durable capacity := by
    intro α call hdefined hsame
    exact ⟨_, after_eq_some hdefined, hdurable.of_layout
      (hdurable.faithful.undisturbed hsame) hsame.layout fun id =>
        ((Store.sameTables_of_layout_eq hsame.layout).location id).1⟩
  cases event with
  | reopen => exact hdurable.reopen hsettled hcapacity
  | call c =>
      cases c with
      | storeEncoded id record sectionKey =>
          exact hdurable.stores id record sectionKey hsettled
      | readVectorFromDisk id =>
          exact hafter (Store.readVectorFromDisk_defined hfit id)
            (Store.undisturbed_readVectorFromDisk hwf id)
      | readVectorsBatch orders ids =>
          exact hafter (Store.readVectorsBatch_defined hfit orders ids)
            (Store.undisturbed_readVectorsBatch hwf orders ids)
      | readVectorsBatchFlat orders ids =>
          exact hafter (Store.readVectorsBatchFlat_defined hfit orders ids)
            (Store.undisturbed_readVectorsBatchFlat hwf orders ids)
      | prefetchByIds ids =>
          exact hafter (Store.prefetchByIds_defined hfit ids)
            (Store.undisturbed_prefetchByIds hwf ids)
      | flushWrites =>
          have hsame := Store.undisturbed_flushWrites hwf
          exact ⟨_, rfl, hdurable.of_layout (hdurable.faithful.undisturbed hsame)
            hsame.layout fun id =>
              ((Store.sameTables_of_layout_eq hsame.layout).location id).1⟩
      | setMaxCachedPages m =>
          exact ⟨_, rfl, hdurable.of_layout (hdurable.faithful.setMaxCachedPages m)
            (Store.layout_setMaxCachedPages m s.st) fun id =>
              (Store.location_setMaxCachedPages m s.st id).1⟩

theorem Durable.start {capacity : Nat} {file : ByteFile} {deletedFlags : Nat → Bool}
    {fresh : Store cfg}
    (hconstruct : Store.construct cfg capacity file deletedFlags = some fresh) :
    Durable capacity (Session.start fresh) := by
  refine ⟨Faithful.start hconstruct, Store.saved_construct hconstruct, fun _ => ?_, ?_⟩
  · rintro pageId slot ⟨page, hpage, -⟩
    have hpages : fresh.pages = [] := by
      unfold Store.construct at hconstruct
      split at hconstruct
      · cases hconstruct
      · cases hconstruct
        rfl
    change fresh.pages[pageId]? = some page at hpage
    rw [hpages] at hpage
    cases hpage
  · refine .inr ⟨0, ?_⟩
    rw [Nat.pow_zero, Nat.mul_one]
    exact Store.construct_totalVectors hconstruct

/-- Over any run of a new store that settles every overwrite, every id that has a location
is read as it was last stored, on every way to read it. -/
theorem last_write_wins {capacity : Nat} {file : ByteFile} {deletedFlags : Nat → Bool}
    {fresh : Store cfg}
    (hconstruct : Store.construct cfg capacity file deletedFlags = some fresh)
    (events : List (Event cfg))
    (hsettled : Machines.Meets (Session.happens capacity) Settled (Session.start fresh)
      events) :
    ∃ s, Machines.run (Session.happens capacity) (Session.start fresh) events = some s ∧
      s.ReadsAgree := by
  have hcapacity : capacity ≤ Store.maxVectorElements := by
    by_contra hgt
    unfold Store.construct at hconstruct
    rw [if_pos (by omega)] at hconstruct
    cases hconstruct
  suffices hruns : ∀ (s : Session cfg), s.Durable capacity →
      Machines.Meets (Session.happens capacity) Settled s events →
        ∃ t, Machines.run (Session.happens capacity) s events = some t ∧
          t.Durable capacity by
    obtain ⟨s, hrun, hs⟩ := hruns _ (Durable.start hconstruct) hsettled
    exact ⟨s, hrun, hs.faithful.readsAgree⟩
  clear hsettled
  induction events with
  | nil => exact fun s hs _ => ⟨s, rfl, hs⟩
  | cons event events ih =>
      intro s hs hmeets
      obtain ⟨m, hm, hdurable⟩ := hs.happens hcapacity event hmeets.1
      obtain ⟨t, hrun, ht⟩ := ih m hdurable (hmeets.tail hm)
      exact ⟨t, Machines.run_cons.mpr ⟨m, hm, hrun⟩, ht⟩

/-! Id 0 is stored twice, first while the buffer of its page is live, then after a
flush. -/

def storesTwice : List (Event Store.tinyConfig) :=
  [.call (.storeEncoded 0 (Store.tinyRecord 1) 7),
    .call (.storeEncoded 0 (Store.tinyRecord 2) 7)]

def flushesBetween : List (Event Store.tinyConfig) :=
  [.call (.storeEncoded 0 (Store.tinyRecord 1) 7), .call .flushWrites,
    .call (.setMaxCachedPages 1), .call (.storeEncoded 0 (Store.tinyRecord 2) 7), .reopen,
    .call (.storeEncoded 0 (Store.tinyRecord 3) 7)]

theorem ReadsAgree.read {s : Session cfg} (hagree : s.ReadsAgree) {id : Nat}
    {record : Record cfg} (hid : s.st.hasLocation id = true)
    (hrecord : s.stored id = some record) :
    (Store.readVectorFromDisk id s.st).1 = .returned (record.under s.maxCachedPages) := by
  obtain ⟨records, hstored, hreads, -⟩ := hagree [id] (by simpa using hid)
  cases records with
  | nil => cases hstored
  | cons found records =>
      rw [List.map_cons, List.map_cons, hrecord] at hstored
      cases (List.cons.inj hstored).1
      rw [List.map_cons, List.map_cons] at hreads
      exact (List.cons.inj hreads).1

set_option maxRecDepth 8000 in
/-- Readers of a second store past the live buffer find the first record, before and after
the flush that writes it over the second. -/
theorem storesTwice_readsFirst :
    (∃ s, Machines.run (happens 2) (start Store.roomForTwo) storesTwice = some s ∧
      ¬s.ReadsAgree) ∧
    ∃ s, Machines.run (happens 2) (start Store.roomForTwo)
      (storesTwice ++ [.call .flushWrites]) = some s ∧ ¬s.ReadsAgree := by
  constructor
  · refine ⟨_, rfl, fun hagree => ?_⟩
    have hread := hagree.read (show Store.hasLocation _ 0 = true from rfl) rfl
    revert hread
    decide
  · refine ⟨_, rfl, fun hagree => ?_⟩
    have hread := hagree.read (show Store.hasLocation _ 0 = true from rfl) rfl
    revert hread
    decide

instance (st : Store cfg) (pageId slot : Nat) (record : Record cfg) :
    Decidable (st.Unhidden pageId slot record) :=
  inferInstanceAs (Decidable (∀ swb, st.bufferHolding pageId = some swb → _))

instance decidableSettled (s : Session cfg) : ∀ event, Decidable (s.Settled event)
  | .call (.storeEncoded id record _) =>
      match hlocation : s.st.location id with
      | none => isTrue (by simp only [Settled, hlocation])
      | some (pageId, slot) => decidable_of_iff
          (s.st.Unhidden pageId slot (record.under s.maxCachedPages))
          (by simp only [Settled, hlocation])
  | .call (.readVectorFromDisk _) => isTrue trivial
  | .call (.readVectorsBatch _ _) => isTrue trivial
  | .call (.readVectorsBatchFlat _ _) => isTrue trivial
  | .call (.prefetchByIds _) => isTrue trivial
  | .call .flushWrites => isTrue trivial
  | .call (.setMaxCachedPages _) => isTrue trivial
  | .reopen => inferInstanceAs (Decidable (_ ≤ _))

theorem flushesBetween_readsLast :
    ∃ s, Machines.run (happens 2) (start Store.roomForTwo) flushesBetween = some s ∧
      s.ReadsAgree :=
  last_write_wins Store.construct_roomForTwo flushesBetween (by decide +kernel)

end Session

end AsterVec.PagedVectorStorage

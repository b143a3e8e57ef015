import Mathlib.Data.Finset.Card
import AsterVec.Machines
import AsterVec.PagedBounds

/-!
Runs of one thread over a store, with a cache bound that changes on the way.  The
invariant of a run: every id with a location is served the record it was last stored
with, from a slot no other id has and no call can be handed.
-/

namespace AsterVec.PagedVectorStorage

open AsterVec.ByteBuffer
open AsterVec.IdTypes

variable {cfg : Config}

/-! Runs -/

/-- `node_id_t`. -/
abbrev NodeId := Fin (2 ^ 64)

/-- A store on its way: the bound of its cache, which a call may change, and the record
each id was last stored with. -/
structure Session (cfg : Config) where
  maxCachedPages : Nat
  st : Store (cfg.withMaxCachedPages maxCachedPages)
  stored : Nat → Option (Record cfg)

/-- The calls of one thread.  A store may evict buffers over the cap on its way. -/
inductive Call (cfg : Config) where
  | storeEncoded (id : NodeId) (record : Record cfg) (sectionKey : NodeId)
  | readVectorFromDisk (id : Nat)
  | readVectorsBatch (orders : Orders) (ids : List Nat)
  | readVectorsBatchFlat (orders : Orders) (ids : List Nat)
  | prefetchByIds (ids : List Nat)
  | flushWrites
  | setMaxCachedPages (m : Nat)

/-- The id a call stores. -/
def Call.storedId : Call cfg → Option Nat
  | .storeEncoded id _ _ => some id
  | _ => none

namespace Session

/-- A session that starts with a store. -/
def start (st : Store cfg) : Session cfg := ⟨cfg.maxCachedPages, st, fun _ => none⟩

/-- The session after a call that stores nothing, unless the call is undefined. -/
def after {α : Type} (s : Session cfg)
    (call : Outcome α × Store (cfg.withMaxCachedPages s.maxCachedPages)) :
    Option (Session cfg) :=
  match call with
  | (.undefined, _) => none
  | (.returned _, st) => some { s with st := st }
  | (.threw, st) => some { s with st := st }

/-- The session after a store of `record`: the id has it from then on if the store
returned. -/
def afterStore (s : Session cfg) (id : Nat) (record : Record cfg)
    (call : Outcome Unit × Store (cfg.withMaxCachedPages s.maxCachedPages)) :
    Option (Session cfg) :=
  match call with
  | (.undefined, _) => none
  | (.threw, st) => some { s with st := st }
  | (.returned _, st) =>
      some { s with st := st, stored := Function.update s.stored id (some record) }

def setMaxCachedPages (s : Session cfg) (m : Nat) : Session cfg where
  maxCachedPages := m
  st := (Store.setMaxCachedPages m s.st :
    Store ((cfg.withMaxCachedPages s.maxCachedPages).withMaxCachedPages m))
  stored := s.stored

/-- One call; an exception leaves the session running. -/
def step (s : Session cfg) : Call cfg → Option (Session cfg)
  | .storeEncoded id record sectionKey => s.afterStore id record
      (Store.storeEncoded id (record.under s.maxCachedPages) sectionKey s.st)
  | .readVectorFromDisk id => s.after (Store.readVectorFromDisk id s.st)
  | .readVectorsBatch orders ids => s.after (Store.readVectorsBatch orders ids s.st)
  | .readVectorsBatchFlat orders ids =>
      s.after (Store.readVectorsBatchFlat orders ids s.st)
  | .prefetchByIds ids => s.after (Store.prefetchByIds ids s.st)
  | .flushWrites => some { s with st := s.st.flushWrites }
  | .setMaxCachedPages m => some (s.setMaxCachedPages m)

/-- Every way to read ids that have a location returns the records they were last stored
with, in their order. -/
def ReadsAgree (s : Session cfg) : Prop :=
  ∀ ids : List Nat, (∀ id ∈ ids, s.st.hasLocation id = true) →
    ∃ records : List (Record cfg), ids.map s.stored = records.map some ∧
      (ids.map fun id => (Store.readVectorFromDisk id s.st).1) =
        records.map (fun record => .returned (record.under s.maxCachedPages)) ∧
      ∀ orders : Orders,
        (Store.readVectorsBatch orders ids s.st).1 = .returned (records.map fun record =>
          some (record.under s.maxCachedPages)) ∧
        (Store.readVectorsBatchFlat orders ids s.st).1 = .returned (records.map fun record =>
          some (record.under s.maxCachedPages))

/-- The cached pages: no two slots hold one page, there are at most as many as the bound
allows, and each shows what a reader of the buffer and the file sees in every slot an id
has. -/
structure CacheAgrees (s : Session cfg) : Prop where
  one_slot : ∀ cs cs' buf buf', cs < s.st.cachedCount → cs' < s.st.cachedCount →
    s.st.cacheSlots[cs]? = some buf → s.st.cacheSlots[cs']? = some buf' →
      buf.pageId ≠ none → buf.pageId = buf'.pageId → cs = cs'
  bounded : ∀ pages : Finset Nat, (∀ pageId ∈ pages, (s.st.pageToSlot pageId).isSome) →
    pages.card ≤ s.maxCachedPages
  overlaid : ∀ cs buf pageId, cs < s.st.cachedCount → s.st.cacheSlots[cs]? = some buf →
    buf.pageId = some pageId → ∀ id slot, s.st.location id = some (pageId, slot) →
      Store.recordAt cfg buf.data slot =
        Store.recordAt cfg (s.st.overlaidPage pageId) slot

/-! The invariant -/

/-- The id has a slot of its own that no call can be handed, and the record is in it. -/
def Serves (s : Session cfg) (id : Nat) (record : Record cfg) : Prop :=
  ∃ pageId slot, s.st.location id = some (pageId, slot) ∧ s.st.Reserved pageId slot ∧
    s.st.Holds pageId slot (record.under s.maxCachedPages)

structure Faithful (s : Session cfg) : Prop where
  sound : s.st.Sound
  exactly : s.st.cacheTable.Exact
  sized : s.st.Sized
  unfree : s.st.Unfree
  located : ∀ id, s.st.hasLocation id = true → ∃ record, s.stored id = some record
  serves : ∀ id record, s.stored id = some record → s.Serves id record
  distinct : ∀ id other loc, s.st.location id = some loc → s.st.location other = some loc →
    id = other

/-- Sessions that store and find every id as `s` does. -/
theorem Faithful.of_serves {s t : Session cfg} (hfaithful : s.Faithful)
    (hsound : t.st.Sound) (hexact : t.st.cacheTable.Exact) (hsized : t.st.Sized)
    (hunfree : t.st.Unfree) (hstored : t.stored = s.stored)
    (hlocation : ∀ id, t.st.location id = s.st.location id ∧
      t.st.hasLocation id = s.st.hasLocation id)
    (hserves : ∀ id record, s.Serves id record → t.Serves id record) : t.Faithful := by
  refine ⟨hsound, hexact, hsized, hunfree, ?_, ?_, ?_⟩
  · intro id hid
    rw [hstored]
    exact hfaithful.located id ((hlocation id).2.symm.trans hid)
  · intro id record hrecord
    rw [hstored] at hrecord
    exact hserves id record (hfaithful.serves id record hrecord)
  · intro id other loc hid hother
    rw [(hlocation id).1] at hid
    rw [(hlocation other).1] at hother
    exact hfaithful.distinct id other loc hid hother

/-- What moves no record keeps the invariant. -/
theorem Faithful.undisturbed {s : Session cfg} (hfaithful : s.Faithful)
    {st : Store (cfg.withMaxCachedPages s.maxCachedPages)}
    (hsame : Store.Undisturbed s.st st) : Faithful { s with st := st } := by
  have hpreserves := Store.Preserves.of_keeps 0 hfaithful.sound hsame.layout
    hsame.wellFormed hsame.keeps
  have hpages := congrArg (fun layout : Layout => layout.pages.length) hsame.layout
  refine hfaithful.of_serves hpreserves.sound (hsame.exactly hfaithful.exactly)
    (hfaithful.sized.congr hpages (hsame.keeps 0).size_le)
    (hfaithful.unfree.of_layout (congrArg Layout.freeSlots hsame.layout)) rfl
    (Store.sameTables_of_layout_eq hsame.layout).location ?_
  rintro id record ⟨pageId, slot, hlocation, hreserved, hholds⟩
  exact ⟨pageId, slot,
    ((Store.sameTables_of_layout_eq hsame.layout).location id).1.trans hlocation,
    hpreserves.reserved _ _ hreserved,
    hpreserves.holds pageId slot _ (hfaithful.unfree.guarded hreserved) hholds⟩

/-- A slot no call can be handed lies inside the file. -/
theorem backed_of_reserved {st : Store cfg} (hsized : st.Sized) {pageId slot : Nat}
    (hreserved : st.Reserved pageId slot) :
    pageId * kPageSize + slot * cfg.recordSize + cfg.recordSize ≤ st.file.size := by
  have hfits := cfg.slot_fits hreserved.slot_lt
  have hpage := Nat.mul_le_mul_right kPageSize (Nat.succ_le_of_lt hreserved.pageId_lt)
  rw [Nat.succ_mul] at hpage
  have hsize : st.pages.length * kPageSize ≤ st.file.size := hsized
  change pageId * kPageSize + kPageSize ≤ st.pages.length * kPageSize at hpage
  omega

theorem Faithful.setMaxCachedPages {s : Session cfg} (hfaithful : s.Faithful) (m : Nat) :
    (s.setMaxCachedPages m).Faithful := by
  have hwf := hfaithful.sound.wellFormed
  have hlayout := Store.layout_setMaxCachedPages m s.st
  have hlocation := Store.location_setMaxCachedPages m s.st
  have hreserved : ∀ pageId slot, s.st.Reserved pageId slot →
      (Store.setMaxCachedPages m s.st).Reserved pageId slot := by
    intro pageId slot hold
    unfold Store.Reserved
    rw [hlayout]
    exact ⟨hold.slot_lt, hold.not_free, hold.used_or_closed⟩
  refine hfaithful.of_serves (Store.sound_setMaxCachedPages m hfaithful.sound
      hfaithful.exactly) (Store.cache_setMaxCachedPages m hwf.cache hfaithful.exactly).2.1
    (Store.sized_setMaxCachedPages m hfaithful.sized)
    (fun sectionIdx => (congrFun (congrArg Layout.freeSlots hlayout) sectionIdx).trans
      (hfaithful.unfree sectionIdx)) rfl hlocation ?_
  rintro id record ⟨pageId, slot, hold, hkept, hholds⟩
  exact ⟨pageId, slot, (hlocation id).1.trans hold, hreserved _ _ hkept,
    Store.holds_setMaxCachedPages m hwf hfaithful.exactly hholds
      (backed_of_reserved hfaithful.sized hkept)⟩

theorem location_of_unlocated {st : Store cfg} (hfit : st.LocationsFit) {id : Nat}
    (hid : st.hasLocation id = false) : st.location id = none := by
  have hsome := Store.location_isSome hfit id
  rw [hid] at hsome
  exact Option.isNone_iff_eq_none.mp (by simpa using hsome)

section Stores

variable {s : Session cfg} {st : Store (cfg.withMaxCachedPages s.maxCachedPages)} {id : Nat}

/-- A step that keeps the slots and records of the other ids still serves them. -/
theorem serves_other (hfaithful : s.Faithful) (hpreserves : Store.Preserves id s.st st)
    (stored : Nat → Option (Record cfg)) {other : Nat} {found : Record cfg}
    (hne : other ≠ id) (hserves : s.Serves other found) :
    Serves ⟨s.maxCachedPages, st, stored⟩ other found := by
  obtain ⟨pageId, slot, hlocation, hreserved, hholds⟩ := hserves
  exact ⟨pageId, slot, (hpreserves.location other hne).1.trans hlocation,
    hpreserves.reserved _ _ hreserved,
    hpreserves.holds pageId slot _ (hfaithful.unfree.guarded hreserved) hholds⟩

/-- A store that failed has left the id without a location. -/
theorem Faithful.failed (hfaithful : s.Faithful) (hpreserves : Store.Preserves id s.st st)
    (hexact : st.cacheTable.Exact) (hsized : st.Sized) (hunfree : st.Unfree)
    (hid : s.st.hasLocation id = false) (hfailed : st.hasLocation id = false) :
    Faithful ⟨s.maxCachedPages, st, s.stored⟩ := by
  refine of_serves hfaithful hpreserves.sound hexact hsized hunfree rfl ?_ ?_
  · intro other
    by_cases hsame : other = id
    · subst hsame
      exact ⟨(location_of_unlocated hpreserves.sound.fit hfailed).trans
        (location_of_unlocated hfaithful.sound.fit hid).symm, hfailed.trans hid.symm⟩
    · exact hpreserves.location other hsame
  · intro other found hserves
    refine serves_other hfaithful hpreserves _ ?_ hserves
    rintro rfl
    obtain ⟨pageId, slot, hlocation, -⟩ := hserves
    rw [location_of_unlocated hfaithful.sound.fit hid] at hlocation
    cases hlocation

/-- A store that returned has put the record into a slot that was not reserved. -/
theorem Faithful.stores (hfaithful : s.Faithful) (hpreserves : Store.Preserves id s.st st)
    (hexact : st.cacheTable.Exact) (hsized : st.Sized) (hunfree : st.Unfree)
    {record : Record cfg} {pageId slot : Nat}
    (hlocation : st.location id = some (pageId, slot))
    (hfresh : ¬s.st.Reserved pageId slot) (hreserved : st.Reserved pageId slot)
    (hholds : st.Holds pageId slot (record.under s.maxCachedPages)) :
    Faithful ⟨s.maxCachedPages, st, Function.update s.stored id (some record)⟩ := by
  have hold : ∀ other, other ≠ id → ∀ loc, st.location other = some loc →
      s.st.location other = some loc ∧ s.st.Reserved loc.1 loc.2 := by
    intro other hne loc hother
    rw [(hpreserves.location other hne).1] at hother
    have hlocated : s.st.hasLocation other = true := by
      rw [← Store.location_isSome hfaithful.sound.fit, hother]
      rfl
    obtain ⟨found, hfound⟩ := hfaithful.located other hlocated
    obtain ⟨_, _, hserved, hkept, -⟩ := hfaithful.serves other found hfound
    cases hserved.symm.trans hother
    exact ⟨hother, hkept⟩
  refine ⟨hpreserves.sound, hexact, hsized, hunfree, ?_, ?_, ?_⟩
  · intro other hother
    by_cases hsame : other = id
    · exact ⟨record, by rw [hsame]; exact Function.update_self _ _ _⟩
    · obtain ⟨found, hfound⟩ := hfaithful.located other
        ((hpreserves.location other hsame).2.symm.trans hother)
      exact ⟨found, (Function.update_of_ne hsame _ _).trans hfound⟩
  · intro other found hfound
    by_cases hsame : other = id
    · subst hsame
      cases (Function.update_self other (some record) s.stored).symm.trans hfound
      exact ⟨pageId, slot, hlocation, hreserved, hholds⟩
    · exact serves_other hfaithful hpreserves _ hsame (hfaithful.serves other found
        ((Function.update_of_ne hsame _ _).symm.trans hfound))
  · intro other other' loc hother hother'
    by_cases hsame : other = id
    · by_cases hsame' : other' = id
      · rw [hsame, hsame']
      · rw [hsame] at hother
        cases hlocation.symm.trans hother
        exact absurd (hold other' hsame' _ hother').2 hfresh
    · by_cases hsame' : other' = id
      · rw [hsame'] at hother'
        cases hlocation.symm.trans hother'
        exact absurd (hold other hsame _ hother).2 hfresh
      · exact hfaithful.distinct other other' loc (hold other hsame loc hother).1
          (hold other' hsame' loc hother').1

end Stores

/-- A store of an id without a location. -/
theorem Faithful.storeNew {s : Session cfg} (hfaithful : s.Faithful) (id : NodeId)
    (record : Record cfg) (sectionKey : NodeId) (hid : s.st.hasLocation id = false) :
    ∃ t, s.step (.storeEncoded id record sectionKey) = some t ∧ t.Faithful ∧
      ∀ other, other ≠ id.val → t.st.hasLocation other = s.st.hasLocation other := by
  obtain ⟨hdefined, hpreserves, hreturned⟩ := Store.storeEncoded_spec hfaithful.sound hid
    (record.under s.maxCachedPages) sectionKey
  have hsteady := Store.steady_storeEncoded id (record.under s.maxCachedPages) sectionKey s.st
  have hsized := Store.sized_storeEncoded hfaithful.sized hfaithful.sound.fit id
    (record.under s.maxCachedPages) sectionKey
  have hunfree := Store.unfree_storeEncoded hfaithful.unfree hfaithful.sound.fit id
    (record.under s.maxCachedPages) sectionKey
  have hfailed := Store.location_of_not_returned hfaithful.sound hid
    (record.under s.maxCachedPages) sectionKey
  have hexact := hfaithful.exactly
  rw [← hsteady.table] at hexact
  have hothers := fun other hne => (hpreserves.location other hne).2
  change ∃ t, s.afterStore id record _ = some t ∧ _
  generalize Store.storeEncoded id (record.under s.maxCachedPages) sectionKey s.st = call
    at hdefined hpreserves hreturned hsized hunfree hfailed hexact hothers ⊢
  obtain ⟨outcome, st⟩ := call
  cases outcome with
  | undefined => exact absurd rfl hdefined
  | threw =>
      exact ⟨_, rfl, hfaithful.failed hpreserves hexact hsized hunfree hid
        (hfailed (by simp)), hothers⟩
  | returned value =>
      obtain ⟨pageId, slot, hlocation, hfresh, hreserved, hholds⟩ := hreturned rfl
      exact ⟨_, rfl, hfaithful.stores hpreserves hexact hsized hunfree hlocation hfresh
        hreserved hholds, hothers⟩

theorem after_eq_some {α : Type} {s : Session cfg}
    {call : Outcome α × Store (cfg.withMaxCachedPages s.maxCachedPages)}
    (hdefined : call.1 ≠ .undefined) : s.after call = some { s with st := call.2 } := by
  obtain ⟨outcome, st⟩ := call
  cases outcome with
  | undefined => exact absurd rfl hdefined
  | returned _ => rfl
  | threw => rfl

/-- A defined call that moves no record keeps the invariant and every location. -/
theorem Faithful.after {α : Type} {s : Session cfg} (hfaithful : s.Faithful)
    {call : Outcome α × Store (cfg.withMaxCachedPages s.maxCachedPages)}
    (hdefined : call.1 ≠ .undefined) (hsame : Store.Undisturbed s.st call.2) :
    ∃ t, s.after call = some t ∧ t.Faithful ∧
      ∀ other, t.st.hasLocation other = s.st.hasLocation other :=
  ⟨_, after_eq_some hdefined, hfaithful.undisturbed hsame, fun other =>
    ((Store.sameTables_of_layout_eq hsame.layout).location other).2⟩

/-- Every call but an overwrite keeps the invariant. -/
theorem Faithful.step {s : Session cfg} (hfaithful : s.Faithful) (call : Call cfg)
    (hnew : ∀ id, call.storedId = some id → s.st.hasLocation id = false) :
    ∃ t, s.step call = some t ∧ t.Faithful ∧
      ∀ other, call.storedId ≠ some other →
        t.st.hasLocation other = s.st.hasLocation other := by
  have hwf := hfaithful.sound.wellFormed
  have hfit := hfaithful.sound.fit
  cases call with
  | storeEncoded id record sectionKey =>
      obtain ⟨t, hstep, ht, hothers⟩ :=
        hfaithful.storeNew id record sectionKey (hnew id rfl)
      refine ⟨t, hstep, ht, fun other hne => hothers other ?_⟩
      rintro rfl
      exact hne rfl
  | readVectorFromDisk id =>
      obtain ⟨t, hstep, ht, hsame⟩ := hfaithful.after
        (Store.readVectorFromDisk_defined hfit id)
        (Store.undisturbed_readVectorFromDisk hwf id)
      exact ⟨t, hstep, ht, fun other _ => hsame other⟩
  | readVectorsBatch orders ids =>
      obtain ⟨t, hstep, ht, hsame⟩ := hfaithful.after
        (Store.readVectorsBatch_defined hfit orders ids)
        (Store.undisturbed_readVectorsBatch hwf orders ids)
      exact ⟨t, hstep, ht, fun other _ => hsame other⟩
  | readVectorsBatchFlat orders ids =>
      obtain ⟨t, hstep, ht, hsame⟩ := hfaithful.after
        (Store.readVectorsBatchFlat_defined hfit orders ids)
        (Store.undisturbed_readVectorsBatchFlat hwf orders ids)
      exact ⟨t, hstep, ht, fun other _ => hsame other⟩
  | prefetchByIds ids =>
      obtain ⟨t, hstep, ht, hsame⟩ := hfaithful.after
        (Store.prefetchByIds_defined hfit ids) (Store.undisturbed_prefetchByIds hwf ids)
      exact ⟨t, hstep, ht, fun other _ => hsame other⟩
  | flushWrites =>
      have hsame := Store.undisturbed_flushWrites hwf
      exact ⟨_, rfl, hfaithful.undisturbed hsame, fun other _ =>
        ((Store.sameTables_of_layout_eq hsame.layout).location other).2⟩
  | setMaxCachedPages m =>
      exact ⟨_, rfl, hfaithful.setMaxCachedPages m, fun other _ =>
        (Store.location_setMaxCachedPages m s.st other).2⟩

/-- So a run that stores no id twice keeps the invariant to its end. -/
theorem Faithful.run {s : Session cfg} (hfaithful : s.Faithful) (calls : List (Call cfg))
    (honce : (calls.filterMap Call.storedId).Nodup)
    (hnew : ∀ id ∈ calls.filterMap Call.storedId, s.st.hasLocation id = false) :
    ∃ t, Machines.run Session.step s calls = some t ∧ t.Faithful := by
  induction calls generalizing s with
  | nil => exact ⟨s, rfl, hfaithful⟩
  | cons call calls ih =>
      have hhead : ∀ id, call.storedId = some id → s.st.hasLocation id = false :=
        fun id hid => hnew id (List.mem_filterMap.mpr ⟨call, List.mem_cons_self, hid⟩)
      obtain ⟨t, hstep, ht, hothers⟩ := hfaithful.step call hhead
      have htail : (calls.filterMap Call.storedId).Nodup ∧
          ∀ id ∈ calls.filterMap Call.storedId, call.storedId ≠ some id := by
        rw [List.filterMap_cons] at honce
        split at honce
        · rename_i hnone
          exact ⟨honce, fun id _ hsome => by rw [hnone] at hsome; cases hsome⟩
        · rename_i stored hstored
          refine ⟨(List.nodup_cons.mp honce).2, fun id hid hsome => ?_⟩
          cases hstored.symm.trans hsome
          exact (List.nodup_cons.mp honce).1 hid
      have hrest : ∀ id ∈ calls.filterMap Call.storedId, t.st.hasLocation id = false := by
        intro id hid
        obtain ⟨other, hother, hstored⟩ := List.mem_filterMap.mp hid
        rw [hothers id (htail.2 id hid)]
        exact hnew id (List.mem_filterMap.mpr ⟨other, List.mem_cons_of_mem _ hother, hstored⟩)
      obtain ⟨u, hrun, hu⟩ := ih ht htail.1 hrest
      exact ⟨u, Machines.run_cons.mpr ⟨t, hstep, hrun⟩, hu⟩

/-- What the invariant says about the reads. -/
theorem Faithful.readsAgree {s : Session cfg} (hfaithful : s.Faithful) : s.ReadsAgree := by
  intro ids hids
  have hwf := hfaithful.sound.wellFormed
  have hrecords : ∃ records : List (Record cfg),
      List.Forall₂ (fun id record => s.stored id = some record) ids records := by
    induction ids with
    | nil => exact ⟨[], .nil⟩
    | cons id ids ih =>
        obtain ⟨records, hrecords⟩ := ih fun other hother =>
          hids other (List.mem_cons_of_mem _ hother)
        obtain ⟨record, hrecord⟩ := hfaithful.located id (hids id List.mem_cons_self)
        exact ⟨record :: records, .cons hrecord hrecords⟩
  obtain ⟨records, hrecords⟩ := hrecords
  have hserves : List.Forall₂ s.st.Serves ids
      (records.map fun record => record.under s.maxCachedPages) := by
    rw [List.forall₂_map_right_iff]
    refine hrecords.imp fun id record hrecord => ?_
    obtain ⟨pageId, slot, hlocation, hreserved, hholds⟩ := hfaithful.serves id record hrecord
    exact ⟨pageId, slot, hlocation, hreserved.slot_lt, hholds⟩
  refine ⟨records, ?_, ?_, ?_⟩
  · rw [← List.forall₂_eq_eq_eq, List.forall₂_map_left_iff, List.forall₂_map_right_iff]
    exact hrecords
  · rw [← List.forall₂_eq_eq_eq, List.forall₂_map_left_iff, List.forall₂_map_right_iff]
    rw [List.forall₂_map_right_iff] at hserves
    exact hserves.imp fun id record hserved => hserved.read hwf
  · intro orders
    have hbatch := Store.readVectorsBatch_eq hwf orders hserves
    have hflat := Store.readVectorsBatchFlat_eq hwf orders hserves
    rw [List.map_map] at hbatch hflat
    exact ⟨hbatch, hflat⟩

/-- What it says about the cache. -/
theorem Faithful.cacheAgrees {s : Session cfg} (hfaithful : s.Faithful) :
    s.CacheAgrees := by
  have hcache := hfaithful.sound.wellFormed.cache
  have hexact := hfaithful.exactly
  refine ⟨?_, ?_, ?_⟩
  · intro cs cs' buf buf' hcs hcs' hbuf hbuf' hsome hsame
    obtain ⟨pageId, hpage⟩ := Option.ne_none_iff_exists'.mp hsome
    exact hexact.slot_unique hcs hcs' (Store.pageIds_eq.mpr ⟨buf, hbuf, hpage⟩)
      (Store.pageIds_eq.mpr ⟨buf', hbuf', hsame ▸ hpage⟩)
  · intro pages hpages
    have hslots : (pages.image fun pageId => (s.st.pageToSlot pageId).getD 0).card ≤
        (Finset.range s.st.cachedCount).card := by
      refine Finset.card_le_card fun cs hcs => ?_
      obtain ⟨pageId, hmem, rfl⟩ := Finset.mem_image.mp hcs
      obtain ⟨cs, hslot⟩ := Option.isSome_iff_exists.mp (hpages pageId hmem)
      rw [hslot]
      exact Finset.mem_range.mpr (hcache.mapped pageId cs hslot).1
    rw [Finset.card_image_of_injOn, Finset.card_range] at hslots
    · exact Nat.le_trans hslots hcache.count_le
    · intro pageId hmem other hother hsame
      obtain ⟨cs, hslot⟩ := Option.isSome_iff_exists.mp (hpages pageId hmem)
      obtain ⟨cs', hslot'⟩ := Option.isSome_iff_exists.mp (hpages other hother)
      simp only [hslot, hslot', Option.getD_some] at hsame
      subst hsame
      exact hcache.slot_unique hslot hslot'
  · intro cs buf pageId hcs hbuf hpage id slot hlocation
    have hslot := hexact.published cs pageId hcs (Store.pageIds_eq.mpr ⟨buf, hbuf, hpage⟩)
    have himage : s.st.cachedImage pageId = some buf.data := by
      unfold Store.cachedImage
      change s.st.pageToSlot pageId = some cs at hslot
      rw [hslot, Option.bind_some, hbuf, Option.map_some]
    have hlocated : s.st.hasLocation id = true := by
      rw [← Store.location_isSome hfaithful.sound.fit, hlocation]
      rfl
    obtain ⟨record, hrecord⟩ := hfaithful.located id hlocated
    obtain ⟨_, _, hserved, -, hholds⟩ := hfaithful.serves id record hrecord
    cases hserved.symm.trans hlocation
    have hcached := hholds.cached buf.data himage
    rw [← hholds.content] at hcached
    have hbytes := congrArg Record.bytes hcached
    simp only [Store.recordAt, Record.mk.injEq] at hbytes ⊢
    exact hbytes

theorem Faithful.start {capacity : Nat} {file : ByteFile} {deletedFlags : Nat → Bool}
    {fresh : Store cfg}
    (hconstruct : Store.construct cfg capacity file deletedFlags = some fresh) :
    (Session.start fresh).Faithful := by
  have hsound := Store.sound_construct hconstruct
  obtain ⟨hexact, hsized, hunfree, hnone⟩ := Store.construct_empty hconstruct
  refine ⟨hsound, hexact, hsized, hunfree, ?_, ?_, ?_⟩
  · intro id hid
    cases (hnone id).symm.trans hid
  · intro id record hrecord
    cases hrecord
  · intro id other loc hid
    cases (location_of_unlocated hsound.fit (hnone id)).symm.trans hid

/-- From an empty store, over any run that stores no id twice: all reads of the located
ids agree on the stored records, and the cache agrees with buffers and file. -/
theorem reads_agree {capacity : Nat} {file : ByteFile} {deletedFlags : Nat → Bool}
    {fresh : Store cfg}
    (hconstruct : Store.construct cfg capacity file deletedFlags = some fresh)
    (calls : List (Call cfg)) (honce : (calls.filterMap Call.storedId).Nodup) :
    ∃ s, Machines.run Session.step (Session.start fresh) calls = some s ∧
      s.ReadsAgree ∧ s.CacheAgrees := by
  obtain ⟨s, hrun, hs⟩ := (Faithful.start hconstruct).run calls honce
    fun id _ => (Store.construct_empty hconstruct).2.2.2 id
  exact ⟨s, hrun, hs.readsAgree, hs.cacheAgrees⟩

/-- A hash map that gives back its pages in the order of their first use, and a stable
sort. -/
def inOrder : Orders where
  hashed := List.dedup
  hashed_perm _ := List.Perm.refl _
  sorted entries := entries.mergeSort fun a b => a.pageId ≤ b.pageId
  sorted_perm entries := List.mergeSort_perm entries _
  sorted_le entries := by
    have hsorted := @List.pairwise_mergeSort MissEntry (fun a b => a.pageId ≤ b.pageId)
      (fun a b c hab hbc => by simp at *; omega) (fun a b => by simp; omega) entries
    simpa using hsorted

/-- Two records on one page, the first read while the cache opens and closes. -/
def mixedCalls : List (Call Store.tinyConfig) :=
  [.storeEncoded 0 (Store.tinyRecord 1) 7, .setMaxCachedPages 1, .prefetchByIds [0],
    .storeEncoded 1 (Store.tinyRecord 2) 7, .readVectorsBatch inOrder [0, 1, 0],
    .flushWrites, .setMaxCachedPages 0, .readVectorsBatchFlat inOrder [1, 0]]

theorem reads_agree_mixed :
    ∃ s, Machines.run Session.step (Session.start Store.roomForTwo) mixedCalls = some s ∧
      s.ReadsAgree ∧ s.CacheAgrees :=
  reads_agree Store.construct_roomForTwo mixedCalls (by decide)

end Session

end AsterVec.PagedVectorStorage

import AsterVec.PagedConcurrency
import AsterVec.PagedOverwrites

/-!
The quantities that bound an index into the location arrays: the capacity, its published
copy, the lengths of the two arrays and the number of delete flags.  Growth sets all five; a
load sets the arrays to the stored length and the others to the capacity.
-/

namespace AsterVec.PagedVectorStorage

open AsterVec.ByteBuffer
open AsterVec.IdTypes
open AsterVec.LittleEndian

variable {cfg : Config}

/-- A store beside the published copy of its capacity and the number of delete flags it
holds in memory. -/
structure Arrays (cfg : Config) where
  st : Store cfg
  totalVectorsAtomic : Nat
  deletedFlagsSize : Nat

namespace Arrays

def construct (cfg : Config) (capacity : Nat) (file : ByteFile) (deletedFlags : Nat → Bool) :
    Option (Arrays cfg) :=
  (Store.construct cfg capacity file deletedFlags).map fun st => ⟨st, capacity, capacity⟩

/-! Lookups; `none` is an index outside the array. -/

def pageOf (s : Arrays cfg) (id : Nat) : Option Int :=
  if isDirectId id then
    if id < s.totalVectorsAtomic then s.st.idToPage[id]?
    else some (s.st.idToPage.getD id (-1))
  else some ((s.st.updateLocations.lookup id).elim (-1) UpdateLoc.page)

def slotOf (s : Arrays cfg) (id : Nat) : Option Nat :=
  if isDirectId id then
    if id < s.totalVectorsAtomic then s.st.idToSlotInPage[id]?
    else some (s.st.idToSlotInPage.getD id 0)
  else some ((s.st.updateLocations.lookup id).elim 0 UpdateLoc.slot)

def isDeletedAt (s : Arrays cfg) (id : Nat) : Option Bool :=
  if isDirectId id then
    if s.st.totalVectors ≤ id then some false
    else if id < s.deletedFlagsSize then some (s.st.deletedFlags id)
    else none
  else some false

def vectorExists (s : Arrays cfg) (id : Nat) : Option Bool :=
  match s.isDeletedAt id with
  | none => none
  | some true => some false
  | some false => (s.pageOf id).map (0 ≤ ·)

/-! Changes; `undefined` is an index outside the array. -/

def markDeletedAt (id : Nat) (deleted : Bool) (s : Arrays cfg) : Outcome Unit × Arrays cfg :=
  if isDirectId id ∧ id < s.st.totalVectors then
    if id < s.deletedFlagsSize then
      (.returned (), { s with st := s.st.markDeletedAt id deleted })
    else (.undefined, s)
  else (.returned (), s)

def expandCapacity (minCapacity : Nat) (s : Arrays cfg) : Outcome Unit × Arrays cfg :=
  if minCapacity ≤ s.st.totalVectors then (.returned (), s)
  else
    match s.st.expandCapacity minCapacity with
    | (.returned (), grown) =>
        (.returned (), ⟨grown, grown.totalVectors, grown.totalVectors⟩)
    | (outcome, st) => (outcome, { s with st := st })

def ensureDenseCapacity (id : Nat) (s : Arrays cfg) : Outcome Unit × Arrays cfg :=
  if isDirectId id ∧ s.st.totalVectors ≤ id then s.expandCapacity (id + 1)
  else (.returned (), s)

def assignLocation (id page slot : Nat) (s : Arrays cfg) : Outcome Unit × Arrays cfg :=
  match s.st.assignLocation id page slot with
  | (outcome, st) => (outcome, { s with st := st })

def storeEncoded (id : Nat) (record : Record cfg) (sectionKey : Nat) (s : Arrays cfg) :
    Outcome Unit × Arrays cfg :=
  match s.ensureDenseCapacity id with
  | (.returned (), s) =>
      match s.pageOf id, s.slotOf id with
      | none, _ => (.undefined, s)
      | some (.ofNat _), none => (.undefined, s)
      | some (.ofNat curPage), some curSlot =>
          -- Overwrite the existing slot.
          markDeletedAt id false
            { s with
              st := Store.updateCacheAfterWrite curPage curSlot record
                (Store.writeRecord curPage curSlot record s.st) }
      | some (.negSucc _), _ =>
          match Store.allocateSlotForSection sectionKey s.st with
          | (none, st) => (.threw, { s with st := st })
          | (some (sectionIdx, pageId, slot), st) =>
              match Store.writeNewRecord sectionIdx pageId slot record st with
              | none => (.undefined, { s with st := st })
              | some st =>
                  match markDeletedAt id false { s with st := st } with
                  | (.returned (), s) => s.assignLocation id pageId slot
                  | (outcome, s) => (outcome, s)
  | (outcome, s) => (outcome, s)

/-- The load publishes the capacity only when it grows it, and reads as many delete flags
as the capacity says. -/
def deserializeMetadata (s : Arrays cfg) (stream : List UInt8) :
    Outcome (Option (Arrays cfg × List UInt8)) :=
  match s.st.deserializeMetadata stream with
  | .returned (some (loaded, rest)) =>
      .returned (some (⟨loaded,
        if loaded.totalVectors = s.st.totalVectors then s.totalVectorsAtomic
        else loaded.totalVectors, loaded.totalVectors⟩, rest))
  | .returned none => .returned none
  | .threw => .threw
  | .undefined => .undefined

/-! Runs -/

/-- States of runs whose loads satisfy `Fits`, a relation of the capacity before the load
to the number of vectors the stream announces. -/
inductive Reached (Fits : Nat → Nat → Prop) : Arrays cfg → Prop
  | construct {capacity : Nat} {file : ByteFile} {deletedFlags : Nat → Bool} {s : Arrays cfg}
      (hconstruct : Arrays.construct cfg capacity file deletedFlags = some s) : Reached Fits s
  | deserializeMetadata {s loaded : Arrays cfg} {stream body rest : List UInt8}
      {header : Store.MetaHeader} (hreached : Reached Fits s)
      (hheader : Store.readHeader.run stream = some (header, body))
      (hfits : Fits s.st.totalVectors header.totalVectors)
      (hload : s.deserializeMetadata stream = .returned (some (loaded, rest))) :
      Reached Fits loaded
  | storeEncoded {s : Arrays cfg} (id : Nat) (record : Record cfg) (sectionKey : Nat)
      (hreached : Reached Fits s) : Reached Fits (s.storeEncoded id record sectionKey).2
  | markDeletedAt {s : Arrays cfg} (id : Nat) (deleted : Bool) (hreached : Reached Fits s) :
      Reached Fits (s.markDeletedAt id deleted).2
  | readVectorFromDisk {s : Arrays cfg} (id : Nat) (hreached : Reached Fits s) :
      Reached Fits { s with st := (Store.readVectorFromDisk id s.st).2 }
  | readVectorsBatchFlat {s : Arrays cfg} (orders : Orders) (ids : List Nat)
      (hreached : Reached Fits s) :
      Reached Fits { s with st := (Store.readVectorsBatchFlat orders ids s.st).2 }
  | flushWrites {s : Arrays cfg} (hreached : Reached Fits s) :
      Reached Fits { s with st := s.st.flushWrites }

/-- The five quantities agree. -/
structure Level (s : Arrays cfg) : Prop where
  atomic_eq : s.totalVectorsAtomic = s.st.totalVectors
  pages_length : s.st.idToPage.length = s.st.totalVectors
  slots_length : s.st.idToSlotInPage.length = s.st.totalVectors
  flags_le : s.st.totalVectors ≤ s.deletedFlagsSize

/-- No call indexes an array outside its bounds. -/
structure InBounds (s : Arrays cfg) : Prop where
  pageOf : ∀ id, s.pageOf id ≠ none
  slotOf : ∀ id, s.slotOf id ≠ none
  isDeletedAt : ∀ id, s.isDeletedAt id ≠ none
  vectorExists : ∀ id, s.vectorExists id ≠ none
  markDeletedAt : ∀ id deleted, (s.markDeletedAt id deleted).1 ≠ .undefined
  assignLocation : ∀ id grown page slot, s.ensureDenseCapacity id = (.returned (), grown) →
    (grown.assignLocation id page slot).1 ≠ .undefined
  storeEncoded : ∀ id record sectionKey, (s.storeEncoded id record sectionKey).1 ≠ .undefined

/-! Lookups at the level -/

theorem Level.fit {s : Arrays cfg} (hlevel : s.Level) : s.st.LocationsFit :=
  ⟨hlevel.pages_length, hlevel.slots_length⟩

/-- A step of the store that keeps its tables keeps the level. -/
theorem Level.congr {s : Arrays cfg} (hlevel : s.Level) {st : Store cfg}
    (hsame : Store.SameTables s.st st) : Level { s with st := st } where
  atomic_eq := hlevel.atomic_eq.trans hsame.total.symm
  pages_length := (hsame.fit hlevel.fit).pages_length
  slots_length := (hsame.fit hlevel.fit).slots_length
  flags_le := Nat.le_trans (Nat.le_of_eq hsame.total) hlevel.flags_le

theorem Level.pageOf {s : Arrays cfg} (hlevel : s.Level) (id : Nat) :
    s.pageOf id = s.st.pageOf id := by
  unfold Arrays.pageOf Store.pageOf
  rw [hlevel.atomic_eq]

theorem Level.slotOf {s : Arrays cfg} (hlevel : s.Level) (id : Nat) :
    s.slotOf id = s.st.slotOf id := by
  unfold Arrays.slotOf Store.slotOf
  rw [hlevel.atomic_eq]

theorem Level.isDeletedAt {s : Arrays cfg} (hlevel : s.Level) (id : Nat) :
    s.isDeletedAt id = some (s.st.isDeletedAt id) := by
  have hflags := hlevel.flags_le
  unfold Arrays.isDeletedAt Store.isDeletedAt
  cases hdirect : isDirectId id with
  | false => rfl
  | true =>
      rw [if_pos rfl]
      by_cases hlt : id < s.st.totalVectors
      · rw [if_neg (by omega), if_pos (by omega)]
        simp [hlt]
      · rw [if_pos (by omega)]
        simp [hlt]

theorem Level.vectorExists {s : Arrays cfg} (hlevel : s.Level) (id : Nat) :
    s.vectorExists id ≠ none := by
  unfold Arrays.vectorExists
  rw [hlevel.isDeletedAt, hlevel.pageOf, Store.pageOf_eq hlevel.fit]
  cases s.st.isDeletedAt id <;> simp

theorem Level.markDeletedAt {s : Arrays cfg} (hlevel : s.Level) (id : Nat) (deleted : Bool) :
    s.markDeletedAt id deleted =
      (.returned (), { s with st := s.st.markDeletedAt id deleted }) := by
  have hflags := hlevel.flags_le
  unfold Arrays.markDeletedAt
  split
  · rename_i hid
    rw [if_pos (by omega)]
  · rename_i hid
    have hsame : s.st.markDeletedAt id deleted = s.st :=
      if_neg fun hall => hid ⟨hall.1, hall.2.1⟩
    rw [hsame]

theorem sameTables_markDeletedAt (st : Store cfg) (id : Nat) (deleted : Bool) :
    Store.SameTables st (st.markDeletedAt id deleted) :=
  Store.sameTables_of_layout_eq (Store.layout_markDeletedAt st id deleted)

/-! Growth -/

/-- Growth does to the store what it does without the sizes, and keeps the level. -/
theorem Level.ensureDenseCapacity {s : Arrays cfg} (hlevel : s.Level) (id : Nat) :
    (s.ensureDenseCapacity id).1 = (s.st.ensureDenseCapacity id).1 ∧
      (s.ensureDenseCapacity id).2.st = (s.st.ensureDenseCapacity id).2 ∧
      (s.ensureDenseCapacity id).2.Level := by
  have hfit := (Store.ensureDenseCapacity_spec hlevel.fit id).2.1
  unfold Arrays.ensureDenseCapacity
  unfold Store.ensureDenseCapacity at hfit ⊢
  split
  · rename_i hgrow
    rw [if_pos hgrow] at hfit
    have hsmall : ¬id + 1 ≤ s.st.totalVectors := by omega
    unfold Arrays.expandCapacity
    rw [if_neg hsmall]
    unfold Store.expandCapacity at hfit ⊢
    rw [if_neg hsmall] at hfit ⊢
    cases htarget : Store.growCapacity s.st.totalVectors (id + 1) with
    | none => exact ⟨rfl, rfl, hlevel⟩
    | some target =>
        by_cases hmax : Store.maxVectorElements < target
        · simp only [if_pos hmax]
          exact ⟨trivial, trivial, hlevel⟩
        · simp only [if_neg hmax]
          exact ⟨trivial, trivial, rfl, Store.resize_length _ _ _, Store.resize_length _ _ _,
            Nat.le_refl _⟩
  · exact ⟨rfl, rfl, hlevel⟩

theorem Level.assignLocation {s : Arrays cfg} (hlevel : s.Level) {id : Nat} (page slot : Nat)
    (hid : isDirectId id = true → id < s.st.totalVectors) :
    (s.assignLocation id page slot).1 ≠ .undefined ∧
      (s.assignLocation id page slot).2.Level := by
  obtain ⟨hdefined, hfit, -⟩ := Store.assignLocation_spec hlevel.fit page slot hid
  have htotal := Store.totalVectors_assignLocation s.st id page slot
  exact ⟨hdefined, hlevel.atomic_eq.trans htotal.symm, hfit.pages_length,
    hfit.slots_length, Nat.le_trans (Nat.le_of_eq htotal) hlevel.flags_le⟩

/-- A store of a record stays inside the arrays and does to the store what it does without
the sizes. -/
theorem Level.storeEncoded {s : Arrays cfg} (hlevel : s.Level) (id : Nat)
    (record : Record cfg) (sectionKey : Nat) :
    (s.storeEncoded id record sectionKey).1 =
        (Store.storeEncoded id record sectionKey s.st).1 ∧
      (s.storeEncoded id record sectionKey).2.st =
        (Store.storeEncoded id record sectionKey s.st).2 ∧
      (s.storeEncoded id record sectionKey).2.Level := by
  obtain ⟨houtcome, hst, hgrown⟩ := hlevel.ensureDenseCapacity id
  have hroom := (Store.ensureDenseCapacity_spec hlevel.fit id).2.2.2.1
  unfold Arrays.storeEncoded Store.storeEncoded
  cases hensure : s.ensureDenseCapacity id with
  | mk outcome grown =>
      rw [hensure] at houtcome hst hgrown
      have hensured : s.st.ensureDenseCapacity id = (outcome, grown.st) :=
        Prod.ext houtcome.symm hst.symm
      rw [hensured] at hroom ⊢
      cases outcome with
      | undefined => exact ⟨rfl, rfl, hgrown⟩
      | threw => exact ⟨rfl, rfl, hgrown⟩
      | returned _ =>
          change grown.Level at hgrown
          simp only [hgrown.pageOf, hgrown.slotOf]
          cases grown.st.pageOf id with
          | none => exact ⟨rfl, rfl, hgrown⟩
          | some page =>
              cases page with
              | ofNat curPage =>
                  cases grown.st.slotOf id with
                  | none => exact ⟨rfl, rfl, hgrown⟩
                  | some curSlot =>
                      have hwritten := hgrown.congr (Store.sameTables_of_layout_eq
                        (show (Store.updateCacheAfterWrite curPage curSlot record
                          (Store.writeRecord curPage curSlot record grown.st)).layout =
                            grown.st.layout by simp))
                      simp only [hwritten.markDeletedAt]
                      exact ⟨trivial, trivial,
                        hwritten.congr (sameTables_markDeletedAt _ id false)⟩
              | negSucc n =>
                  have htables := Store.sameTables_allocateSlotForSection sectionKey grown.st
                  cases halloc : Store.allocateSlotForSection sectionKey grown.st with
                  | mk granted allocated =>
                      rw [halloc] at htables
                      have hallocated := hgrown.congr htables
                      cases granted with
                      | none => exact ⟨rfl, rfl, hallocated⟩
                      | some entry =>
                          obtain ⟨sectionIdx, pageId, slot⟩ := entry
                          simp only
                          cases hwrite : Store.writeNewRecord sectionIdx pageId slot record
                              allocated with
                          | none => exact ⟨rfl, rfl, hallocated⟩
                          | some written =>
                              have hsame := htables.trans (Store.sameTables_of_layout_eq
                                (Store.layout_writeNewRecord hwrite))
                              have hmarked := (hgrown.congr hsame).congr
                                (sameTables_markDeletedAt written id false)
                              simp only [(hgrown.congr hsame).markDeletedAt]
                              refine ⟨rfl, rfl, (hmarked.assignLocation pageId slot ?_).2⟩
                              intro hdirect
                              change id < (written.markDeletedAt id false).totalVectors
                              rw [(sameTables_markDeletedAt written id false).total, hsame.total]
                              exact hroom rfl hdirect

/-! Stores that return or throw -/

theorem sound_overwritten {st : Store cfg} (hsound : st.Sound) (id pageId slot : Nat)
    (record : Record cfg) : (Store.overwritten id pageId slot record st).Sound :=
  hsound.of_layout ((Store.quiet_markDeletedAt _ _ _).wellFormed
      ((hsound.wellFormed.writeRecord pageId slot record).updateCacheAfterWrite _ _ _))
    (Store.layout_overwritten id pageId slot record st)

/-- A store of any id returns or throws, and leaves a sound store. -/
theorem storeEncoded_defined {st : Store cfg} (hsound : st.Sound) (id : Nat)
    (record : Record cfg) (sectionKey : Nat) :
    (Store.storeEncoded id record sectionKey st).1 ≠ .undefined ∧
      (Store.storeEncoded id record sectionKey st).2.Sound := by
  cases hid : st.hasLocation id with
  | false =>
      obtain ⟨hdefined, hpreserves, -⟩ := Store.storeEncoded_spec hsound hid record sectionKey
      exact ⟨hdefined, hpreserves.sound⟩
  | true =>
      rw [← Store.location_isSome hsound.fit] at hid
      obtain ⟨⟨pageId, slot⟩, hlocation⟩ := Option.isSome_iff_exists.mp hid
      rw [Store.storeEncoded_of_location hsound.fit hlocation]
      exact ⟨by simp, sound_overwritten hsound id pageId slot record⟩

theorem Level.inBounds {s : Arrays cfg} (hlevel : s.Level) (hsound : s.st.Sound) :
    s.InBounds where
  pageOf id := by
    rw [hlevel.pageOf, Store.pageOf_eq hlevel.fit]
    simp
  slotOf id := by
    rw [hlevel.slotOf, Store.slotOf_eq hlevel.fit]
    simp
  isDeletedAt id := by
    rw [hlevel.isDeletedAt]
    simp
  vectorExists := hlevel.vectorExists
  markDeletedAt id deleted := by
    rw [hlevel.markDeletedAt]
    simp
  assignLocation id grown page slot hensure := by
    obtain ⟨houtcome, hst, hgrown⟩ := hlevel.ensureDenseCapacity id
    have hroom := (Store.ensureDenseCapacity_spec hlevel.fit id).2.2.2.1
    rw [hensure] at houtcome hst hgrown
    rw [← houtcome, ← hst] at hroom
    exact (hgrown.assignLocation page slot (hroom rfl)).1
  storeEncoded id record sectionKey := by
    rw [(hlevel.storeEncoded id record sectionKey).1]
    exact (storeEncoded_defined hsound id record sectionKey).1

/-! Loads -/

theorem le_doubleUntil {minCapacity : Nat} :
    ∀ fuel target found, Store.doubleUntil minCapacity fuel target = some found →
      minCapacity ≤ found := by
  intro fuel
  induction fuel with
  | zero =>
      intro target found hfound
      unfold Store.doubleUntil at hfound
      split at hfound
      · cases hfound
      · cases hfound
        omega
  | succ fuel ih =>
      intro target found hfound
      unfold Store.doubleUntil at hfound
      split at hfound
      · exact ih _ _ hfound
      · cases hfound
        omega

/-- A load that grows the capacity grows it to one a vector can have. -/
theorem totalVectors_of_load {st loaded : Store cfg} {stream rest : List UInt8}
    (hload : st.deserializeMetadata stream = .returned (some (loaded, rest))) :
    loaded.totalVectors = st.totalVectors ∨
      loaded.totalVectors ≤ Store.maxVectorElements := by
  unfold Store.deserializeMetadata at hload
  split at hload
  · cases hload
  · split at hload
    · cases hload
    · split at hload
      · cases hload
      · split at hload
        · cases hload
        · cases hload
        · rename_i grown hgrown
          have hgrownTotal : grown.totalVectors = st.totalVectors ∨
              grown.totalVectors ≤ Store.maxVectorElements := by
            split at hgrown
            · unfold Store.expandCapacity at hgrown
              split at hgrown
              · cases hgrown
                exact .inl rfl
              · split at hgrown
                · cases hgrown
                · split at hgrown
                  · cases hgrown
                  · rename_i hmax
                    cases hgrown
                    exact .inr (Nat.not_lt.mp hmax)
            · cases hgrown
              exact .inl rfl
          split at hload
          · cases hload
          · split at hload
            · cases hload
            · split at hload
              · cases hload
              · split at hload
                · cases hload
                  exact hgrownTotal
                · cases hload

/-- The growth loop ends at the announced number exactly when that number is a doubling of
the capacity. -/
theorem grown_eq_iff_doubled {capacity stored total : Nat}
    (hgrow : Store.growCapacity capacity stored = some total)
    (hmax : total = capacity ∨ total ≤ Store.maxVectorElements) :
    stored = total ↔ Store.Doubled capacity stored := by
  have hle : stored ≤ total := le_doubleUntil _ _ _ hgrow
  have hsmall : Store.maxVectorElements = 2 ^ 61 - 1 := rfl
  constructor
  · rintro rfl
    rcases hmax with rfl | hmax
    · exact .inr ⟨0, by rw [Nat.pow_zero, Nat.mul_one]⟩
    · by_cases hzero : capacity = 0
      · exact .inl hzero
      · unfold Store.growCapacity at hgrow
        rw [if_neg hzero] at hgrow
        exact .inr (Store.doubleUntil_doubled (by omega) _ _ _ hgrow)
  · intro hdoubled
    rcases hdoubled with rfl | ⟨k, hk⟩
    · unfold Store.growCapacity Store.doubleUntil at hgrow
      rw [if_pos rfl, if_neg (Nat.lt_irrefl _)] at hgrow
      exact Option.some.inj hgrow
    · rcases hmax with rfl | hmax
      · have hpow : total * 1 ≤ total * 2 ^ k := Nat.mul_le_mul_left _ Nat.one_le_two_pow
        omega
      · have hfits := Store.capacityFits_of_doubled
          (show ({ Store.roomForTwo with totalVectors := stored } :
            Store Store.tinyConfig).totalVectors ≤ _ from Nat.le_trans hle hmax)
          (.inr ⟨k, hk⟩)
        exact Option.some.inj (hfits.symm.trans hgrow)

/-- What an accepted load of a level store leaves: the store is level again exactly when
the stream announces a doubling of the capacity, and is sound then. -/
theorem Level.deserializeMetadata {s loaded : Arrays cfg} (hlevel : s.Level)
    {stream body rest : List UInt8} {header : Store.MetaHeader}
    (hheader : Store.readHeader.run stream = some (header, body))
    (hload : s.deserializeMetadata stream = .returned (some (loaded, rest))) :
    (loaded.Level ↔ Store.Doubled s.st.totalVectors header.totalVectors) ∧
      (loaded.Level → loaded.st.Sound) := by
  unfold Arrays.deserializeMetadata at hload
  split at hload
  · rename_i found rest' hfound
    cases hload
    obtain ⟨header', tables, grown, haccepts, rfl⟩ :=
      Store.deserializeMetadata_accepts hfound
    have hsame : header' = header := by
      have hparse := haccepts.parse_eq
      simp only [Store.parseMetadata, StateT.run_bind, hheader, Option.bind_eq_bind,
        Option.bind_some, Option.bind_eq_some_iff] at hparse
      obtain ⟨⟨pages, _⟩, -, ⟨tables', _⟩, -, hpure⟩ := hparse
      cases hpure
      rfl
    subst hsame
    have htotal := totalVectors_of_load hfound
    change grown.totalVectors = _ ∨ grown.totalVectors ≤ _ at htotal
    have hiff := grown_eq_iff_doubled haccepts.capacity htotal
    constructor
    · rw [← hiff]
      constructor
      · intro hloaded
        exact haccepts.page_length.symm.trans hloaded.pages_length
      · intro hcapacity
        refine ⟨?_, haccepts.page_length.trans hcapacity, haccepts.slot_length.trans hcapacity,
          Nat.le_refl _⟩
        change (if grown.totalVectors = s.st.totalVectors then s.totalVectorsAtomic
          else grown.totalVectors) = grown.totalVectors
        split
        · rename_i hkept
          exact hlevel.atomic_eq.trans hkept.symm
        · rfl
    · intro hloaded
      exact Store.sound_rebuild haccepts
        (hloaded.pages_length.symm.trans haccepts.page_length)
  · cases hload
  · cases hload
  · cases hload

/-! Every run -/

theorem level_construct {capacity : Nat} {file : ByteFile} {deletedFlags : Nat → Bool}
    {s : Arrays cfg} (hconstruct : construct cfg capacity file deletedFlags = some s) :
    s.Level ∧ s.st.Sound := by
  obtain ⟨st, hst, rfl⟩ := Option.map_eq_some_iff.mp hconstruct
  have htotal := Store.construct_totalVectors hst
  have hsound := Store.sound_construct hst
  exact ⟨⟨htotal.symm, hsound.fit.pages_length, hsound.fit.slots_length,
    Nat.le_of_eq htotal⟩, hsound⟩

/-- Reading and flushing keep the level. -/
theorem Level.undisturbed {s : Arrays cfg} {st : Store cfg} (hlevel : s.Level)
    (hsound : s.st.Sound) (hsame : Store.Undisturbed s.st st) :
    Level { s with st := st } ∧ st.Sound :=
  ⟨hlevel.congr (Store.sameTables_of_layout_eq hsame.layout),
    hsound.of_layout hsame.wellFormed hsame.layout⟩

theorem Reached.level {s : Arrays cfg} (hreached : Reached Store.Doubled s) :
    s.Level ∧ s.st.Sound := by
  induction hreached with
  | construct hconstruct => exact level_construct hconstruct
  | deserializeMetadata _ hheader hfits hload ih =>
      obtain ⟨hiff, hsound⟩ := ih.1.deserializeMetadata hheader hload
      exact ⟨hiff.mpr hfits, hsound (hiff.mpr hfits)⟩
  | storeEncoded id record sectionKey _ ih =>
      obtain ⟨-, hst, hlevel⟩ := ih.1.storeEncoded id record sectionKey
      refine ⟨hlevel, ?_⟩
      rw [hst]
      exact (storeEncoded_defined ih.2 id record sectionKey).2
  | markDeletedAt id deleted _ ih =>
      rw [ih.1.markDeletedAt]
      exact ⟨ih.1.congr (sameTables_markDeletedAt _ id deleted),
        ih.2.of_layout ((Store.quiet_markDeletedAt _ _ _).wellFormed ih.2.wellFormed)
          (Store.layout_markDeletedAt _ id deleted)⟩
  | readVectorFromDisk id _ ih =>
      exact ih.1.undisturbed ih.2 (Store.undisturbed_readVectorFromDisk ih.2.wellFormed id)
  | readVectorsBatchFlat orders ids _ ih =>
      exact ih.1.undisturbed ih.2
        (Store.undisturbed_readVectorsBatchFlat ih.2.wellFormed orders ids)
  | flushWrites _ ih =>
      exact ih.1.undisturbed ih.2 (Store.undisturbed_flushWrites ih.2.wellFormed)

/-- In every run whose loads announce doublings of the capacity, the five quantities agree
and no index leaves its array; any other load that is accepted makes them disagree. -/
theorem level_of_doubled {s : Arrays cfg} (hreached : Reached Store.Doubled s) :
    s.Level ∧ s.InBounds ∧
      ∀ (stream body rest : List UInt8) (header : Store.MetaHeader) (loaded : Arrays cfg),
        Store.readHeader.run stream = some (header, body) →
        s.deserializeMetadata stream = .returned (some (loaded, rest)) →
          (loaded.Level ↔ Store.Doubled s.st.totalVectors header.totalVectors) := by
  obtain ⟨hlevel, hsound⟩ := hreached.level
  exact ⟨hlevel, hlevel.inBounds hsound, fun _ _ _ _ _ hheader hload =>
    (hlevel.deserializeMetadata hheader hload).1⟩

/-- A store opened for one vector that loads the stream of another one opened for one. -/
def openedAlike : Arrays Store.tinyConfig :=
  ⟨Store.rebuild Store.roomForOne Store.roomForOne.tables, 1, 1⟩

theorem reached_openedAlike : Reached Store.Doubled openedAlike := by
  have hfresh : Reached Store.Doubled (⟨Store.roomForOne, 1, 1⟩ : Arrays Store.tinyConfig) :=
    @Reached.construct _ _ 1 ByteFile.empty (fun _ => false) _ rfl
  have hload : Arrays.deserializeMetadata ⟨Store.roomForOne, 1, 1⟩
      (Store.roomForOne.serializeMetadata ++ []) = .returned (some (openedAlike, [])) := rfl
  exact hfresh.deserializeMetadata rfl (.inr ⟨0, rfl⟩) hload

theorem openedAlike_level : openedAlike.Level ∧ openedAlike.InBounds :=
  ⟨(level_of_doubled reached_openedAlike).1, (level_of_doubled reached_openedAlike).2.1⟩

/-- A store opened for two vectors that loads the stream of a store for one: the page of id
1 is read behind the end of the array. -/
theorem openedWider_outOfBounds :
    ∃ s : Arrays Store.tinyConfig, Reached (fun _ _ => True) s ∧
      s.st.totalVectors = 2 ∧ s.st.idToPage.length = 1 ∧ s.pageOf 1 = none := by
  have hfresh : Reached (fun _ _ => True) (⟨Store.roomForTwo, 2, 2⟩ : Arrays Store.tinyConfig) :=
    @Reached.construct _ _ 2 ByteFile.empty (fun _ => false) _ rfl
  have hload : Arrays.deserializeMetadata ⟨Store.roomForTwo, 2, 2⟩
      ((Store.storeEncoded 0 ⟨List.replicate 9 1, rfl⟩ 7 Store.roomForOne).2.serializeMetadata
        ++ []) = .returned (some (⟨Store.reopenedWider, 2, 2⟩, [])) := by
    unfold Arrays.deserializeMetadata
    rw [Store.deserializeMetadata_roomForTwo]
    rfl
  exact ⟨_, hfresh.deserializeMetadata rfl trivial hload, rfl, rfl, rfl⟩

end Arrays

end AsterVec.PagedVectorStorage

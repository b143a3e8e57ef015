import AsterVec.PagedConcurrency
import AsterVec.PagedLoad

/-!
Interleaved stores.  In a run in which no zero-filled buffer is started over a
page with other records, every call that returned has its record where a reader
of its id looks for it.
-/

namespace AsterVec.PagedVectorStorage

open AsterVec.ByteBuffer
open AsterVec.IdTypes

variable {cfg : Config}

namespace Store

/-- The id of the call has no location yet, and its entry exists. -/
structure Pending (request : Request cfg) (st : Store cfg) : Prop where
  unlocated : st.hasLocation request.id = false
  room : isDirectId request.id = true → request.id < st.totalVectors

/-- What is true of a call that stored a new id and has come this far. -/
def Follows (request : Request cfg) (st : Store cfg) : Stage → Prop
  | .called => st.hasLocation request.id = false
  | .grown | .unlocated | .sectioned _ | .pageless _ => Pending request st
  | .fresh sectionIdx page => Pending request st ∧ st.Owns sectionIdx page 0
  | .granted sectionIdx page slot =>
      Pending request st ∧ st.Owns sectionIdx page slot
  | .refused page slot =>
      Pending request st ∧ (∃ sectionIdx, st.Owns sectionIdx page slot) ∧
        st.bufferHolding page = none
  | .written page slot =>
      Pending request st ∧ (∃ sectionIdx, st.Owns sectionIdx page slot) ∧
        st.Contains page slot request.record
  | .cached page slot | .undeleted page slot =>
      Pending request st ∧ (∃ sectionIdx, st.Owns sectionIdx page slot) ∧
        st.Holds page slot request.record
  | .returned page slot =>
      st.location request.id = some (page, slot) ∧
        (∃ sectionIdx, st.Owns sectionIdx page slot) ∧
        st.Holds page slot request.record
  | .threw => True
  | .located _ | .overwriting _ _ | .overwritten _ _ | .refreshed _ _ | .undefined =>
      False

/-! Steps of other threads -/

theorem Owns.slot_lt {st : Store cfg} {sectionIdx : Int} {page slot : Nat}
    (howns : st.Owns sectionIdx page slot) (hoffers : st.Offers) :
    slot < cfg.vectorsPerPage := (howns.reserved hoffers).slot_lt

theorem Follows.owns {request : Request cfg} {st : Store cfg} {stage : Stage}
    (hfollows : Follows request st stage) {page slot : Nat}
    (hslot : stage.slot = some (page, slot)) :
    ∃ sectionIdx, st.Owns sectionIdx page slot := by
  cases stage with
  | fresh sectionIdx page' =>
      cases hslot
      exact ⟨sectionIdx, hfollows.2⟩
  | granted sectionIdx page' slot' =>
      cases hslot
      exact ⟨sectionIdx, hfollows.2⟩
  | refused page' slot' | written page' slot' | cached page' slot' | undeleted page' slot'
  | returned page' slot' =>
      cases hslot
      exact hfollows.2.1
  | _ => cases hslot

theorem Spares.pending {request : Request cfg} {id : Nat} {own : Option (Nat × Nat)}
    {Started : Nat → Prop} {st st' : Store cfg} (hspares : Spares id own Started st st')
    (hid : request.id ≠ id) (hpending : Pending request st) : Pending request st' :=
  ⟨(hspares.location _ hid).2.trans hpending.unlocated,
    fun hdirect => Nat.lt_of_lt_of_le (hpending.room hdirect) hspares.total_le⟩

/-- A step of one thread leaves what is true of another as it was. -/
theorem Follows.spared {request : Request cfg} {id : Nat} {own : Option (Nat × Nat)}
    {Started : Nat → Prop} {st st' : Store cfg} {stage : Stage}
    (hfollows : Follows request st stage) (hsound : st.Sound)
    (hspares : Spares id own Started st st') (hid : request.id ≠ id)
    (hown : ∀ page slot, stage.slot = some (page, slot) → own ≠ some (page, slot))
    (hstarted : ∀ page slot, stage.settled = some (page, slot) → ¬Started page) :
    Follows request st' stage := by
  have howns : ∀ {page slot : Nat}, (∃ sectionIdx, st.Owns sectionIdx page slot) →
      (∃ sectionIdx, st'.Owns sectionIdx page slot) ∧ slot < cfg.vectorsPerPage := by
    rintro page slot ⟨sectionIdx, howns⟩
    exact ⟨⟨sectionIdx, howns.widen hspares.widens⟩, howns.slot_lt hsound.offers⟩
  cases stage with
  | called => exact (hspares.location _ hid).2.trans hfollows
  | grown | unlocated | sectioned _ | pageless _ => exact hspares.pending hid hfollows
  | fresh sectionIdx page | granted sectionIdx page slot =>
      exact ⟨hspares.pending hid hfollows.1, hfollows.2.widen hspares.widens⟩
  | refused page slot =>
      obtain ⟨hpending, hslot, hnone⟩ := hfollows
      exact ⟨hspares.pending hid hpending, (howns hslot).1,
        hspares.unbuffered page (hstarted page slot rfl) hnone⟩
  | written page slot =>
      obtain ⟨hpending, hslot, hcontains⟩ := hfollows
      exact ⟨hspares.pending hid hpending, (howns hslot).1,
        hspares.contains page slot _ (howns hslot).2 (hown page slot rfl)
          (hstarted page slot rfl) hcontains⟩
  | cached page slot | undeleted page slot =>
      obtain ⟨hpending, hslot, hholds⟩ := hfollows
      exact ⟨hspares.pending hid hpending, (howns hslot).1,
        hspares.holds page slot _ (howns hslot).2 (hown page slot rfl)
          (hstarted page slot rfl) hholds⟩
  | returned page slot =>
      obtain ⟨hlocation, hslot, hholds⟩ := hfollows
      exact ⟨(hspares.location _ hid).1.trans hlocation, (howns hslot).1,
        hspares.holds page slot _ (howns hslot).2 (hown page slot rfl)
          (hstarted page slot rfl) hholds⟩
  | threw => trivial
  | located _ | overwriting _ _ | overwritten _ _ | refreshed _ _ | undefined =>
      exact hfollows

/-! Steps of the thread itself -/

/-- What one step of a call does: it spares the other threads, keeps what is true
of the call, and may grant it a slot nobody owned. -/
structure Advances (request : Request cfg) (stage stage' : Stage) (st st' : Store cfg) :
    Prop where
  spares : Spares request.id stage.slot (StartsBuffer stage st) st st'
  follows : Follows request st' stage'
  slot : ∀ page slot, stage'.slot = some (page, slot) →
    stage.slot = some (page, slot) ∨ ¬st.Reserved page slot

theorem Pending.of_tables {request : Request cfg} {st st' : Store cfg}
    (hpending : Pending request st) (htables : SameTables st st') :
    Pending request st' :=
  ⟨(htables.location _).2.trans hpending.unlocated,
    fun hdirect => htables.total ▸ hpending.room hdirect⟩

theorem Pending.of_layout {request : Request cfg} {st st' : Store cfg}
    (hpending : Pending request st) (hlayout : st'.layout = st.layout) :
    Pending request st' := hpending.of_tables (sameTables_of_layout_eq hlayout)

theorem Owns.of_layout {st st' : Store cfg} {sectionIdx : Int} {page slot : Nat}
    (howns : st.Owns sectionIdx page slot) (hlayout : st'.layout = st.layout) :
    st'.Owns sectionIdx page slot :=
  howns.widen (widens_of_lists (by rw [hlayout]) (by rw [hlayout]))

theorem advances_called {request : Request cfg} {st st' : Store cfg} {stage' : Stage}
    (hsound : st.Sound) (hfollows : Follows request st .called)
    (hstep : storeStep request .called st = some (stage', st')) :
    Advances request .called stage' st st' := by
  obtain ⟨hdefined, hfit, hlocation, hroom, target, idToPage, idToSlotInPage, hst⟩ :=
    ensureDenseCapacity_spec hsound.fit request.id
  have hquiet := quiet_ensureDenseCapacity st request.id
  have htotal := totalVectors_le_ensureDenseCapacity st request.id
  have hspares : Spares request.id none (StartsBuffer .called st) st
      (st.ensureDenseCapacity request.id).2 :=
    Spares.of_quiet hsound hquiet
      (offers_of_lists hsound.offers (by rw [hst]; rfl) (by rw [hst]; rfl)
        (by rw [hst]; rfl)) hfit htotal (fun other _ => hlocation other)
      (widens_of_lists (by rw [hst]; rfl) (by rw [hst]; rfl))
  have hunlocated : (st.ensureDenseCapacity request.id).2.hasLocation request.id = false :=
    (location_of_tables (hlocation request.id).1 (hlocation request.id).2).2.trans hfollows
  simp only [storeStep] at hstep
  cases hensure : st.ensureDenseCapacity request.id with
  | mk outcome grown =>
      rw [hensure] at hstep hspares hunlocated hdefined hroom
      cases outcome with
      | returned _ =>
          cases hstep
          exact ⟨hspares, ⟨hunlocated, hroom rfl⟩, fun _ _ hslot => by cases hslot⟩
      | threw =>
          cases hstep
          exact ⟨hspares, trivial, fun _ _ hslot => by cases hslot⟩
      | undefined => exact absurd rfl hdefined

theorem advances_grown {request : Request cfg} {st st' : Store cfg} {stage' : Stage}
    (hsound : st.Sound) (hpending : Pending request st)
    (hstep : storeStep request .grown st = some (stage', st')) :
    Advances request .grown stage' st st' := by
  have hunlocated := hpending.unlocated
  unfold hasLocation at hunlocated
  simp only [storeStep] at hstep
  cases hpage : st.pageOf request.id with
  | none =>
      rw [pageOf_eq hsound.fit] at hpage
      cases hpage
  | some page =>
      rw [hpage] at hunlocated hstep
      cases page with
      | ofNat page => simp at hunlocated
      | negSucc n =>
          cases hstep
          exact ⟨Spares.of_quiet hsound (Quiet.refl st) hsound.offers hsound.fit
            (Nat.le_refl _) (fun _ _ => ⟨rfl, rfl⟩) (widens_of_lists rfl rfl), hpending,
            fun _ _ hslot => by cases hslot⟩

theorem advances_unlocated {request : Request cfg} {st st' : Store cfg} {stage' : Stage}
    (hsound : st.Sound) (hpending : Pending request st)
    (hstep : storeStep request .unlocated st = some (stage', st')) :
    Advances request .unlocated stage' st st' := by
  simp only [storeStep] at hstep
  cases hlookup : lookupSection request.sectionKey st with
  | none =>
      rw [hlookup] at hstep
      cases hstep
      exact ⟨Spares.of_quiet hsound (Quiet.refl st) hsound.offers hsound.fit
        (Nat.le_refl _) (fun _ _ => ⟨rfl, rfl⟩) (widens_of_lists rfl rfl), trivial,
        fun _ _ hslot => by cases hslot⟩
  | some entry =>
      obtain ⟨sectionIdx, found⟩ := entry
      rw [hlookup] at hstep
      cases hstep
      have hlayout := lookupSection_layout hlookup
      have htables : SameTables st st' := SameTables.of_layout (by rw [hlayout])
        (by rw [hlayout]) (by rw [hlayout]) (by rw [hlayout])
      exact ⟨Spares.of_allocator hsound (quiet_lookupSection hlookup)
        ((lookupSection_offers hlookup).1.mpr hsound.offers) htables
        (widens_of_lists (by rw [hlayout]) (by rw [hlayout])),
        hpending.of_tables htables, fun _ _ hslot => by cases hslot⟩

theorem advances_sectioned {request : Request cfg} {st st' : Store cfg} {stage' : Stage}
    {sectionIdx : Int} (hsound : st.Sound) (hpending : Pending request st)
    (hstep : storeStep request (.sectioned sectionIdx) st = some (stage', st')) :
    Advances request (.sectioned sectionIdx) stage' st st' := by
  have htables := sameTables_takeSectionSlot sectionIdx st
  have hspares : Spares request.id none (StartsBuffer (.sectioned sectionIdx) st) st
      (takeSectionSlot sectionIdx st).2 :=
    Spares.of_allocator hsound (quiet_takeSectionSlot sectionIdx st)
      (offers_takeSectionSlot sectionIdx hsound.offers) htables
      (widens_takeSectionSlot sectionIdx st)
  have hpending' := hpending.of_tables htables
  simp only [storeStep] at hstep
  cases htake : takeSectionSlot sectionIdx st with
  | mk taken next =>
      rw [htake] at hstep hspares hpending'
      cases taken with
      | some entry =>
          obtain ⟨page, slot⟩ := entry
          cases hstep
          obtain ⟨hnew, hinUse, hreserved⟩ :=
            takeSectionSlot_grants hsound.offers (congrArg Prod.fst htake)
          rw [htake] at hinUse hreserved
          refine ⟨hspares, ⟨hpending', hinUse, hreserved.not_free⟩, ?_⟩
          intro page' slot' hslot
          cases hslot
          exact .inr hnew
      | none =>
          cases hstep
          exact ⟨hspares, hpending', fun _ _ hslot => by cases hslot⟩

theorem advances_pageless {request : Request cfg} {st st' : Store cfg} {stage' : Stage}
    {sectionIdx : Int} (hsound : st.Sound) (hpending : Pending request st)
    (hstep : storeStep request (.pageless sectionIdx) st = some (stage', st')) :
    Advances request (.pageless sectionIdx) stage' st st' := by
  simp only [storeStep] at hstep
  cases happend : appendPage sectionIdx st with
  | none =>
      rw [happend] at hstep
      cases hstep
      exact ⟨Spares.of_quiet hsound (Quiet.refl st) hsound.offers hsound.fit
        (Nat.le_refl _) (fun _ _ => ⟨rfl, rfl⟩) (widens_of_lists rfl rfl), trivial,
        fun _ _ hslot => by cases hslot⟩
  | some entry =>
      obtain ⟨page, opened⟩ := entry
      rw [happend] at hstep
      cases hstep
      obtain ⟨hoffers, hnew, hinUse, hreserved⟩ := appendPage_grants hsound.offers happend
      have hlayout := (appendPage_eq_some happend).2
      have htables : SameTables st st' := SameTables.of_layout (by rw [hlayout]; rfl)
        (by rw [hlayout]; rfl) (by rw [hlayout]; rfl) (by rw [hlayout]; rfl)
      refine ⟨Spares.of_allocator hsound (quiet_appendPage happend) hoffers htables
        (widens_appendPage happend), ⟨hpending.of_tables htables, hinUse,
          hreserved.not_free⟩, ?_⟩
      intro page' slot hslot
      cases hslot
      exact .inr hnew

theorem advances_fresh {request : Request cfg} {st st' : Store cfg} {stage' : Stage}
    {sectionIdx : Int} {page : Nat} (hsound : st.Sound)
    (hfollows : Follows request st (.fresh sectionIdx page))
    (hstep : storeStep request (.fresh sectionIdx page) st = some (stage', st')) :
    Advances request (.fresh sectionIdx page) stage' st st' := by
  obtain ⟨hpending, howns⟩ := hfollows
  cases hstep
  have htables := sameTables_publishOpenPage sectionIdx page st
  have hwidens := widens_publishOpenPage sectionIdx page st
  exact ⟨Spares.of_allocator hsound (quiet_publishOpenPage sectionIdx page st)
    (offers_publishOpenPage hsound.offers howns.inUse) htables hwidens,
    ⟨hpending.of_tables htables, howns.widen hwidens⟩, fun _ _ hslot => .inl hslot⟩

/-- A write straight to the file, of a page without a buffer. -/
theorem spares_writeRecord {id page slot : Nat} {Started : Nat → Prop} {st : Store cfg}
    (hsound : st.Sound) (record : Record cfg) (hslot : slot < cfg.vectorsPerPage)
    (hnone : st.bufferHolding page = none) :
    Spares id (some (page, slot)) Started st (writeRecord page slot record st) := by
  have hfills : Fills page slot record st (writeRecord page slot record st) :=
    writeRecord_fills record hnone
  refine Spares.of_layout hsound (hsound.wellFormed.writeRecord page slot record) (by simp)
    ?_ ?_ (fun other _ hother => hother)
  · intro other otherSlot found hother hne _ hcontains
    by_cases hsame : other = page
    · subst hsame
      exact hfills.contains_other hother (hne rfl) hcontains
    · exact (writeRecord_keeps record hslot hsame).contains hother hcontains
  · intro other otherSlot found hother hne _ hholds
    by_cases hsame : other = page
    · subst hsame
      exact hfills.holds_other hother (hne rfl) hholds
    · exact (writeRecord_keeps record hslot hsame).holds hother hholds

/-- A write through the section buffer, which started it from zeros unless it
held the page. -/
theorem spares_writeToSectionBufferLocked {id page slot : Nat} {Started : Nat → Prop}
    {st st' : Store cfg} {sectionIdx : Int} {record : Record cfg} (hsound : st.Sound)
    (hwf : st'.WellFormed)
    (hwrite : writeToSectionBufferLocked sectionIdx page slot record st =
      some (true, st'))
    (hkeeps : ∀ other, other ≠ page → Keeps other st st')
    (hpage : Started page ∨ Fills page slot record st st' ∧
      st.bufferHolding page ≠ none) :
    Spares id (some (page, slot)) Started st st' := by
  refine Spares.of_layout hsound hwf (layout_writeToSectionBufferLocked hwrite) ?_ ?_ ?_
  · intro other otherSlot found hother hne hstarted hcontains
    by_cases hsame : other = page
    · subst hsame
      exact (hpage.resolve_left hstarted).1.contains_other hother (hne rfl) hcontains
    · exact (hkeeps other hsame).contains hother hcontains
  · intro other otherSlot found hother hne hstarted hholds
    by_cases hsame : other = page
    · subst hsame
      exact (hpage.resolve_left hstarted).1.holds_other hother (hne rfl) hholds
    · exact (hkeeps other hsame).holds hother hholds
  · intro other hstarted hnone
    by_cases hsame : other = page
    · subst hsame
      exact absurd hnone (hpage.resolve_left hstarted).2
    · exact bufferHolding_writeToSectionBufferLocked hsound.wellFormed hwf hwrite hsame
        hnone

theorem bufferHolding_of_negative {st : Store cfg} (hwf : st.BuffersWellFormed)
    {sectionIdx : Int} {page : Nat} (hpage : st.sectionIdxOfPage page = sectionIdx)
    (hneg : sectionIdx < 0) : st.bufferHolding page = none := by
  rw [bufferHolding_eq_none_iff hwf]
  intro other swb hbuf hsame
  obtain ⟨hnonneg, hsection⟩ := hwf.buf_page other swb hbuf
  rw [hsame, hpage] at hsection
  omega

theorem advances_granted {request : Request cfg} {st st' : Store cfg} {stage' : Stage}
    {sectionIdx : Int} {page slot : Nat} (hsound : st.Sound)
    (hfollows : Follows request st (.granted sectionIdx page slot))
    (hstep : storeStep request (.granted sectionIdx page slot) st =
      some (stage', st')) :
    Advances request (.granted sectionIdx page slot) stage' st st' := by
  obtain ⟨hpending, howns⟩ := hfollows
  have hslot := howns.slot_lt hsound.offers
  have hpage := sectionIdxOfPage_of_inUse howns.inUse
  have hwf := hsound.wellFormed
  simp only [storeStep] at hstep
  by_cases hneg : sectionIdx < 0
  · rw [if_pos hneg] at hstep
    cases hstep
    have hnone := bufferHolding_of_negative hwf.buffers hpage hneg
    exact ⟨spares_writeRecord hsound request.record hslot hnone,
      ⟨hpending.of_layout (by simp), ⟨sectionIdx, howns.of_layout (by simp)⟩,
        (writeRecord_fills request.record hnone).contains hslot⟩, fun _ _ h => .inl h⟩
  · rw [if_neg hneg] at hstep
    cases hheld : st.holdsPage sectionIdx page with
    | true =>
        obtain ⟨written, hwrite, hwritten, hfills, hkeeps⟩ :=
          writeToSectionBufferLocked_fills hwf request.record hslot hheld
        have hlayout := layout_writeToSectionBufferLocked hwrite
        rw [hwrite] at hstep
        cases hstep
        have hlive : st.bufferHolding page ≠ none := by
          obtain ⟨swb, hbuf, hsame⟩ := (holdsPage_iff _ _ _).mp hheld
          rw [(bufferHolding_eq_some_iff hwf.buffers).mpr ⟨_, hbuf, hsame⟩]
          exact Option.some_ne_none swb
        exact ⟨spares_writeToSectionBufferLocked hsound hwritten hwrite hkeeps
          (.inr ⟨hfills, hlive⟩), ⟨hpending.of_layout hlayout,
            ⟨sectionIdx, howns.of_layout hlayout⟩, hfills.contains hslot⟩,
          fun _ _ h => .inl h⟩
    | false =>
        by_cases hzero : slot = 0
        · subst hzero
          obtain ⟨written, hwrite, hwritten, hcontent, hbacked, hkeeps⟩ :=
            writeToSectionBufferLocked_starts hwf request.record (Int.not_lt.mp hneg)
              hpage hheld
          have hlayout := layout_writeToSectionBufferLocked hwrite
          rw [hwrite] at hstep
          cases hstep
          exact ⟨spares_writeToSectionBufferLocked hsound hwritten hwrite hkeeps
            (.inl ⟨sectionIdx, rfl, Int.not_lt.mp hneg, hheld⟩),
            ⟨hpending.of_layout hlayout, ⟨sectionIdx, howns.of_layout hlayout⟩,
              ⟨hcontent, hbacked⟩⟩, fun _ _ h => .inl h⟩
        · rw [writeToSectionBufferLocked_refuses request.record hheld hzero] at hstep
          cases hstep
          exact ⟨Spares.of_quiet hsound (Quiet.refl st) hsound.offers hsound.fit
            (Nat.le_refl _) (fun _ _ => ⟨rfl, rfl⟩) (widens_of_lists rfl rfl),
            ⟨hpending, ⟨sectionIdx, howns⟩,
              bufferHolding_eq_none_of_holdsPage hwf.buffers hpage hheld⟩,
            fun _ _ h => .inl h⟩

theorem advances_refused {request : Request cfg} {st st' : Store cfg} {stage' : Stage}
    {page slot : Nat} (hsound : st.Sound)
    (hfollows : Follows request st (.refused page slot))
    (hstep : storeStep request (.refused page slot) st = some (stage', st')) :
    Advances request (.refused page slot) stage' st st' := by
  obtain ⟨hpending, ⟨sectionIdx, howns⟩, hnone⟩ := hfollows
  have hslot := howns.slot_lt hsound.offers
  cases hstep
  exact ⟨spares_writeRecord hsound request.record hslot hnone,
    ⟨hpending.of_layout (by simp), ⟨sectionIdx, howns.of_layout (by simp)⟩,
      (writeRecord_fills request.record hnone).contains hslot⟩, fun _ _ h => .inl h⟩

theorem advances_written {request : Request cfg} {st st' : Store cfg} {stage' : Stage}
    {page slot : Nat} (hsound : st.Sound)
    (hfollows : Follows request st (.written page slot))
    (hstep : storeStep request (.written page slot) st = some (stage', st')) :
    Advances request (.written page slot) stage' st st' := by
  obtain ⟨hpending, ⟨sectionIdx, howns⟩, hcontains⟩ := hfollows
  have hslot := howns.slot_lt hsound.offers
  have hwf := hsound.wellFormed
  cases hstep
  refine ⟨Spares.of_layout hsound (hwf.updateCacheAfterWrite page slot request.record)
    (by simp) ?_ ?_ ?_, ⟨hpending.of_layout (by simp),
      ⟨sectionIdx, howns.of_layout (by simp)⟩,
      updateCacheAfterWrite_holds hwf hslot hcontains.content hcontains.backed⟩,
    fun _ _ h => .inl h⟩
  · intro other otherSlot found _ _ _ hfound
    refine ⟨?_, ?_⟩
    · rw [overlaidPage_updateCacheAfterWrite]
      exact hfound.content
    · rw [bufferHolding_updateCacheAfterWrite, file_updateCacheAfterWrite]
      exact hfound.backed
  · intro other otherSlot found _ hne _ hholds
    exact updateCacheAfterWrite_holds_other hwf request.record hslot hne hholds
  · intro other _ hnone
    rw [bufferHolding_updateCacheAfterWrite]
    exact hnone

theorem advances_cached {request : Request cfg} {st st' : Store cfg} {stage' : Stage}
    {page slot : Nat} (hsound : st.Sound)
    (hfollows : Follows request st (.cached page slot))
    (hstep : storeStep request (.cached page slot) st = some (stage', st')) :
    Advances request (.cached page slot) stage' st st' := by
  obtain ⟨hpending, ⟨sectionIdx, howns⟩, hholds⟩ := hfollows
  have hslot := howns.slot_lt hsound.offers
  have hquiet := quiet_markDeletedAt st request.id false
  have hlayout := layout_markDeletedAt st request.id false
  cases hstep
  have htables := sameTables_of_layout_eq hlayout
  exact ⟨Spares.of_allocator hsound hquiet ((offers_congr hlayout).mpr hsound.offers)
    htables (widens_of_lists (by rw [hlayout]) (by rw [hlayout])),
    ⟨hpending.of_layout hlayout, ⟨sectionIdx, howns.of_layout hlayout⟩,
      (hquiet.keeps hsound.wellFormed page).holds hslot hholds⟩, fun _ _ h => .inl h⟩

theorem advances_undeleted {request : Request cfg} {st st' : Store cfg} {stage' : Stage}
    {page slot : Nat} (hsound : st.Sound)
    (hfollows : Follows request st (.undeleted page slot))
    (hstep : storeStep request (.undeleted page slot) st = some (stage', st')) :
    Advances request (.undeleted page slot) stage' st st' := by
  obtain ⟨hpending, ⟨sectionIdx, howns⟩, hholds⟩ := hfollows
  have hslot := howns.slot_lt hsound.offers
  obtain ⟨hdefined, hfit, hother, hlocation, -⟩ :=
    assignLocation_spec hsound.fit page slot hpending.room
  have hquiet := quiet_assignLocation st request.id page slot
  obtain ⟨hopen, hfree, hpages⟩ := lists_assignLocation st request.id page slot
  have hwidens := widens_of_lists hfree hpages
  have hspares : Spares request.id (some (page, slot))
      (StartsBuffer (.undeleted page slot) st) st
      (st.assignLocation request.id page slot).2 :=
    Spares.of_quiet hsound hquiet (offers_of_lists hsound.offers hopen hfree hpages)
      hfit (totalVectors_assignLocation st request.id page slot).ge hother hwidens
  have hholds' := (hquiet.keeps hsound.wellFormed page).holds hslot hholds
  have howns' := howns.widen hwidens
  simp only [storeStep] at hstep
  cases hassign : st.assignLocation request.id page slot with
  | mk outcome assigned =>
      rw [hassign] at hstep hdefined hlocation hspares hholds' howns'
      cases outcome with
      | returned _ =>
          cases hstep
          exact ⟨hspares, ⟨hlocation rfl, ⟨sectionIdx, howns'⟩, hholds'⟩,
            fun _ _ h => .inl h⟩
      | threw =>
          cases hstep
          exact ⟨hspares, trivial, fun _ _ h => by cases h⟩
      | undefined => exact absurd rfl hdefined

/-- Every step of a call spares the other threads and keeps what is true of the
call. -/
theorem storeStep_advances {request : Request cfg} {st st' : Store cfg}
    {stage stage' : Stage} (hsound : st.Sound) (hfollows : Follows request st stage)
    (hstep : storeStep request stage st = some (stage', st')) :
    Advances request stage stage' st st' := by
  cases stage with
  | called => exact advances_called hsound hfollows hstep
  | grown => exact advances_grown hsound hfollows hstep
  | unlocated => exact advances_unlocated hsound hfollows hstep
  | sectioned sectionIdx => exact advances_sectioned hsound hfollows hstep
  | pageless sectionIdx => exact advances_pageless hsound hfollows hstep
  | fresh sectionIdx page => exact advances_fresh hsound hfollows hstep
  | granted sectionIdx page slot => exact advances_granted hsound hfollows hstep
  | refused page slot => exact advances_refused hsound hfollows hstep
  | written page slot => exact advances_written hsound hfollows hstep
  | cached page slot => exact advances_cached hsound hfollows hstep
  | undeleted page slot => exact advances_undeleted hsound hfollows hstep
  | returned page slot => cases hstep
  | threw => cases hstep
  | located _ | overwriting _ _ | overwritten _ _ | refreshed _ _ | undefined =>
      exact hfollows.elim

/-! Runs -/

section

variable {ι : Type} [DecidableEq ι] {requests : ι → Request cfg}

/-- What is true of all threads together: each has come as far as its stage says,
and no two own one slot. -/
structure AllFollow (requests : ι → Request cfg) (stages : ι → Stage)
    (st : Store cfg) : Prop where
  sound : st.Sound
  follows : ∀ i, Follows (requests i) st (stages i)
  unshared : ∀ i j page slot, (stages i).slot = some (page, slot) →
    (stages j).slot = some (page, slot) → i = j

theorem AllFollow.step {stages : ι → Stage} {st st' : Store cfg}
    (hall : AllFollow requests stages st)
    (hdistinct : Function.Injective fun i => (requests i).id) {i : ι} {stage : Stage}
    (hsafe : SafeStart i stages st)
    (hstep : storeStep (requests i) (stages i) st = some (stage, st')) :
    AllFollow requests (Function.update stages i stage) st' := by
  have hadvances := storeStep_advances hall.sound (hall.follows i) hstep
  -- The slot a step grants is nobody else's, since owned slots are reserved.
  have hnew : ∀ j, j ≠ i → ∀ page slot, stage.slot = some (page, slot) →
      (stages j).slot ≠ some (page, slot) := by
    intro j hne page slot hslot hother
    rcases hadvances.slot page slot hslot with hold | hfree
    · exact hne (hall.unshared j i page slot hother hold)
    · obtain ⟨sectionIdx, howns⟩ := (hall.follows j).owns hother
      exact hfree (howns.reserved hall.sound.offers)
  refine ⟨hadvances.spares.sound, ?_, ?_⟩
  · intro j
    by_cases hsame : j = i
    · subst hsame
      rw [Function.update_self]
      exact hadvances.follows
    · rw [Function.update_of_ne hsame]
      refine (hall.follows j).spared hall.sound hadvances.spares
        (fun heq => hsame (hdistinct heq)) ?_ ?_
      · intro page slot hslot hown
        exact hsame (hall.unshared j i page slot hslot hown)
      · intro page slot hsettled hstarts
        exact hsafe page hstarts j hsame slot hsettled
  · intro j k page slot hj hk
    by_cases hji : j = i
    · by_cases hki : k = i
      · rw [hji, hki]
      · subst hji
        rw [Function.update_self] at hj
        rw [Function.update_of_ne hki] at hk
        exact absurd hk (hnew k hki page slot hj)
    · rw [Function.update_of_ne hji] at hj
      by_cases hki : k = i
      · subst hki
        rw [Function.update_self] at hk
        exact absurd hj (hnew j hji page slot hk)
      · rw [Function.update_of_ne hki] at hk
        exact hall.unshared j k page slot hj hk

theorem Interleaves.allFollow {start st : Store cfg} {stages : ι → Stage}
    (hsound : start.Sound) (hdistinct : Function.Injective fun i => (requests i).id)
    (hnew : ∀ i, start.hasLocation (requests i).id = false)
    (hrun : Interleaves requests SafeStart start stages st) :
    AllFollow requests stages st := by
  induction hrun with
  | start => exact ⟨hsound, hnew, fun _ _ _ _ hslot => by cases hslot⟩
  | step i _ hsafe hstep ih => exact ih.step hdistinct hsafe hstep

/-- What may happen after the calls: flushes, syncs, evictions and reads. -/
inductive Settles (start : Store cfg) : Store cfg → Prop
  | start : Settles start start
  | flushWrites {st : Store cfg} (hsettles : Settles start st) :
      Settles start st.flushWrites
  | syncData {st : Store cfg} (hsettles : Settles start st) : Settles start st.syncData
  | evictOldest {st next : Store cfg} (sectionIdx : Int) (hsettles : Settles start st)
      (hturn : Store.evictOldest sectionIdx st = some next) : Settles start next
  | readVectorFromDisk {st : Store cfg} (id : Nat) (hsettles : Settles start st) :
      Settles start (Store.readVectorFromDisk id st).2

theorem Settles.keeps {start st : Store cfg} (hwf : start.WellFormed)
    (hsettles : Settles start st) :
    st.WellFormed ∧ (∀ page, Keeps page start st) ∧ st.layout = start.layout := by
  induction hsettles with
  | start => exact ⟨hwf, fun page => Keeps.refl page start, rfl⟩
  | @flushWrites st _ ih | @syncData st _ ih =>
      obtain ⟨hst, hkeeps, hlayout⟩ := ih
      obtain ⟨hnext, hflush, -⟩ := flushWrites_spec hst
      exact ⟨hnext, fun page => (hkeeps page).trans (hflush page),
        (layout_flushWrites st).trans hlayout⟩
  | evictOldest sectionIdx _ hturn ih =>
      obtain ⟨hst, hkeeps, hlayout⟩ := ih
      obtain ⟨hnext, hevict, -⟩ := evictOldest_keeps hst hturn
      exact ⟨hnext, fun page => (hkeeps page).trans (hevict page),
        (layout_evictOldest hturn).trans hlayout⟩
  | @readVectorFromDisk st id _ ih =>
      obtain ⟨hst, hkeeps, hlayout⟩ := ih
      obtain ⟨hnext, hread⟩ := readVectorFromDisk_keeps hst id
      exact ⟨hnext, fun page => (hkeeps page).trans (hread page),
        (layout_readVectorFromDisk id st).trans hlayout⟩

end

theorem safeStart_of_subsingleton {ι : Type} [Subsingleton ι] (i : ι)
    (stages : ι → Stage) (st : Store cfg) : SafeStart i stages st :=
  fun _ _ j hne => absurd (Subsingleton.elim j i) hne

def firstRequest : Request tinyConfig := ⟨0, tinyRecord 1, 7⟩

def secondRequest : Request tinyConfig := ⟨1, tinyRecord 2, 7⟩

/-- One thread by itself. -/
def alone : (Unit → Stage) × Store tinyConfig :=
  (schedule (fun _ => firstRequest) (List.replicate 10 ()) (fun _ => .called)
    roomForTwo).get rfl

theorem schedule_alone :
    schedule (fun _ => firstRequest) (List.replicate 10 ()) (fun _ => .called)
      roomForTwo = some alone := (Option.some_get _).symm

def racers (second : Bool) : Request tinyConfig :=
  if second then secondRequest else firstRequest

/-- The first thread appends a page and offers its second slot; the second
thread takes it and, refused by the buffer, writes to the file; the first thread
then starts a buffer from zeros over both. -/
def racing : (Bool → Stage) × Store tinyConfig :=
  (schedule racers
    (List.replicate 6 false ++ List.replicate 9 true ++ List.replicate 4 false)
    (fun _ => .called) roomForTwo).get rfl

theorem schedule_racing :
    schedule racers
      (List.replicate 6 false ++ List.replicate 9 true ++ List.replicate 4 false)
      (fun _ => .called) roomForTwo = some racing := (Option.some_get _).symm

end Store

end AsterVec.PagedVectorStorage

import AsterVec.PagedReaders

/-!
What readers find.  A page that is loaded has no write buffer and will not get one, so
its image goes stale only when a record is written straight to the file.
-/

namespace AsterVec.PagedVectorStorage

open AsterVec.ByteBuffer
open AsterVec.IdTypes
open AsterVec.Programs

variable {cfg : Config} {ι κ : Type} {requests : ι → Request cfg}

/-- The slot of a call that has refreshed the page cache. -/
def Stage.refreshedSlot : Stage → Option (Nat × Nat)
  | .cached page slot => some (page, slot)
  | .undeleted page slot => some (page, slot)
  | .returned page slot => some (page, slot)
  | _ => none

namespace Store

/-- A record that a step leaves behind the cache refresh was there before, or is
refreshed by this step. -/
theorem refreshedSlot_of_step {request : Request cfg} {st st' : Store cfg}
    {stage stage' : Stage} (hsound : st.Sound) (hfollows : Follows request st stage)
    (hstep : storeStep request stage st = some (stage', st')) {page slot : Nat}
    (hslot : stage'.refreshedSlot = some (page, slot))
    (hcontains : stage.refreshedSlot = some (page, slot) →
      st.Contains page slot request.record) :
    (stage.refreshedSlot = some (page, slot) ∨ stage = .written page slot) ∧
      st'.Contains page slot request.record := by
  cases stage with
  | written page' slot' =>
      obtain ⟨-, -, hfound⟩ := hfollows
      cases hstep
      cases hslot
      refine ⟨.inr rfl, ?_, ?_⟩
      · rw [overlaidPage_updateCacheAfterWrite]
        exact hfound.content
      · rw [bufferHolding_updateCacheAfterWrite, file_updateCacheAfterWrite]
        exact hfound.backed
  | cached page' slot' =>
      obtain ⟨-, ⟨sectionIdx, howns⟩, -⟩ := hfollows
      cases hstep
      cases hslot
      have hquiet := quiet_markDeletedAt st request.id false
      exact ⟨.inl rfl, (hquiet.keeps hsound.wellFormed page).contains
        (howns.slot_lt hsound.offers) (hcontains rfl)⟩
  | undeleted page' slot' =>
      obtain ⟨-, ⟨sectionIdx, howns⟩, -⟩ := hfollows
      have hquiet := quiet_assignLocation st request.id page' slot'
      simp only [storeStep] at hstep
      cases hassign : st.assignLocation request.id page' slot' with
      | mk outcome assigned =>
          rw [hassign] at hstep hquiet
          cases outcome with
          | returned _ =>
              cases hstep
              cases hslot
              exact ⟨.inl rfl, (hquiet.keeps hsound.wellFormed page).contains
                (howns.slot_lt hsound.offers) (hcontains rfl)⟩
          | threw | undefined =>
              cases hstep
              cases hslot
  | located _ | overwriting _ _ | overwritten _ _ | refreshed _ _ | undefined =>
      exact hfollows.elim
  | returned _ _ | threw => cases hstep
  | called | grown | unlocated | sectioned _ | pageless _ | fresh _ _ | granted _ _ _
  | refused _ _ =>
      simp only [storeStep] at hstep
      repeat' split at hstep
      all_goals
        cases hstep
        try cases hslot

/-- What a call needs of the store is not touched when a page is published, given
that the image has the records of the calls. -/
theorem Follows.publishPage {request : Request cfg} {st : Store cfg} {stage : Stage}
    (hfollows : Follows request st stage) (hsound : st.Sound)
    (hmax : 0 < cfg.maxCachedPages) {page : Nat} {image : Buffer}
    (himage : ∀ slot, stage.refreshedSlot = some (page, slot) →
      recordAt cfg image slot = request.record) :
    Follows request (publishPage page image st) stage := by
  obtain ⟨hshards, hcount, hpages, hfile⟩ := publishPage_fields page image st
  have hlayout := layout_publishPage page image st
  have htables := sameTables_of_layout_eq hlayout
  have hheld : ∀ other, (Store.publishPage page image st).bufferHolding other =
      st.bufferHolding other := by
    intro other
    unfold bufferHolding writeBuf sectionShardState sectionIdxOfPage
    rw [hshards, hcount, hpages]
  have hpending : Pending request st → Pending request (Store.publishPage page image st) :=
    fun hpending => hpending.of_layout hlayout
  have howns : ∀ {page' slot : Nat}, (∃ sectionIdx, st.Owns sectionIdx page' slot) →
      ∃ sectionIdx, (Store.publishPage page image st).Owns sectionIdx page' slot := by
    rintro page' slot ⟨sectionIdx, howns⟩
    exact ⟨sectionIdx, howns.of_layout hlayout⟩
  have hholds : ∀ {page' slot : Nat}, stage.refreshedSlot = some (page', slot) →
      st.Holds page' slot request.record →
        (Store.publishPage page image st).Holds page' slot request.record := by
    intro page' slot hslot hholds
    refine ⟨?_, ?_, ?_⟩
    · rw [overlaidPage_congr (hheld page') hfile]
      exact hholds.content
    · intro found hfound
      cases hmap : st.pageToSlot page with
      | some cs =>
          have hsame : Store.publishPage page image st = st := by
            unfold Store.publishPage
            rw [hmap]
            rfl
          rw [hsame] at hfound
          exact hholds.cached found hfound
      | none =>
          obtain ⟨hnew, hold⟩ :=
            cachedImage_publishPage image hsound.wellFormed.cache hmax hmap
          rcases eq_or_ne page' page with rfl | hne
          · rw [hnew] at hfound
            cases hfound
            exact himage slot hslot
          · exact hholds.cached found (hold page' found hne hfound)
    · rw [hheld page', hfile]
      exact hholds.backed
  cases stage with
  | called => exact (htables.location _).2.trans hfollows
  | grown | unlocated | sectioned _ | pageless _ => exact hpending hfollows
  | fresh sectionIdx page' | granted sectionIdx page' slot =>
      exact ⟨hpending hfollows.1, hfollows.2.of_layout hlayout⟩
  | refused page' slot =>
      exact ⟨hpending hfollows.1, howns hfollows.2.1, (hheld page').trans hfollows.2.2⟩
  | written page' slot =>
      obtain ⟨hbefore, hslot, hfound⟩ := hfollows
      refine ⟨hpending hbefore, howns hslot, ?_, ?_⟩
      · rw [overlaidPage_congr (hheld page') hfile]
        exact hfound.content
      · rw [hheld page', hfile]
        exact hfound.backed
  | cached page' slot | undeleted page' slot =>
      exact ⟨hpending hfollows.1, howns hfollows.2.1, hholds rfl hfollows.2.2⟩
  | returned page' slot =>
      exact ⟨(htables.location _).1.trans hfollows.1, howns hfollows.2.1,
        hholds rfl hfollows.2.2⟩
  | threw => trivial
  | located _ | overwriting _ _ | overwritten _ _ | refreshed _ _ | undefined =>
      exact hfollows

theorem Sound.publishPage {st : Store cfg} (hsound : st.Sound)
    (hmax : 0 < cfg.maxCachedPages) (page : Nat) (image : Buffer) :
    (publishPage page image st).Sound := by
  obtain ⟨hshards, hcount, hpages, -⟩ := publishPage_fields page image st
  have hwf := hsound.wellFormed
  refine hsound.of_layout ⟨?_, hwf.queued.congr hshards,
    hwf.cache.publishPage hmax _ _⟩ (layout_publishPage page image st)
  refine hwf.buffers.congr (fun i => by rw [hshards]) ?_ hcount
  intro other found hfound
  rw [sectionIdxOfPage, hpages, hfound]
  rfl

end Store

namespace Crowd

open Store

/-- A record of the page can be read, and the page has no write buffer. -/
def Direct (g : Shared cfg ι κ) (page : Nat) : Prop :=
  (∃ j slot, g.stages j = .returned page slot) ∧ g.st.bufferHolding page = none

/-- What holds between the steps. -/
structure Good (requests : ι → Request cfg) (g : Shared cfg ι κ) : Prop where
  all : AllFollow requests g.stages g.st
  contains : ∀ j page slot, (g.stages j).refreshedSlot = some (page, slot) →
    g.st.Contains page slot (requests j).record
  staged : ∀ r page image, g.staging r = some (page, image) →
    0 < cfg.maxCachedPages ∧ Direct g page ∧
      ∀ j slot, (g.stages j).refreshedSlot = some (page, slot) →
        recordAt cfg image slot = (requests j).record

/-- What the steps of others keep. -/
structure Later (requests : ι → Request cfg) (g g' : Shared cfg ι κ) : Prop where
  good : Good requests g'
  returned : ∀ j page slot, g.stages j = .returned page slot →
    g'.stages j = .returned page slot
  direct : ∀ page, Direct g page → Direct g' page

theorem Good.later {g : Shared cfg ι κ} (hgood : Good requests g) : Later requests g g :=
  ⟨hgood, fun _ _ _ h => h, fun _ h => h⟩

theorem Later.trans {a b c : Shared cfg ι κ} (hab : Later requests a b)
    (hbc : Later requests b c) : Later requests a c :=
  ⟨hbc.good, fun j page slot h => hbc.returned j page slot (hab.returned j page slot h),
    fun page h => hbc.direct page (hab.direct page h)⟩

/-- What is asked of the steps of calls: no zero-filled buffer starts over a page with
other records, and no record is refreshed that an image under way lacks. -/
def Careful (requests : ι → Request cfg) (i : ι) (g : Shared cfg ι κ) : Prop :=
  SafeStart i g.stages g.st ∧ SafeUpdate requests i g

/-- A careful step of a call. -/
theorem Good.stores [DecidableEq ι] {g : Shared cfg ι κ} (hgood : Good requests g)
    (hdistinct : Function.Injective fun i => (requests i).id) {i : ι} {stage : Stage}
    {st : Store cfg} (hcareful : Careful requests i g)
    (hstep : storeStep (requests i) (g.stages i) g.st = some (stage, st)) :
    Later requests g { g with stages := Function.update g.stages i stage, st := st } := by
  obtain ⟨hstart, hupdate⟩ := hcareful
  have hadvances := storeStep_advances hgood.all.sound (hgood.all.follows i) hstep
  have hall := hgood.all.step hdistinct hstart hstep
  have hother : ∀ {j : ι} {page slot : Nat}, g.stages j = .returned page slot → j ≠ i := by
    rintro j page slot hreturned rfl
    rw [hreturned] at hstep
    cases hstep
  have hreturned : ∀ j page slot, g.stages j = .returned page slot →
      Function.update g.stages i stage j = .returned page slot := by
    intro j page slot h
    rw [Function.update_of_ne (hother h)]
    exact h
  have hdirect : ∀ page, Direct g page →
      Direct { g with stages := Function.update g.stages i stage, st := st } page := by
    rintro page ⟨⟨j, slot, hj⟩, hnone⟩
    refine ⟨⟨j, slot, hreturned j page slot hj⟩, hadvances.spares.unbuffered page ?_ hnone⟩
    intro hstarts
    apply hstart page hstarts j (hother hj) slot
    rw [hj]
    rfl
  have hself : ∀ page slot, stage.refreshedSlot = some (page, slot) →
      ((g.stages i).refreshedSlot = some (page, slot) ∨ g.stages i = .written page slot) ∧
        st.Contains page slot (requests i).record := fun page slot hslot =>
    refreshedSlot_of_step hgood.all.sound (hgood.all.follows i) hstep hslot
      (hgood.contains i page slot)
  refine ⟨⟨hall, ?_, ?_⟩, hreturned, hdirect⟩
  · intro j page slot hslot
    change (Function.update g.stages i stage j).refreshedSlot = _ at hslot
    rcases eq_or_ne j i with rfl | hne
    · rw [Function.update_self] at hslot
      exact (hself page slot hslot).2
    · rw [Function.update_of_ne hne] at hslot
      have hheld : (g.stages j).slot = some (page, slot) ∧
          (g.stages j).settled = some (page, slot) := by
        generalize g.stages j = stage at hslot ⊢
        cases stage <;> first | exact ⟨hslot, hslot⟩ | cases hslot
      obtain ⟨sectionIdx, howns⟩ := (hgood.all.follows j).owns hheld.1
      refine hadvances.spares.contains page slot _ (howns.slot_lt hgood.all.sound.offers) ?_
        ?_ (hgood.contains j page slot hslot)
      · exact fun hown => hne (hgood.all.unshared j i page slot hheld.1 hown)
      · exact fun hstarts => hstart page hstarts j hne slot hheld.2
  · intro r page image hstaged
    obtain ⟨hmax, hpage, himage⟩ := hgood.staged r page image hstaged
    refine ⟨hmax, hdirect page hpage, fun j slot hslot => ?_⟩
    change (Function.update g.stages i stage j).refreshedSlot = _ at hslot
    rcases eq_or_ne j i with rfl | hne
    · rw [Function.update_self] at hslot
      rcases (hself page slot hslot).1 with hbefore | hwritten
      · exact himage j slot hbefore
      · exact hupdate page slot hwritten r image hstaged
    · rw [Function.update_of_ne hne] at hslot
      exact himage j slot hslot

/-! What is known of a slot -/

section Slots

variable {g : Shared cfg ι κ} {page slot : Nat} {record : Record cfg}

/-- A call that returned left `record` in the slot. -/
def Stored (requests : ι → Request cfg) (g : Shared cfg ι κ) (record : Record cfg)
    (page slot : Nat) : Prop :=
  ∃ j, g.stages j = .returned page slot ∧ (requests j).record = record

theorem Stored.later {g' : Shared cfg ι κ} (hstored : Stored requests g record page slot)
    (hlater : Later requests g g') : Stored requests g' record page slot := by
  obtain ⟨j, hreturned, hrecord⟩ := hstored
  exact ⟨j, hlater.returned j page slot hreturned, hrecord⟩

theorem Stored.facts (hgood : Good requests g)
    (hstored : Stored requests g record page slot) :
    slot < cfg.vectorsPerPage ∧ g.st.Holds page slot record ∧
      g.st.Contains page slot record := by
  obtain ⟨j, hreturned, rfl⟩ := hstored
  have hfollows := hgood.all.follows j
  rw [hreturned] at hfollows
  obtain ⟨-, ⟨sectionIdx, howns⟩, hholds⟩ := hfollows
  refine ⟨howns.slot_lt hgood.all.sound.offers, hholds, hgood.contains j page slot ?_⟩
  rw [hreturned]
  rfl

/-- A write buffer of the page has the record; without one the page is read directly. -/
theorem Stored.buffered (hgood : Good requests g)
    (hstored : Stored requests g record page slot) :
    g.st.tryReadFromWriteBuf page slot = some record ∨
      g.st.tryReadFromWriteBuf page slot = none ∧ Direct g page := by
  obtain ⟨-, hholds, -⟩ := hstored.facts hgood
  unfold tryReadFromWriteBuf
  cases hheld : g.st.bufferHolding page with
  | some swb =>
      have hcontent := hholds.content
      unfold overlaidPage at hcontent
      rw [hheld] at hcontent
      exact .inl (congrArg some hcontent)
  | none =>
      obtain ⟨j, hreturned, -⟩ := hstored
      exact .inr ⟨rfl, ⟨j, slot, hreturned⟩, hheld⟩

theorem Stored.cached (hgood : Good requests g)
    (hstored : Stored requests g record page slot) {found : Record cfg}
    (hfound : g.st.tryReadFromCache page slot = some found) : found = record := by
  obtain ⟨hslot, hholds, -⟩ := hstored.facts hgood
  rw [tryReadFromCache_eq _ hgood.all.sound.wellFormed.cache hslot] at hfound
  obtain ⟨image, himage, rfl⟩ := Option.map_eq_some_iff.mp hfound
  exact hholds.cached image himage

/-- The file has the record of a page without a buffer. -/
theorem Stored.pread (hgood : Good requests g)
    (hstored : Stored requests g record page slot) (hdirect : Direct g page) :
    g.st.preadRecord page slot = .returned record := by
  obtain ⟨-, -, hcontains⟩ := hstored.facts hgood
  have hcontent := hcontains.content
  rw [overlaidPage_of_none hdirect.2] at hcontent
  unfold preadRecord
  simp only
  rw [if_pos (hcontains.backed hdirect.2), ← hcontent]
  refine congrArg _ ?_
  simp only [recordAt, Record.mk.injEq]
  exact slice_congr fun k _ => by rw [Nat.add_assoc]

/-- The id was stored with `record` by a call that returned. -/
def Known (requests : ι → Request cfg) (g : Shared cfg ι κ) (id : Nat)
    (record : Record cfg) : Prop :=
  ∃ j page slot, (requests j).id = id ∧ g.stages j = .returned page slot ∧
    (requests j).record = record

theorem Known.later {id : Nat} {g' : Shared cfg ι κ} (hknown : Known requests g id record)
    (hlater : Later requests g g') : Known requests g' id record := by
  obtain ⟨j, page, slot, hid, hreturned, hrecord⟩ := hknown
  exact ⟨j, page, slot, hid, hlater.returned j page slot hreturned, hrecord⟩

theorem Known.location {id : Nat} (hgood : Good requests g)
    (hknown : Known requests g id record) :
    ∃ page slot, g.st.location id = some (page, slot) ∧
      Stored requests g record page slot := by
  obtain ⟨j, page, slot, rfl, hreturned, hrecord⟩ := hknown
  have hfollows := hgood.all.follows j
  rw [hreturned] at hfollows
  exact ⟨page, slot, hfollows.1, j, hreturned, hrecord⟩

/-- The entry stands for the record, read or still to be read from its slot. -/
def Fits (requests : ι → Request cfg) (g : Shared cfg ι κ) (record : Record cfg) :
    Item cfg → Prop
  | .read found => found = record
  | .missing page slot => Stored requests g record page slot ∧ Direct g page

theorem Fits.later {g' : Shared cfg ι κ} {item : Item cfg}
    (hfits : Fits requests g record item) (hlater : Later requests g g') :
    Fits requests g' record item := by
  cases item with
  | read found => exact hfits
  | missing page slot => exact ⟨hfits.1.later hlater, hlater.direct page hfits.2⟩

theorem Fits.lookCached (hgood : Good requests g) {item : Item cfg}
    (hfits : Fits requests g record item) :
    Fits requests g record (Shared.lookCached g.st item) := by
  cases item with
  | read found => exact hfits
  | missing page slot =>
      unfold Shared.lookCached
      simp only
      cases hfound : g.st.tryReadFromCache page slot with
      | none => exact hfits
      | some found => exact hfits.1.cached hgood hfound

theorem direct_missingPages {records : List (Record cfg)} {items : List (Item cfg)}
    (hitems : List.Forall₂ (Fits requests g) records items) :
    ∀ page ∈ ReadProg.missingPages items, Direct g page := by
  intro page hpage
  unfold ReadProg.missingPages at hpage
  rw [List.mem_dedup, List.mem_mergeSort, List.mem_filterMap] at hpage
  obtain ⟨item, hitem, hmissing⟩ := hpage
  obtain ⟨record, hfits⟩ : ∃ record, Fits requests g record item := by
    induction hitems with
    | nil => cases hitem
    | cons hfirst _ ih =>
        rcases List.mem_cons.mp hitem with rfl | hitem
        · exact ⟨_, hfirst⟩
        · exact ih hitem
  cases item with
  | read found => cases hmissing
  | missing other slot =>
      cases hmissing
      exact hfits.2

end Slots

/-! Calls of readers -/

/-- The reader `r` can go on, whatever others do in between: each of its calls keeps
what they rely on. -/
def Proceeds [DecidableEq κ] (requests : ι → Request cfg) (r : κ) {α : Type} :
    ReadProg cfg α → (α → Shared cfg ι κ → Prop) → Shared cfg ι κ → Prop
  | .done value, Post, g => Post value g
  | .call c next, Post, g => ∀ g', Later requests g g' → g'.staging r = g.staging r →
      Later requests g' (Shared.exec r c g').2 ∧
        (∀ r', r' ≠ r → (Shared.exec r c g').2.staging r' = g'.staging r') ∧
        Proceeds requests r (next (Shared.exec r c g').1) Post (Shared.exec r c g').2

section Rules

variable [DecidableEq κ] {r : κ} {α β : Type} {g : Shared cfg ι κ}

theorem Proceeds.mono {p : ReadProg cfg α} {Post Post' : α → Shared cfg ι κ → Prop}
    (hproceeds : Proceeds requests r p Post g)
    (hpost : ∀ value g', Post value g' → Post' value g') :
    Proceeds requests r p Post' g := by
  induction p generalizing g with
  | done value => exact hpost value g hproceeds
  | call c next ih =>
      intro g' hlater hsame
      obtain ⟨hkeeps, hothers, hnext⟩ := hproceeds g' hlater hsame
      exact ⟨hkeeps, hothers, ih _ hnext⟩

theorem Proceeds.bind {p : ReadProg cfg α} {follow : α → ReadProg cfg β}
    {Post : β → Shared cfg ι κ → Prop}
    (hproceeds : Proceeds requests r p
      (fun value g' => Proceeds requests r (follow value) Post g') g) :
    Proceeds requests r (p >>= follow) Post g := by
  induction p generalizing g with
  | done value => exact hproceeds
  | call c next ih =>
      intro g' hlater hsame
      obtain ⟨hkeeps, hothers, hnext⟩ := hproceeds g' hlater hsame
      exact ⟨hkeeps, hothers, ih _ hnext⟩

/-- Steps of others leave a reader able to go on to its value. -/
theorem Proceeds.later {p : ReadProg cfg α} {Post : α → Prop} {g' : Shared cfg ι κ}
    (hproceeds : Proceeds requests r p (fun value _ => Post value) g)
    (hlater : Later requests g g') (hsame : g'.staging r = g.staging r) :
    Proceeds requests r p (fun value _ => Post value) g' := by
  cases p with
  | done value => exact hproceeds
  | call c next =>
      intro g'' hlater' hsame'
      exact hproceeds g'' (hlater.trans hlater') (hsame'.trans hsame)

/-- The rule of a call that only looks. -/
theorem proceeds_look {c : ReadCall cfg} {follow : ReadReply c → ReadProg cfg β}
    {Post : β → Shared cfg ι κ → Prop}
    (hlooks : ∀ g' : Shared cfg ι κ, (Shared.exec r c g').2 = g')
    (hnext : ∀ g', Later requests g g' →
      Proceeds requests r (follow (Shared.exec r c g').1) Post g') :
    Proceeds requests r (reads c >>= follow) Post g := by
  intro g' hlater _
  rw [hlooks g']
  exact ⟨hlater.good.later, fun _ _ => rfl, hnext g' hlater⟩

/-- The rule of a last call that only looks. -/
theorem proceeds_lookLast {c : ReadCall cfg} {Post : ReadReply c → Shared cfg ι κ → Prop}
    (hlooks : ∀ g' : Shared cfg ι κ, (Shared.exec r c g').2 = g')
    (hpost : ∀ g', Later requests g g' → Post (Shared.exec r c g').1 g') :
    Proceeds requests r (reads c) Post g := by
  rw [← Program.bind_pure (reads c)]
  exact proceeds_look hlooks hpost

end Rules

section Calls

variable [DecidableEq κ] {r : κ} {g : Shared cfg ι κ} {page slot : Nat} {record : Record cfg}

/-- The file has the records of a page without a buffer. -/
theorem Good.preadPage (hgood : Good requests g) (hmax : 0 < cfg.maxCachedPages)
    (hdirect : Direct g page) :
    Later requests g (Shared.exec r (.preadPage page) g).2 := by
  refine ⟨⟨hgood.all, hgood.contains, ?_⟩, fun _ _ _ h => h, fun _ h => h⟩
  intro r' page' image hstaged
  change Function.update g.staging r _ r' = some (page', image) at hstaged
  rcases eq_or_ne r' r with rfl | hne
  · rw [Function.update_self] at hstaged
    cases hstaged
    refine ⟨hmax, hdirect, fun j slot' hslot => ?_⟩
    have hcontent := (hgood.contains j page slot' hslot).content
    rwa [overlaidPage_of_none hdirect.2] at hcontent
  · rw [Function.update_of_ne hne] at hstaged
    exact hgood.staged r' page' image hstaged

/-- There is no buffer to overlay. -/
theorem exec_overlayWriteBuf (hnone : g.st.bufferHolding page = none) :
    (Shared.exec r (.overlayWriteBuf page) g).2 = g := by
  change g.setStaging r ((g.staging r).map _) = g
  rw [hnone]
  have hsame : (g.staging r).map (fun x : Nat × Buffer =>
      (x.1, (none : Option SectionWriteBuf).elim x.2 SectionWriteBuf.data)) =
        g.staging r := Option.map_id'
  unfold Shared.setStaging
  rw [hsame, Function.update_eq_self]

/-- Publishing an image that has the records of the calls. -/
theorem Good.publishPage (hgood : Good requests g) :
    Later requests g (Shared.exec r .publishPage g).2 := by
  unfold Shared.exec
  simp only
  cases hstaged : g.staging r with
  | none => exact hgood.later
  | some staged =>
      obtain ⟨page', image⟩ := staged
      obtain ⟨hmax, -, himage⟩ := hgood.staged r page' image hstaged
      obtain ⟨hshards, hcount, hpages, hfile⟩ := publishPage_fields page' image g.st
      have hheld : ∀ other, (Store.publishPage page' image g.st).bufferHolding other =
          g.st.bufferHolding other := by
        intro other
        unfold bufferHolding writeBuf sectionShardState sectionIdxOfPage
        rw [hshards, hcount, hpages]
      have hdirect : ∀ other, Direct g other →
          Direct { g.setStaging r none with st := Store.publishPage page' image g.st }
            other :=
        fun other h => ⟨h.1, (hheld other).trans h.2⟩
      refine ⟨⟨⟨hgood.all.sound.publishPage hmax page' image, fun j => ?_,
        hgood.all.unshared⟩, fun j other slot' hslot => ?_, fun r' other found h => ?_⟩,
        fun _ _ _ h => h, hdirect⟩
      · exact (hgood.all.follows j).publishPage hgood.all.sound hmax (himage j)
      · have hfound := hgood.contains j other slot' hslot
        refine ⟨?_, ?_⟩
        · change recordAt cfg ((Store.publishPage page' image g.st).overlaidPage other)
            slot' = _
          rw [overlaidPage_congr (hheld other) hfile]
          exact hfound.content
        · change (Store.publishPage page' image g.st).bufferHolding other = none →
            _ ≤ (Store.publishPage page' image g.st).file.size
          rw [hheld other, hfile]
          exact hfound.backed
      · change Function.update g.staging r none r' = some (other, found) at h
        rcases eq_or_ne r' r with rfl | hne
        · rw [Function.update_self] at h
          cases h
        · rw [Function.update_of_ne hne] at h
          obtain ⟨hpos, hother, hrecords⟩ := hgood.staged r' other found h
          exact ⟨hpos, hdirect other hother, hrecords⟩

theorem proceeds_loadPageToCache (hgood : Good requests g) (hdirect : Direct g page) :
    Proceeds requests r (ReadProg.loadPageToCache page) (fun _ g' => Later requests g g')
      g := by
  unfold ReadProg.loadPageToCache
  split
  · exact hgood.later
  · rename_i hne
    apply proceeds_look (fun _ => rfl)
    intro g₁ hlater₁
    split
    · exact hlater₁
    · intro g₂ hlater₂ _
      have hdirect₂ := (hlater₁.trans hlater₂).direct page hdirect
      have hread : Later requests g₂ (Shared.exec r (.preadPage page) g₂).2 :=
        hlater₂.good.preadPage (Nat.pos_of_ne_zero hne) hdirect₂
      refine ⟨hread, fun r' hr' => Function.update_of_ne hr' _ _, ?_⟩
      intro g₃ hlater₃ _
      have hdirect₃ := hlater₃.direct page (hread.direct page hdirect₂)
      rw [exec_overlayWriteBuf hdirect₃.2]
      refine ⟨hlater₃.good.later, fun _ _ => rfl, ?_⟩
      intro g₄ hlater₄ _
      have hpublish : Later requests g₄ (Shared.exec r .publishPage g₄).2 :=
        hlater₄.good.publishPage
      refine ⟨hpublish, fun r' hr' => ?_, ?_⟩
      · unfold Shared.exec
        simp only
        split
        · rfl
        · exact Function.update_of_ne hr' _ _
      · exact ((((hlater₁.trans hlater₂).trans hread).trans hlater₃).trans hlater₄).trans
          hpublish

theorem proceeds_preadRecord (hstored : Stored requests g record page slot)
    (hdirect : Direct g page) :
    Proceeds requests r (reads (.preadRecord page slot))
      (fun out g' => out = .returned record ∧ Later requests g g') g := by
  apply proceeds_lookLast (fun _ => rfl)
  intro g' hlater
  exact ⟨(hstored.later hlater).pread hlater.good (hlater.direct page hdirect), hlater⟩

/-- A read of a stored record returns it. -/
theorem proceeds_readRecordAt (hstored : Stored requests g record page slot) :
    Proceeds requests r (ReadProg.readRecordAt page slot)
      (fun out g' => out = .returned record ∧ Later requests g g') g := by
  unfold ReadProg.readRecordAt
  apply proceeds_look (fun _ => rfl)
  intro g₁ hlater₁
  have hstored₁ := hstored.later hlater₁
  rcases hstored₁.buffered hlater₁.good with hbuffered | ⟨hnone, hdirect⟩
  · rw [show (Shared.exec r (.tryReadFromWriteBuf page slot) g₁).1 = some record from
      hbuffered]
    exact ⟨rfl, hlater₁⟩
  · rw [show (Shared.exec r (.tryReadFromWriteBuf page slot) g₁).1 = none from hnone]
    apply proceeds_look (fun _ => rfl)
    intro g₂ hlater₂
    have hstored₂ := hstored₁.later hlater₂
    split
    · rename_i found hfound
      exact ⟨congrArg _ (hstored₂.cached hlater₂.good hfound), hlater₁.trans hlater₂⟩
    · apply Proceeds.bind
      apply (proceeds_loadPageToCache hlater₂.good (hlater₂.direct page hdirect)).mono
      intro _ g₃ hlater₃
      apply proceeds_look (fun _ => rfl)
      intro g₄ hlater₄
      have hlater := (hlater₁.trans hlater₂).trans (hlater₃.trans hlater₄)
      have hstored₄ := hstored.later hlater
      split
      · rename_i found hfound
        exact ⟨congrArg _ (hstored₄.cached hlater₄.good hfound), hlater⟩
      · have hdirect₄ := ((hlater₂.trans hlater₃).trans hlater₄).direct page hdirect
        apply (proceeds_preadRecord hstored₄ hdirect₄).mono
        rintro out g₅ ⟨hout, hlater₅⟩
        exact ⟨hout, hlater.trans hlater₅⟩

theorem proceeds_readVectorFromDisk {id : Nat} (hknown : Known requests g id record) :
    Proceeds requests r (ReadProg.readVectorFromDisk id)
      (fun out _ => out = .returned [record]) g := by
  unfold ReadProg.readVectorFromDisk
  apply proceeds_look (fun _ => rfl)
  intro g₁ hlater₁
  obtain ⟨page, slot, hlocation, hstored⟩ := (hknown.later hlater₁).location hlater₁.good
  rw [show (Shared.exec r (.locate id) g₁).1 = some (page, slot) from hlocation]
  apply Proceeds.bind
  apply (proceeds_readRecordAt hstored).mono
  rintro _ g₂ ⟨rfl, -⟩
  rfl

/-! A batch -/

theorem proceeds_tryBuffers (hgood : Good requests g) {ids : List Nat}
    {records : List (Record cfg)}
    (hknown : List.Forall₂ (fun id record => Known requests g id record) ids records) :
    Proceeds requests r (ReadProg.tryBuffers ids)
      (fun out g' => Later requests g g' ∧ ∃ items, out = some items ∧
        List.Forall₂ (Fits requests g') records items) g := by
  induction ids generalizing records g with
  | nil =>
      cases hknown
      exact ⟨hgood.later, [], rfl, .nil⟩
  | cons id ids ih =>
      rcases hknown with _ | ⟨hfirst, hrest⟩
      rename_i record records
      unfold ReadProg.tryBuffers
      apply proceeds_look (fun _ => rfl)
      intro g₁ hlater₁
      obtain ⟨page, slot, hlocation, hstored⟩ := (hfirst.later hlater₁).location hlater₁.good
      rw [show (Shared.exec r (.locate id) g₁).1 = some (page, slot) from hlocation]
      apply proceeds_look (fun _ => rfl)
      intro g₂ hlater₂
      have hstored₂ := hstored.later hlater₂
      have hitem : Fits requests g₂ record
          ((g₂.st.tryReadFromWriteBuf page slot).elim (.missing page slot) .read) := by
        rcases hstored₂.buffered hlater₂.good with hbuffered | ⟨hnone, hdirect⟩
        · rw [hbuffered]
          rfl
        · rw [hnone]
          exact ⟨hstored₂, hdirect⟩
      have hlater := hlater₁.trans hlater₂
      apply Proceeds.bind
      apply (ih hlater₂.good (hrest.imp fun _ _ h => Known.later h hlater)).mono
      rintro _ g₃ ⟨hlater₃, items, rfl, hitems⟩
      exact ⟨hlater.trans hlater₃, _, rfl, .cons (hitem.later hlater₃) hitems⟩

theorem proceeds_loadPages (hgood : Good requests g) {pages : List Nat}
    (hdirect : ∀ page ∈ pages, Direct g page) :
    Proceeds requests r (ReadProg.loadPages pages) (fun _ g' => Later requests g g') g := by
  induction pages generalizing g with
  | nil => exact hgood.later
  | cons page pages ih =>
      unfold ReadProg.loadPages
      apply Proceeds.bind
      apply (proceeds_loadPageToCache hgood (hdirect page List.mem_cons_self)).mono
      intro _ g₁ hlater₁
      apply (ih hlater₁.good fun other hother =>
        hlater₁.direct other (hdirect other (List.mem_cons_of_mem _ hother))).mono
      exact fun _ g₂ hlater₂ => hlater₁.trans hlater₂

theorem proceeds_readRest (hgood : Good requests g) {records : List (Record cfg)}
    {items : List (Item cfg)} (hitems : List.Forall₂ (Fits requests g) records items) :
    Proceeds requests r (ReadProg.readRest items) (fun out _ => out = .returned records)
      g := by
  induction items generalizing records g with
  | nil =>
      cases hitems
      rfl
  | cons item items ih =>
      rcases hitems with _ | ⟨hfirst, hrest⟩
      rename_i record records
      unfold ReadProg.readRest
      cases item with
      | read found =>
          obtain rfl : found = record := hfirst
          apply Proceeds.bind
          apply (ih hgood hrest).mono
          rintro _ _ rfl
          rfl
      | missing page slot =>
          obtain ⟨hstored, hdirect⟩ := hfirst
          have hread : Proceeds requests r (ReadProg.directReadRecord page slot)
              (fun out g' => out = .returned record ∧ Later requests g g') g := by
            unfold ReadProg.directReadRecord
            apply proceeds_look (fun _ => rfl)
            intro g₁ hlater₁
            have hstored₁ := hstored.later hlater₁
            rcases hstored₁.buffered hlater₁.good with hbuffered | ⟨hnone, hdirect₁⟩
            · rw [show (Shared.exec r (.tryReadFromWriteBuf page slot) g₁).1 = some record
                from hbuffered]
              exact ⟨rfl, hlater₁⟩
            · rw [show (Shared.exec r (.tryReadFromWriteBuf page slot) g₁).1 = none from
                hnone]
              apply (proceeds_preadRecord hstored₁ hdirect₁).mono
              rintro out g₂ ⟨hout, hlater₂⟩
              exact ⟨hout, hlater₁.trans hlater₂⟩
          apply Proceeds.bind
          apply hread.mono
          rintro _ g₁ ⟨rfl, hlater₁⟩
          apply Proceeds.bind
          apply (ih hlater₁.good (hrest.imp fun _ _ h => h.later hlater₁)).mono
          rintro _ _ rfl
          rfl

theorem proceeds_readVectorsBatchFlat (hgood : Good requests g) {ids : List Nat}
    {records : List (Record cfg)}
    (hknown : List.Forall₂ (fun id record => Known requests g id record) ids records) :
    Proceeds requests r (ReadProg.readVectorsBatchFlat ids)
      (fun out _ => out = .returned records) g := by
  unfold ReadProg.readVectorsBatchFlat
  apply Proceeds.bind
  apply (proceeds_tryBuffers hgood hknown).mono
  rintro _ g₁ ⟨hlater₁, items, rfl, hitems⟩
  have hlook : ∀ {g g' : Shared cfg ι κ} {items : List (Item cfg)}, Later requests g g' →
      List.Forall₂ (Fits requests g) records items →
        List.Forall₂ (Fits requests g') records (items.map (Shared.lookCached g'.st)) := by
    intro g g' items hlater hitems
    rw [List.forall₂_map_right_iff]
    exact hitems.imp fun _ _ hfits => (hfits.later hlater).lookCached hlater.good
  apply proceeds_look (fun _ => rfl)
  intro g₂ hlater₂
  have hitems₂ := hlook hlater₂ hitems
  apply Proceeds.bind
  apply (proceeds_loadPages hlater₂.good (direct_missingPages hitems₂)).mono
  intro _ g₃ hlater₃
  apply proceeds_look (fun _ => rfl)
  intro g₄ hlater₄
  exact proceeds_readRest hlater₄.good (hlook (hlater₃.trans hlater₄) hitems₂)

end Calls

end Crowd

end AsterVec.PagedVectorStorage

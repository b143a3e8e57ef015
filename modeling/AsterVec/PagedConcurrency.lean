import AsterVec.PagedThreads

/-!
What interleaved stores keep.  A thread owns the slot it was granted, so its
steps change no other slot, except the step that starts a zero-filled buffer: it
replaces the whole page.
-/

namespace AsterVec.PagedVectorStorage

open AsterVec.ByteBuffer
open AsterVec.IdTypes

variable {cfg : Config}

/-! Owned slots -/

/-- Pages keep their sections and used slots, and no slot becomes free. -/
structure Layout.Widens (layout layout' : Layout) : Prop where
  pages : ∀ (pageId : Nat) (page : PageMeta), layout.pages[pageId]? = some page →
    ∃ page', layout'.pages[pageId]? = some page' ∧
      page'.sectionIdx = page.sectionIdx ∧ page.usedSlots ≤ page'.usedSlots
  free : ∀ sectionIdx entry, entry ∈ layout'.freeSlots sectionIdx →
    entry ∈ layout.freeSlots sectionIdx

namespace Store

/-- The slot is in use in its section and no call will be handed it. -/
structure Owns (st : Store cfg) (sectionIdx : Int) (page slot : Nat) : Prop where
  inUse : st.layout.InUse sectionIdx page slot
  not_free : ∀ other, (page, slot) ∉ st.layout.freeSlots other

theorem Owns.reserved {st : Store cfg} {sectionIdx : Int} {page slot : Nat}
    (howns : st.Owns sectionIdx page slot) (hoffers : st.Offers) :
    st.Reserved page slot :=
  Layout.InUse.reserved howns.inUse hoffers howns.not_free

theorem Owns.widen {st st' : Store cfg} {sectionIdx : Int} {page slot : Nat}
    (howns : st.Owns sectionIdx page slot) (hwidens : st.layout.Widens st'.layout) :
    st'.Owns sectionIdx page slot := by
  obtain ⟨found, hfound, hsection, hslot⟩ := howns.inUse
  obtain ⟨found', hfound', hsection', hle⟩ := hwidens.pages page found hfound
  exact ⟨⟨found', hfound', hsection'.trans hsection, by omega⟩,
    fun other hmem => howns.not_free other (hwidens.free other _ hmem)⟩

theorem widens_of_lists {st st' : Store cfg}
    (hfree : st'.layout.freeSlots = st.layout.freeSlots)
    (hpages : st'.layout.pages = st.layout.pages) : st.layout.Widens st'.layout := by
  refine ⟨fun pageId page hpage => ⟨page, by rw [hpages]; exact hpage, rfl, Nat.le_refl _⟩,
    fun _ _ hmem => ?_⟩
  rw [hfree] at hmem
  exact hmem

theorem widens_takeSectionSlot (sectionIdx : Int) (st : Store cfg) :
    st.layout.Widens (takeSectionSlot sectionIdx st).2.layout := by
  have hsame : ∀ (pageId : Nat) (page : PageMeta), st.layout.pages[pageId]? = some page →
      ∃ page', st.layout.pages[pageId]? = some page' ∧
        page'.sectionIdx = page.sectionIdx ∧ page.usedSlots ≤ page'.usedSlots :=
    fun _ page hpage => ⟨page, hpage, rfl, Nat.le_refl _⟩
  rcases takeSectionSlot_cases sectionIdx st with
    ⟨_, _, rest, hfree, -, hlayout⟩ | ⟨pageId, _, kept, _, -, -, -, -, -, -, hlayout⟩ |
    ⟨kept, -, -, hlayout⟩
  · rw [hlayout]
    refine ⟨hsame, fun other entry hmem => Layout.mem_setFree ?_ hmem⟩
    change rest ⊆ st.freeSlots sectionIdx
    rw [hfree]
    exact List.subset_cons_self _ _
  · rw [hlayout]
    exact ⟨fun _ _ hpage => Layout.useSlot_page pageId hpage, fun _ _ hmem => hmem⟩
  · rw [hlayout]
    exact ⟨hsame, fun _ _ hmem => hmem⟩

theorem widens_appendPage {sectionIdx : Int} {st st' : Store cfg} {page : Nat}
    (happend : appendPage sectionIdx st = some (page, st')) :
    st.layout.Widens st'.layout := by
  rw [(appendPage_eq_some happend).2]
  exact ⟨fun _ page hpage => ⟨page, Layout.getElem?_addPage hpage, rfl, Nat.le_refl _⟩,
    fun _ _ hmem => hmem⟩

theorem widens_publishOpenPage (sectionIdx : Int) (page : Nat) (st : Store cfg) :
    st.layout.Widens (publishOpenPage sectionIdx page st).layout := by
  rcases layout_publishOpenPage sectionIdx page st with hlayout | hlayout
  · rw [hlayout]
    exact widens_of_lists rfl rfl
  · rw [hlayout]
    exact ⟨fun _ page hpage => ⟨page, hpage, rfl, Nat.le_refl _⟩, fun _ _ hmem => hmem⟩

/-! Buffers -/

theorem writeBuf_of_evictOldest {sectionIdx : Int} {st next : Store cfg}
    (hturn : evictOldest sectionIdx st = some next) {other : Int}
    {swb : SectionWriteBuf} (hbuf : next.writeBuf other = some swb) :
    st.writeBuf other = some swb := by
  obtain ⟨victim, rest, -, hcases⟩ := evictOldest_cases hturn
  rcases hcases with ⟨-, rfl⟩ | ⟨-, -, rfl⟩ | ⟨-, evicted, -, rfl⟩
  · rwa [writeBuf_setBufOrder] at hbuf
  · rwa [writeBuf_setBufOrder] at hbuf
  · rw [evictWriteBuf, writeBuf_eraseWriteBuf] at hbuf
    split at hbuf
    · cases hbuf
    · simpa using hbuf

/-- Opening a buffer for a page puts no other page into a buffer. -/
theorem writeBuf_of_openWriteBuf {sectionIdx : Int} {page : Nat} {st st' : Store cfg}
    (hopen : openWriteBuf sectionIdx page st = some st') {other : Int}
    {swb : SectionWriteBuf} (hbuf : st'.writeBuf other = some swb) :
    swb.pageId = page ∨ st.writeBuf other = some swb := by
  unfold openWriteBuf at hopen
  split at hopen
  · have hcreated : (createWriteBuf sectionIdx page st).writeBuf other = some swb →
        swb.pageId = page ∨ st.writeBuf other = some swb := by
      intro hcreated
      rw [writeBuf_createWriteBuf] at hcreated
      split at hcreated
      · cases hcreated
        exact .inl rfl
      · exact .inr hcreated
    simp only at hopen
    split at hopen
    · exact hcreated (evictOverCap_induct (motive := fun later =>
        later.writeBuf other = some swb →
          (createWriteBuf sectionIdx page st).writeBuf other = some swb)
        (fun _ _ hlater hturn hnext => hlater (writeBuf_of_evictOldest hturn hnext))
        id hopen hbuf)
    · cases hopen
      exact hcreated hbuf
  · split at hopen
    · cases hopen
      exact .inr hbuf
    · cases hopen
      rw [writeBuf_setWriteBuf] at hbuf
      split at hbuf
      · cases hbuf
        exact .inl rfl
      · exact .inr hbuf

theorem writeBuf_of_fillWriteBuf {sectionIdx : Int} {slot : Nat} {record : Record cfg}
    {st : Store cfg} {other : Int} {swb : SectionWriteBuf}
    (hbuf : (fillWriteBuf sectionIdx slot record st).writeBuf other = some swb) :
    ∃ swb', st.writeBuf other = some swb' ∧ swb'.pageId = swb.pageId := by
  unfold fillWriteBuf at hbuf
  split at hbuf
  · exact ⟨swb, hbuf, rfl⟩
  · rename_i held hheld
    have hset : ∀ data : Buffer,
        (setWriteBuf sectionIdx ⟨data, held.pageId⟩ st).writeBuf other = some swb →
        ∃ swb', st.writeBuf other = some swb' ∧ swb'.pageId = swb.pageId := by
      intro data hset
      rw [writeBuf_setWriteBuf] at hset
      split at hset
      · rename_i hsame
        cases hset
        subst hsame
        exact ⟨held, hheld, rfl⟩
      · exact ⟨swb, hset, rfl⟩
    simp only at hbuf
    split at hbuf
    · rw [writeBuf_eraseWriteBuf] at hbuf
      split at hbuf
      · cases hbuf
      · exact hset _ hbuf
    · exact hset _ hbuf

/-- A write through the section buffer of one page leaves another page without a
buffer if it had none. -/
theorem bufferHolding_writeToSectionBufferLocked {st st' : Store cfg}
    (hwf : st.WellFormed) (hwf' : st'.WellFormed) {sectionIdx : Int} {page slot : Nat}
    {record : Record cfg} {taken : Bool}
    (hwrite : writeToSectionBufferLocked sectionIdx page slot record st =
      some (taken, st')) {other : Nat} (hne : other ≠ page)
    (hnone : st.bufferHolding other = none) : st'.bufferHolding other = none := by
  unfold writeToSectionBufferLocked at hwrite
  split at hwrite
  · cases hwrite
    exact hnone
  · obtain ⟨opened, hopen, heq⟩ := Option.map_eq_some_iff.mp hwrite
    cases heq
    rw [bufferHolding_eq_none_iff hwf'.buffers]
    rw [bufferHolding_eq_none_iff hwf.buffers] at hnone
    intro section' swb hbuf hpage
    obtain ⟨swb', hbuf', hsame⟩ := writeBuf_of_fillWriteBuf hbuf
    rcases writeBuf_of_openWriteBuf hopen hbuf' with hnew | hold
    · exact hne (hpage.symm.trans (hsame.symm.trans hnew))
    · exact hnone section' swb' hold (hsame.trans hpage)

/-! Written slots -/

/-- The page holds `record` in `slot`, whatever the page cache says. -/
structure Contains (st : Store cfg) (page slot : Nat) (record : Record cfg) :
    Prop where
  content : recordAt cfg (st.overlaidPage page) slot = record
  backed : st.bufferHolding page = none →
    page * kPageSize + slot * cfg.recordSize + cfg.recordSize ≤ st.file.size

theorem Keeps.contains {page slot : Nat} {record : Record cfg} {st st' : Store cfg}
    (hkeeps : Keeps page st st') (hslot : slot < cfg.vectorsPerPage)
    (hcontains : st.Contains page slot record) : st'.Contains page slot record := by
  have hfits := cfg.slot_fits hslot
  refine ⟨?_, fun hnone => ?_⟩
  · rw [recordAt_congr hslot hkeeps.overlaid]
    exact hcontains.content
  · rcases hkeeps.backed hnone with hold | hsize
    · exact Nat.le_trans (hcontains.backed hold) hkeeps.size_le
    · rw [Nat.add_mul, Nat.one_mul] at hsize
      omega

theorem Fills.contains_other {page slot other : Nat} {record found : Record cfg}
    {st st' : Store cfg} (hfills : Fills page slot record st st')
    (hother : other < cfg.vectorsPerPage) (hne : other ≠ slot)
    (hcontains : st.Contains page other found) : st'.Contains page other found := by
  have hfits := cfg.slot_fits hother
  refine ⟨?_, fun hnone => ?_⟩
  · rw [recordAt_congr hother hfills.overlaid, recordAt_copyInto_other _ _ hne]
    exact hcontains.content
  · rcases hfills.backed_other hnone with hold | hsize
    · exact Nat.le_trans (hcontains.backed hold) hfills.size_le
    · rw [Nat.add_mul, Nat.one_mul] at hsize
      omega

theorem Fills.contains {page slot : Nat} {record : Record cfg} {st st' : Store cfg}
    (hfills : Fills page slot record st st') (hslot : slot < cfg.vectorsPerPage) :
    st'.Contains page slot record := ⟨hfills.content hslot, hfills.backed⟩

/-! What a step of one thread spares -/

/-- A step of the thread of `id`, which owns `own`, leaves alone what the other
threads own; `Started` are the pages whose buffer it starts from zeros. -/
structure Spares (id : Nat) (own : Option (Nat × Nat)) (Started : Nat → Prop)
    (st st' : Store cfg) : Prop where
  sound : st'.Sound
  total_le : st.totalVectors ≤ st'.totalVectors
  location : ∀ other, other ≠ id → st'.location other = st.location other ∧
    st'.hasLocation other = st.hasLocation other
  widens : st.layout.Widens st'.layout
  contains : ∀ page slot record, slot < cfg.vectorsPerPage →
    own ≠ some (page, slot) → ¬Started page →
      st.Contains page slot record → st'.Contains page slot record
  holds : ∀ page slot record, slot < cfg.vectorsPerPage →
    own ≠ some (page, slot) → ¬Started page →
      st.Holds page slot record → st'.Holds page slot record
  unbuffered : ∀ page, ¬Started page → st.bufferHolding page = none →
    st'.bufferHolding page = none

theorem Spares.of_keeps {id : Nat} {own : Option (Nat × Nat)} {Started : Nat → Prop}
    {st st' : Store cfg} (hsound : st'.Sound)
    (htotal : st.totalVectors ≤ st'.totalVectors)
    (hlocation : ∀ other, other ≠ id → st'.location other = st.location other ∧
      st'.hasLocation other = st.hasLocation other)
    (hwidens : st.layout.Widens st'.layout) (hkeeps : ∀ page, Keeps page st st')
    (hheld : ∀ page, st'.bufferHolding page = st.bufferHolding page) :
    Spares id own Started st st' :=
  ⟨hsound, htotal, hlocation, hwidens,
    fun page _ _ hslot _ _ hcontains => (hkeeps page).contains hslot hcontains,
    fun page _ _ hslot _ _ hholds => (hkeeps page).holds hslot hholds,
    fun page _ hnone => (hheld page).trans hnone⟩

/-- A step that moves no record. -/
theorem Spares.of_quiet {id : Nat} {own : Option (Nat × Nat)} {Started : Nat → Prop}
    {st st' : Store cfg} (hsound : st.Sound) (hquiet : Quiet st st')
    (hoffers : st'.Offers) (hfit : st'.LocationsFit)
    (htotal : st.totalVectors ≤ st'.totalVectors)
    (hlocation : ∀ other, other ≠ id →
      st'.pageOf other = st.pageOf other ∧ st'.slotOf other = st.slotOf other)
    (hwidens : st.layout.Widens st'.layout) : Spares id own Started st st' :=
  Spares.of_keeps ⟨hquiet.wellFormed hsound.wellFormed, hoffers, hfit⟩ htotal
    (fun other hne => location_of_tables (hlocation other hne).1 (hlocation other hne).2)
    hwidens (hquiet.keeps hsound.wellFormed) (hquiet.bufferHolding hsound.wellFormed)

/-- A step of the allocator. -/
theorem Spares.of_allocator {id : Nat} {own : Option (Nat × Nat)}
    {Started : Nat → Prop} {st st' : Store cfg} (hsound : st.Sound)
    (hquiet : Quiet st st') (hoffers : st'.Offers) (htables : SameTables st st')
    (hwidens : st.layout.Widens st'.layout) : Spares id own Started st st' :=
  Spares.of_quiet hsound hquiet hoffers (htables.fit hsound.fit)
    (Nat.le_of_eq htables.total.symm)
    (fun other _ => ⟨htables.pageOf other, htables.slotOf other⟩) hwidens

theorem Sound.of_layout {st st' : Store cfg} (hsound : st.Sound)
    (hwf : st'.WellFormed) (hlayout : st'.layout = st.layout) : st'.Sound :=
  ⟨hwf, (offers_congr hlayout).mpr hsound.offers,
    (sameTables_of_layout_eq hlayout).fit hsound.fit⟩

/-- A step that keeps the layout and writes to the owned slot. -/
theorem Spares.of_layout {id page slot : Nat} {Started : Nat → Prop}
    {st st' : Store cfg} (hsound : st.Sound) (hwf : st'.WellFormed)
    (hlayout : st'.layout = st.layout)
    (hcontains : ∀ other otherSlot record, otherSlot < cfg.vectorsPerPage →
      (other = page → otherSlot ≠ slot) → ¬Started other →
        st.Contains other otherSlot record → st'.Contains other otherSlot record)
    (hholds : ∀ other otherSlot record, otherSlot < cfg.vectorsPerPage →
      (other = page → otherSlot ≠ slot) → ¬Started other →
        st.Holds other otherSlot record → st'.Holds other otherSlot record)
    (hunbuffered : ∀ other, ¬Started other → st.bufferHolding other = none →
      st'.bufferHolding other = none) :
    Spares id (some (page, slot)) Started st st' := by
  have htables := sameTables_of_layout_eq hlayout
  have hne : ∀ {other otherSlot : Nat}, some (page, slot) ≠ some (other, otherSlot) →
      other = page → otherSlot ≠ slot := by
    rintro other otherSlot hown rfl rfl
    exact hown rfl
  exact ⟨hsound.of_layout hwf hlayout, Nat.le_of_eq htables.total.symm,
    fun other _ => htables.location other,
    widens_of_lists (by rw [hlayout]) (by rw [hlayout]),
    fun other otherSlot record hslot hown =>
      hcontains other otherSlot record hslot (hne hown),
    fun other otherSlot record hslot hown =>
      hholds other otherSlot record hslot (hne hown), hunbuffered⟩

end Store

end AsterVec.PagedVectorStorage

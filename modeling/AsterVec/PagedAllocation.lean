import AsterVec.PagedLayout

/-!
The slot allocator.  A slot is reserved once no call can be handed it again;
every step of the allocator keeps the slots on offer inside the page table,
keeps every reserved slot reserved, and reserves the slot it hands out.
-/

namespace AsterVec.PagedVectorStorage

open AsterVec.ByteBuffer
open AsterVec.IdTypes

variable {cfg : Config}

namespace Layout

def setOpen (layout : Layout) (sectionIdx : Int) (pages : List Nat) : Layout :=
  { layout with openPages := Function.update layout.openPages sectionIdx pages }

def setFree (layout : Layout) (sectionIdx : Int) (slots : List (Nat × Nat)) :
    Layout :=
  { layout with freeSlots := Function.update layout.freeSlots sectionIdx slots }

/-- One more used slot on a page. -/
def useSlot (layout : Layout) (pageId : Nat) : Layout :=
  { layout with pages := layout.pages.modify pageId fun page =>
      { page with usedSlots := page.usedSlots + 1 } }

def addPage (layout : Layout) (page : PageMeta) : Layout :=
  { layout with pages := layout.pages ++ [page] }

/-- The slots on offer are slots of pages of their section: free slots below
the used count, each offered once, and open pages. -/
structure Offers (cfg : Config) (layout : Layout) : Prop where
  used_le : ∀ page ∈ layout.pages, page.usedSlots ≤ cfg.vectorsPerPage
  open_page : ∀ sectionIdx, ∀ pageId ∈ layout.openPages sectionIdx,
    ∃ page, layout.pages[pageId]? = some page ∧ page.sectionIdx = sectionIdx
  free_slot : ∀ sectionIdx, ∀ entry ∈ layout.freeSlots sectionIdx,
    ∃ page, layout.pages[entry.1]? = some page ∧ page.sectionIdx = sectionIdx ∧
      entry.2 < page.usedSlots
  free_nodup : ∀ sectionIdx, (layout.freeSlots sectionIdx).Nodup

/-- No call will be handed `slot` of `pageId`: it is not free, and it lies below
the used count unless its page is not filled any more. -/
structure Reserved (cfg : Config) (layout : Layout) (pageId slot : Nat) :
    Prop where
  slot_lt : slot < cfg.vectorsPerPage
  not_free : ∀ sectionIdx, (pageId, slot) ∉ layout.freeSlots sectionIdx
  used_or_closed : ∃ page, layout.pages[pageId]? = some page ∧
    (slot < page.usedSlots ∨ ∀ sectionIdx, pageId ∉ layout.openPages sectionIdx)

theorem Reserved.pageId_lt {layout : Layout} {pageId slot : Nat}
    (hreserved : layout.Reserved cfg pageId slot) :
    pageId < layout.pages.length := by
  obtain ⟨page, hpage, -⟩ := hreserved.used_or_closed
  exact (List.getElem?_eq_some_iff.mp hpage).1

/-- `slot` is a used slot of a page of the section. -/
def InUse (layout : Layout) (sectionIdx : Int) (pageId slot : Nat) : Prop :=
  ∃ page, layout.pages[pageId]? = some page ∧ page.sectionIdx = sectionIdx ∧
    slot < page.usedSlots

/-- A used slot that is not free is reserved. -/
theorem InUse.reserved {layout : Layout} {sectionIdx : Int} {pageId slot : Nat}
    (hused : layout.InUse sectionIdx pageId slot) (hoffers : layout.Offers cfg)
    (hfree : ∀ other, (pageId, slot) ∉ layout.freeSlots other) :
    layout.Reserved cfg pageId slot := by
  obtain ⟨page, hpage, -, hslot⟩ := hused
  have hle := hoffers.used_le page (List.mem_of_getElem? hpage)
  exact ⟨by omega, hfree, page, hpage, .inl hslot⟩

/-! Changes of the open pages -/

theorem openPages_setOpen (layout : Layout) (sectionIdx other : Int)
    (pages : List Nat) :
    (layout.setOpen sectionIdx pages).openPages other =
      if other = sectionIdx then pages else layout.openPages other :=
  Function.update_apply _ _ _ _

theorem mem_setOpen {layout : Layout} {sectionIdx other : Int}
    {pages : List Nat} {pageId : Nat}
    (hmem : pageId ∈ (layout.setOpen sectionIdx pages).openPages other) :
    (other = sectionIdx ∧ pageId ∈ pages) ∨ pageId ∈ layout.openPages other := by
  rw [openPages_setOpen] at hmem
  split at hmem
  · rename_i hsame
    exact .inl ⟨hsame, hmem⟩
  · exact .inr hmem

theorem Offers.setOpen {layout : Layout} {sectionIdx : Int} {pages : List Nat}
    (hoffers : layout.Offers cfg)
    (hpages : ∀ pageId ∈ pages, ∃ page,
      layout.pages[pageId]? = some page ∧ page.sectionIdx = sectionIdx) :
    (layout.setOpen sectionIdx pages).Offers cfg := by
  refine ⟨hoffers.used_le, ?_, hoffers.free_slot, hoffers.free_nodup⟩
  intro other pageId hmem
  rcases mem_setOpen hmem with ⟨rfl, hnew⟩ | hold
  · exact hpages pageId hnew
  · exact hoffers.open_page other pageId hold

theorem Offers.keepOpen {layout : Layout} {sectionIdx : Int} {pages : List Nat}
    (hoffers : layout.Offers cfg) (hkept : pages ⊆ layout.openPages sectionIdx) :
    (layout.setOpen sectionIdx pages).Offers cfg :=
  hoffers.setOpen fun pageId hmem =>
    hoffers.open_page sectionIdx pageId (hkept hmem)

theorem Reserved.setOpen {layout : Layout} {sectionIdx : Int}
    {pages : List Nat} {pageId slot : Nat}
    (hreserved : layout.Reserved cfg pageId slot)
    (hpages : pageId ∈ pages → pageId ∈ layout.openPages sectionIdx ∨
      ∃ page, layout.pages[pageId]? = some page ∧ slot < page.usedSlots) :
    (layout.setOpen sectionIdx pages).Reserved cfg pageId slot := by
  refine ⟨hreserved.slot_lt, hreserved.not_free, ?_⟩
  obtain ⟨page, hpage, hused | hclosed⟩ := hreserved.used_or_closed
  · exact ⟨page, hpage, .inl hused⟩
  · by_cases hmem : pageId ∈ pages
    · rcases hpages hmem with hopen | ⟨page', hpage', hused⟩
      · exact absurd hopen (hclosed sectionIdx)
      · exact ⟨page', hpage', .inl hused⟩
    · refine ⟨page, hpage, .inr fun other hother => ?_⟩
      rcases mem_setOpen hother with ⟨-, hnew⟩ | hold
      · exact hmem hnew
      · exact hclosed other hold

/-! Changes of the free slots -/

theorem freeSlots_setFree (layout : Layout) (sectionIdx other : Int)
    (slots : List (Nat × Nat)) :
    (layout.setFree sectionIdx slots).freeSlots other =
      if other = sectionIdx then slots else layout.freeSlots other :=
  Function.update_apply _ _ _ _

theorem mem_setFree {layout : Layout} {sectionIdx other : Int}
    {slots : List (Nat × Nat)} {entry : Nat × Nat}
    (hkept : slots ⊆ layout.freeSlots sectionIdx)
    (hmem : entry ∈ (layout.setFree sectionIdx slots).freeSlots other) :
    entry ∈ layout.freeSlots other := by
  rw [freeSlots_setFree] at hmem
  split at hmem
  · rename_i hsame
    subst hsame
    exact hkept hmem
  · exact hmem

theorem Offers.setFree {layout : Layout} {sectionIdx : Int}
    {slots : List (Nat × Nat)} (hoffers : layout.Offers cfg)
    (hkept : slots ⊆ layout.freeSlots sectionIdx) (hnodup : slots.Nodup) :
    (layout.setFree sectionIdx slots).Offers cfg := by
  refine ⟨hoffers.used_le, hoffers.open_page, ?_, ?_⟩
  · intro other entry hmem
    exact hoffers.free_slot other entry (mem_setFree hkept hmem)
  · intro other
    rw [freeSlots_setFree]
    split
    · exact hnodup
    · exact hoffers.free_nodup other

theorem Reserved.setFree {layout : Layout} {sectionIdx : Int}
    {slots : List (Nat × Nat)} {pageId slot : Nat}
    (hreserved : layout.Reserved cfg pageId slot)
    (hkept : slots ⊆ layout.freeSlots sectionIdx) :
    (layout.setFree sectionIdx slots).Reserved cfg pageId slot :=
  ⟨hreserved.slot_lt,
    fun other hmem => hreserved.not_free other (mem_setFree hkept hmem),
    hreserved.used_or_closed⟩

/-! Changes of the page table -/

theorem getElem?_useSlot (layout : Layout) (pageId other : Nat) :
    (layout.useSlot pageId).pages[other]? =
      (layout.pages[other]?).map fun page => if pageId = other then
        { page with usedSlots := page.usedSlots + 1 } else page := by
  rw [useSlot, List.getElem?_modify]
  split <;> simp

/-- A page keeps its section, and a used slot stays used. -/
theorem useSlot_page {layout : Layout} (pageId : Nat) {other : Nat} {page : PageMeta}
    (hpage : layout.pages[other]? = some page) :
    ∃ page', (layout.useSlot pageId).pages[other]? = some page' ∧
      page'.sectionIdx = page.sectionIdx ∧ page.usedSlots ≤ page'.usedSlots := by
  rw [getElem?_useSlot, hpage]
  refine ⟨_, rfl, ?_⟩
  split
  · exact ⟨rfl, Nat.le_succ _⟩
  · exact ⟨rfl, Nat.le_refl _⟩

theorem Offers.useSlot {layout : Layout} {pageId : Nat}
    (hoffers : layout.Offers cfg)
    (hused : ∀ page, layout.pages[pageId]? = some page →
      page.usedSlots < cfg.vectorsPerPage) :
    (layout.useSlot pageId).Offers cfg := by
  refine ⟨?_, ?_, ?_, hoffers.free_nodup⟩
  · intro page hmem
    obtain ⟨i, hi⟩ := List.mem_iff_getElem?.mp hmem
    rw [getElem?_useSlot] at hi
    obtain ⟨old, hold, heq⟩ := Option.map_eq_some_iff.mp hi
    split at heq
    · rename_i hsame
      subst hsame heq
      exact hused old hold
    · subst heq
      exact hoffers.used_le old (List.mem_of_getElem? hold)
  · intro other openPage hmem
    obtain ⟨page, hpage, hsection⟩ := hoffers.open_page other openPage hmem
    obtain ⟨page', hpage', hsection', -⟩ := useSlot_page pageId hpage
    exact ⟨page', hpage', hsection'.trans hsection⟩
  · intro other entry hmem
    obtain ⟨page, hpage, hsection, hslot⟩ := hoffers.free_slot other entry hmem
    obtain ⟨page', hpage', hsection', hused'⟩ := useSlot_page pageId hpage
    exact ⟨page', hpage', hsection'.trans hsection, by omega⟩

theorem Reserved.useSlot {layout : Layout} {pageId other slot : Nat}
    (hreserved : layout.Reserved cfg other slot) :
    (layout.useSlot pageId).Reserved cfg other slot := by
  refine ⟨hreserved.slot_lt, hreserved.not_free, ?_⟩
  obtain ⟨page, hpage, hused⟩ := hreserved.used_or_closed
  obtain ⟨page', hpage', -, hle⟩ := useSlot_page pageId hpage
  exact ⟨page', hpage', hused.imp_left fun hlt => by omega⟩

theorem getElem?_addPage {layout : Layout} {pageId : Nat} {page new : PageMeta}
    (hpage : layout.pages[pageId]? = some page) :
    (layout.addPage new).pages[pageId]? = some page := by
  rw [addPage, List.getElem?_append_left (List.getElem?_eq_some_iff.mp hpage).1]
  exact hpage

theorem Offers.addPage {layout : Layout} {new : PageMeta}
    (hoffers : layout.Offers cfg) (hused : new.usedSlots ≤ cfg.vectorsPerPage) :
    (layout.addPage new).Offers cfg := by
  refine ⟨?_, ?_, ?_, hoffers.free_nodup⟩
  · intro page hmem
    rcases List.mem_append.mp hmem with hmem | hmem
    · exact hoffers.used_le page hmem
    · rw [List.mem_singleton.mp hmem]
      exact hused
  · intro other openPage hmem
    obtain ⟨page, hpage, hsection⟩ := hoffers.open_page other openPage hmem
    exact ⟨page, getElem?_addPage hpage, hsection⟩
  · intro other entry hmem
    obtain ⟨page, hpage, hsection⟩ := hoffers.free_slot other entry hmem
    exact ⟨page, getElem?_addPage hpage, hsection⟩

theorem Reserved.addPage {layout : Layout} {new : PageMeta} {pageId slot : Nat}
    (hreserved : layout.Reserved cfg pageId slot) :
    (layout.addPage new).Reserved cfg pageId slot := by
  refine ⟨hreserved.slot_lt, hreserved.not_free, ?_⟩
  obtain ⟨page, hpage, hused⟩ := hreserved.used_or_closed
  exact ⟨page, getElem?_addPage hpage, hused⟩

end Layout

namespace Store

def Offers (st : Store cfg) : Prop := st.layout.Offers cfg

def Reserved (st : Store cfg) (pageId slot : Nat) : Prop :=
  st.layout.Reserved cfg pageId slot

theorem offers_congr {st st' : Store cfg} (hlayout : st'.layout = st.layout) :
    st'.Offers ↔ st.Offers := by
  simp only [Offers, hlayout]

theorem reserved_congr {st st' : Store cfg} (hlayout : st'.layout = st.layout)
    (pageId slot : Nat) : st'.Reserved pageId slot ↔ st.Reserved pageId slot := by
  simp only [Reserved, hlayout]

theorem layout_setOpenPages (sectionIdx : Int) (pages : List Nat)
    (st : Store cfg) :
    (setOpenPages sectionIdx pages st).layout = st.layout.setOpen sectionIdx pages := by
  have hopen : (setOpenPages sectionIdx pages st).openPages =
      Function.update st.openPages sectionIdx pages := by
    funext other
    simp only [openPages, setOpenPages, sectionShardState, setShard_sectionShards]
    by_cases hsame : other = sectionIdx
    · subst other
      simp
    · rw [Function.update_of_ne hsame]
      split
      · rename_i hshard
        simp only [Function.update_of_ne hsame, openPages, sectionShardState, hshard]
      · rfl
  have hfree : (setOpenPages sectionIdx pages st).freeSlots = st.freeSlots := by
    funext other
    simp only [freeSlots, setOpenPages, sectionShardState, setShard_sectionShards]
    split
    · rename_i hshard
      rw [hshard]
    · rfl
  exact congrArg₂ (fun openPages freeSlots => ({ st.layout with
    openPages := openPages, freeSlots := freeSlots } : Layout)) hopen hfree

theorem layout_setFreeSlots (sectionIdx : Int) (slots : List (Nat × Nat))
    (st : Store cfg) :
    (setFreeSlots sectionIdx slots st).layout = st.layout.setFree sectionIdx slots := by
  have hopen : (setFreeSlots sectionIdx slots st).openPages = st.openPages := by
    funext other
    simp only [openPages, setFreeSlots, sectionShardState, setShard_sectionShards]
    split
    · rename_i hshard
      rw [hshard]
    · rfl
  have hfree : (setFreeSlots sectionIdx slots st).freeSlots =
      Function.update st.freeSlots sectionIdx slots := by
    funext other
    simp only [freeSlots, setFreeSlots, sectionShardState, setShard_sectionShards]
    by_cases hsame : other = sectionIdx
    · subst other
      simp
    · rw [Function.update_of_ne hsame]
      split
      · rename_i hshard
        simp only [Function.update_of_ne hsame, freeSlots, sectionShardState, hshard]
      · rfl
  exact congrArg₂ (fun openPages freeSlots => ({ st.layout with
    openPages := openPages, freeSlots := freeSlots } : Layout)) hopen hfree

/-! Phase A -/

/-- Everything phase A can do: pop a free slot, take the next slot of the open
page on top, or come back empty-handed with at most one full page dropped. -/
theorem takeSectionSlot_cases (sectionIdx : Int) (st : Store cfg) :
    (∃ pageId slot rest,
      st.freeSlots sectionIdx = (pageId, slot) :: rest ∧
      (takeSectionSlot sectionIdx st).1 = some (pageId, slot) ∧
      (takeSectionSlot sectionIdx st).2.layout =
        st.layout.setFree sectionIdx rest) ∨
    (∃ pageId rest kept used,
      st.freeSlots sectionIdx = [] ∧
      st.openPages sectionIdx = pageId :: rest ∧
      (st.pages[pageId]?).elim 0 PageMeta.usedSlots = used ∧
      used < cfg.vectorsPerPage ∧ kept ⊆ pageId :: rest ∧
      (takeSectionSlot sectionIdx st).1 = some (pageId, used) ∧
      (takeSectionSlot sectionIdx st).2.layout =
        (st.layout.setOpen sectionIdx kept).useSlot pageId) ∨
    (∃ kept,
      kept ⊆ st.openPages sectionIdx ∧
      (takeSectionSlot sectionIdx st).1 = none ∧
      (takeSectionSlot sectionIdx st).2.layout =
        st.layout.setOpen sectionIdx kept) := by
  unfold takeSectionSlot
  cases hfree : st.freeSlots sectionIdx with
  | cons entry rest =>
      exact .inl ⟨entry.1, entry.2, rest, rfl, rfl, layout_setFreeSlots _ _ _⟩
  | nil =>
      cases hopen : st.openPages sectionIdx with
      | nil =>
          have hsame : Function.update st.openPages sectionIdx [] = st.openPages := by
            rw [← hopen, Function.update_eq_self]
          refine .inr (.inr ⟨[], by simp, rfl, ?_⟩)
          change st.layout = { st.layout with
            openPages := Function.update st.openPages sectionIdx [] }
          rw [hsame]
          rfl
      | cons pageId rest =>
          by_cases hused :
              (st.pages[pageId]?).elim 0 PageMeta.usedSlots < cfg.vectorsPerPage
          · refine .inr (.inl ⟨pageId, rest,
              if (st.pages[pageId]?).elim 0 PageMeta.usedSlots + 1 <
                cfg.vectorsPerPage then pageId :: rest else rest,
              _, rfl, rfl, rfl, hused, ?_, ?_, ?_⟩)
            · split
              · exact List.Subset.refl _
              · exact List.subset_cons_self _ _
            · simp only [hused, if_true]
            · simp only [hused, if_true]
              exact congrArg (fun layout : Layout => layout.useSlot pageId)
                (layout_setOpenPages _ _ _)
          · refine .inr (.inr ⟨rest, List.subset_cons_self _ _, ?_, ?_⟩)
            · simp only [hused, if_false]
            · simp only [hused, if_false]
              exact layout_setOpenPages _ _ _

/-- Phase A finds the open page it takes a slot from in the page table. -/
theorem openPage_used {st : Store cfg} (hoffers : st.Offers) {sectionIdx : Int}
    {pageId used : Nat} {rest : List Nat}
    (hopen : st.openPages sectionIdx = pageId :: rest)
    (hused : (st.pages[pageId]?).elim 0 PageMeta.usedSlots = used) :
    st.layout.pages[pageId]? = some ⟨sectionIdx, used⟩ := by
  obtain ⟨page, hpage, hsection⟩ := hoffers.open_page sectionIdx pageId
    (by change pageId ∈ st.openPages sectionIdx; rw [hopen]; exact List.mem_cons_self)
  change st.pages[pageId]? = some page at hpage
  rw [hpage] at hused
  subst hused hsection
  exact hpage

theorem offers_takeSectionSlot (sectionIdx : Int) {st : Store cfg}
    (hoffers : st.Offers) : (takeSectionSlot sectionIdx st).2.Offers := by
  unfold Offers
  rcases takeSectionSlot_cases sectionIdx st with
    ⟨pageId, slot, rest, hfree, -, hlayout⟩ |
    ⟨pageId, rest, kept, used, hfree, hopen, hpage, hused, hkept, -, hlayout⟩ |
    ⟨kept, hkept, -, hlayout⟩
  · rw [hlayout]
    have hnodup := hoffers.free_nodup sectionIdx
    change (st.freeSlots sectionIdx).Nodup at hnodup
    rw [hfree] at hnodup
    refine hoffers.setFree ?_ (List.nodup_cons.mp hnodup).2
    change rest ⊆ st.freeSlots sectionIdx
    rw [hfree]
    exact List.subset_cons_self _ _
  · rw [hlayout]
    refine (hoffers.keepOpen ?_).useSlot ?_
    · change kept ⊆ st.openPages sectionIdx
      rw [hopen]
      exact hkept
    · intro page hpage'
      have heq := (openPage_used hoffers hopen hpage).symm.trans hpage'
      cases heq
      exact hused
  · rw [hlayout]
    exact hoffers.keepOpen hkept

theorem reserved_takeSectionSlot (sectionIdx : Int) {st : Store cfg}
    {pageId slot : Nat} (hreserved : st.Reserved pageId slot) :
    (takeSectionSlot sectionIdx st).2.Reserved pageId slot := by
  unfold Reserved
  rcases takeSectionSlot_cases sectionIdx st with
    ⟨page, freeSlot, rest, hfree, -, hlayout⟩ |
    ⟨page, rest, kept, used, hfree, hopen, -, -, hkept, -, hlayout⟩ |
    ⟨kept, hkept, -, hlayout⟩
  · rw [hlayout]
    refine hreserved.setFree ?_
    change rest ⊆ st.freeSlots sectionIdx
    rw [hfree]
    exact List.subset_cons_self _ _
  · rw [hlayout]
    refine (hreserved.setOpen fun hmem => .inl ?_).useSlot
    change pageId ∈ st.openPages sectionIdx
    rw [hopen]
    exact hkept hmem
  · rw [hlayout]
    exact hreserved.setOpen fun hmem => .inl (hkept hmem)

/-- The slot phase A hands out was not reserved before, and is a reserved slot
in use of the section after it. -/
theorem takeSectionSlot_grants {sectionIdx : Int} {st : Store cfg}
    (hoffers : st.Offers) {pageId slot : Nat}
    (htake : (takeSectionSlot sectionIdx st).1 = some (pageId, slot)) :
    ¬st.Reserved pageId slot ∧
      (takeSectionSlot sectionIdx st).2.layout.InUse sectionIdx pageId slot ∧
      (takeSectionSlot sectionIdx st).2.Reserved pageId slot := by
  have hoffers' := offers_takeSectionSlot sectionIdx hoffers
  unfold Offers at hoffers'
  unfold Reserved
  rcases takeSectionSlot_cases sectionIdx st with
    ⟨page, freeSlot, rest, hfree, hsome, hlayout⟩ |
    ⟨page, rest, kept, used, hfree, hopen, hpage, hused, hkept, hsome, hlayout⟩ |
    ⟨kept, hkept, hnone, hlayout⟩
  · rw [hlayout] at hoffers' ⊢
    cases hsome.symm.trans htake
    have hmem : (pageId, slot) ∈ st.layout.freeSlots sectionIdx := by
      change _ ∈ st.freeSlots sectionIdx
      rw [hfree]
      exact List.mem_cons_self
    have hinUse : st.layout.InUse sectionIdx pageId slot :=
      hoffers.free_slot sectionIdx _ hmem
    refine ⟨fun hreserved => hreserved.not_free _ hmem, hinUse,
      Layout.InUse.reserved hinUse hoffers' fun other hother => ?_⟩
    rw [Layout.freeSlots_setFree] at hother
    split at hother
    · have hnodup := hoffers.free_nodup sectionIdx
      change (st.freeSlots sectionIdx).Nodup at hnodup
      rw [hfree] at hnodup
      exact (List.nodup_cons.mp hnodup).1 hother
    · rename_i hne
      obtain ⟨pageMeta, hpage, hsection, -⟩ := hinUse
      obtain ⟨pageMeta', hpage', hsection', -⟩ := hoffers.free_slot other _ hother
      cases hpage.symm.trans hpage'
      exact hne (hsection'.symm.trans hsection)
  · rw [hlayout] at hoffers' ⊢
    cases hsome.symm.trans htake
    have hpage' := openPage_used hoffers hopen hpage
    have hinUse : ((st.layout.setOpen sectionIdx kept).useSlot pageId).InUse
        sectionIdx pageId slot := by
      refine ⟨⟨sectionIdx, slot + 1⟩, ?_, rfl, Nat.lt_succ_self _⟩
      rw [Layout.getElem?_useSlot]
      change (st.layout.pages[pageId]?).map _ = _
      rw [hpage']
      simp
    have hnotFree : ∀ other, (pageId, slot) ∉ st.layout.freeSlots other := by
      intro other hmem
      obtain ⟨pageMeta, hpageMeta, -, hslot⟩ := hoffers.free_slot other _ hmem
      cases hpage'.symm.trans hpageMeta
      exact Nat.lt_irrefl _ hslot
    refine ⟨fun hreserved => ?_, hinUse,
      Layout.InUse.reserved hinUse hoffers' hnotFree⟩
    obtain ⟨pageMeta, hpageMeta, hslot | hclosed⟩ := hreserved.used_or_closed
    · cases hpage'.symm.trans hpageMeta
      exact Nat.lt_irrefl _ hslot
    · refine hclosed sectionIdx ?_
      change pageId ∈ st.openPages sectionIdx
      rw [hopen]
      exact List.mem_cons_self
  · rw [hnone] at htake
    cases htake

/-! Phase B -/

theorem appendPage_eq_some {sectionIdx : Int} {st st' : Store cfg} {pageId : Nat}
    (happend : appendPage sectionIdx st = some (pageId, st')) :
    pageId = st.pages.length ∧ st'.layout = st.layout.addPage ⟨sectionIdx, 1⟩ := by
  unfold appendPage at happend
  simp only at happend
  split at happend
  · cases happend
  · cases happend
    exact ⟨rfl, rfl⟩

theorem appendPage_grants {sectionIdx : Int} {st st' : Store cfg} {pageId : Nat}
    (hoffers : st.Offers)
    (happend : appendPage sectionIdx st = some (pageId, st')) :
    st'.Offers ∧ ¬st.Reserved pageId 0 ∧ st'.layout.InUse sectionIdx pageId 0 ∧
      st'.Reserved pageId 0 := by
  obtain ⟨rfl, hlayout⟩ := appendPage_eq_some happend
  have hoffers' : st'.Offers := by
    unfold Offers
    rw [hlayout]
    exact Layout.Offers.addPage hoffers cfg.vectorsPerPage_pos
  have hinUse : st'.layout.InUse sectionIdx st.pages.length 0 := by
    rw [hlayout]
    refine ⟨⟨sectionIdx, 1⟩, ?_, rfl, Nat.one_pos⟩
    change (st.pages ++ [_])[st.pages.length]? = _
    simp
  refine ⟨hoffers', ?_, hinUse, Layout.InUse.reserved hinUse hoffers' ?_⟩
  · intro hreserved
    exact Nat.lt_irrefl _ hreserved.pageId_lt
  · intro other hmem
    rw [hlayout] at hmem
    obtain ⟨page, hpage, -⟩ := hoffers.free_slot other _ hmem
    exact Nat.lt_irrefl _ (List.getElem?_eq_some_iff.mp hpage).1

theorem reserved_appendPage {sectionIdx : Int} {st st' : Store cfg}
    {newPage pageId slot : Nat}
    (happend : appendPage sectionIdx st = some (newPage, st'))
    (hreserved : st.Reserved pageId slot) : st'.Reserved pageId slot := by
  unfold Reserved
  rw [(appendPage_eq_some happend).2]
  exact Layout.Reserved.addPage hreserved

theorem layout_publishOpenPage (sectionIdx : Int) (pageId : Nat) (st : Store cfg) :
    (publishOpenPage sectionIdx pageId st).layout = st.layout ∨
      (publishOpenPage sectionIdx pageId st).layout =
        st.layout.setOpen sectionIdx (pageId :: st.openPages sectionIdx) := by
  unfold publishOpenPage
  split
  · exact .inr (layout_setOpenPages _ _ _)
  · exact .inl rfl

theorem offers_publishOpenPage {sectionIdx : Int} {pageId slot : Nat}
    {st : Store cfg} (hoffers : st.Offers)
    (hinUse : st.layout.InUse sectionIdx pageId slot) :
    (publishOpenPage sectionIdx pageId st).Offers := by
  unfold Offers
  rcases layout_publishOpenPage sectionIdx pageId st with hlayout | hlayout
  · rw [hlayout]
    exact hoffers
  · rw [hlayout]
    refine Layout.Offers.setOpen hoffers fun other hmem => ?_
    rcases List.mem_cons.mp hmem with rfl | hmem
    · obtain ⟨page, hpage, hsection, -⟩ := hinUse
      exact ⟨page, hpage, hsection⟩
    · exact hoffers.open_page sectionIdx other hmem

/-- Offering a page puts only its unused slots on offer. -/
theorem reserved_publishOpenPage {sectionIdx : Int}
    {newPage pageId slot : Nat} {st : Store cfg}
    (hreserved : st.Reserved pageId slot)
    (hother : pageId = newPage → ∃ other, st.layout.InUse other pageId slot) :
    (publishOpenPage sectionIdx newPage st).Reserved pageId slot := by
  unfold Reserved
  rcases layout_publishOpenPage sectionIdx newPage st with hlayout | hlayout
  · rw [hlayout]
    exact hreserved
  · rw [hlayout]
    refine Layout.Reserved.setOpen hreserved fun hmem => ?_
    rcases List.mem_cons.mp hmem with heq | hmem
    · obtain ⟨-, page, hpage, -, hslot⟩ := hother heq
      exact .inr ⟨page, hpage, hslot⟩
    · exact .inl hmem

/-! The whole allocator -/

/-- What a call of the allocator does to the slots: it hands out one that was
not reserved and keeps the reserved ones. -/
structure Grants (st st' : Store cfg) (sectionIdx : Int) (pageId slot : Nat) :
    Prop where
  offers : st'.Offers
  keeps : ∀ other otherSlot, st.Reserved other otherSlot →
    st'.Reserved other otherSlot
  not_reserved : ¬st.Reserved pageId slot
  inUse : st'.layout.InUse sectionIdx pageId slot
  reserved : st'.Reserved pageId slot

theorem lookupSection_layout {sectionKey : Nat} {st st' : Store cfg}
    {sectionIdx : Int}
    (hlookup : lookupSection sectionKey st = some (sectionIdx, st')) :
    st'.layout = { st.layout with
      sectionKeyToIdx := st'.sectionKeyToIdx
      sectionIdxToKey := st'.sectionIdxToKey } := by
  unfold lookupSection at hlookup
  split at hlookup
  · cases hlookup
    rfl
  · split at hlookup <;> cases hlookup
    rfl

theorem lookupSection_offers {sectionKey : Nat} {st st' : Store cfg}
    {sectionIdx : Int}
    (hlookup : lookupSection sectionKey st = some (sectionIdx, st')) :
    (st'.Offers ↔ st.Offers) ∧
      ∀ pageId slot, st'.Reserved pageId slot ↔ st.Reserved pageId slot := by
  have hlayout := lookupSection_layout hlookup
  unfold Offers Reserved
  rw [hlayout]
  exact ⟨⟨fun h => ⟨h.used_le, h.open_page, h.free_slot, h.free_nodup⟩,
      fun h => ⟨h.used_le, h.open_page, h.free_slot, h.free_nodup⟩⟩,
    fun _ _ => ⟨fun h => ⟨h.slot_lt, h.not_free, h.used_or_closed⟩,
      fun h => ⟨h.slot_lt, h.not_free, h.used_or_closed⟩⟩⟩

theorem allocateSlotForSection_grants {sectionKey : Nat} {st st' : Store cfg}
    {sectionIdx : Int} {pageId slot : Nat} (hoffers : st.Offers)
    (halloc : allocateSlotForSection sectionKey st =
      (some (sectionIdx, pageId, slot), st')) :
    Grants st st' sectionIdx pageId slot := by
  unfold allocateSlotForSection at halloc
  split at halloc
  · cases halloc
  · rename_i idx found hlookup
    obtain ⟨hoffersIff, hreservedIff⟩ := lookupSection_offers hlookup
    have hfound := hoffersIff.mpr hoffers
    cases htake : takeSectionSlot idx found with
    | mk taken next =>
        have hnextOffers := offers_takeSectionSlot idx hfound
        have hnextReserved : ∀ other otherSlot, st.Reserved other otherSlot →
            next.Reserved other otherSlot := by
          intro other otherSlot hold
          have hkept := reserved_takeSectionSlot idx
            ((hreservedIff other otherSlot).mpr hold)
          rwa [htake] at hkept
        rw [htake] at halloc hnextOffers
        cases taken with
        | some entry =>
            cases halloc
            have hgrant := takeSectionSlot_grants hfound
              (congrArg Prod.fst htake)
            rw [htake] at hgrant
            exact ⟨hnextOffers, hnextReserved,
              fun hold => hgrant.1 ((hreservedIff _ _).mpr hold),
              hgrant.2.1, hgrant.2.2⟩
        | none =>
            simp only at halloc
            split at halloc
            · cases halloc
            · rename_i newPage appended happend
              cases halloc
              obtain ⟨happended, hnot, hinUse, hreserved⟩ :=
                appendPage_grants hnextOffers happend
              have hinUse' : (publishOpenPage sectionIdx pageId appended).layout.InUse
                  sectionIdx pageId 0 := by
                rcases layout_publishOpenPage sectionIdx pageId appended with
                  hlayout | hlayout <;> rw [hlayout] <;> exact hinUse
              exact ⟨offers_publishOpenPage happended hinUse,
                fun other otherSlot hold => reserved_publishOpenPage
                  (reserved_appendPage happend (hnextReserved _ _ hold))
                  fun heq => absurd (hnextReserved _ _ hold).pageId_lt (by
                    rw [heq, (appendPage_eq_some happend).1]
                    exact Nat.lt_irrefl _),
                fun hold => hnot (hnextReserved _ _ hold), hinUse',
                reserved_publishOpenPage hreserved fun _ => ⟨_, hinUse⟩⟩

/-- A call that finds no room for a page keeps the slots sound too. -/
theorem allocateSlotForSection_none {sectionKey : Nat} {st st' : Store cfg}
    (hoffers : st.Offers)
    (halloc : allocateSlotForSection sectionKey st = (none, st')) :
    st'.Offers ∧ ∀ pageId slot, st.Reserved pageId slot → st'.Reserved pageId slot := by
  unfold allocateSlotForSection at halloc
  split at halloc
  · cases halloc
    exact ⟨hoffers, fun _ _ hold => hold⟩
  · rename_i idx found hlookup
    obtain ⟨hoffersIff, hreservedIff⟩ := lookupSection_offers hlookup
    have hnext := offers_takeSectionSlot idx (hoffersIff.mpr hoffers)
    have hkeeps : ∀ pageId slot, st.Reserved pageId slot →
        (takeSectionSlot idx found).2.Reserved pageId slot := fun pageId slot hold =>
      reserved_takeSectionSlot idx ((hreservedIff pageId slot).mpr hold)
    cases htake : takeSectionSlot idx found with
    | mk taken next =>
        rw [htake] at halloc hnext hkeeps
        cases taken with
        | some entry => cases halloc
        | none =>
            simp only at halloc
            split at halloc <;> cases halloc
            exact ⟨hnext, hkeeps⟩

/-- What every step of the allocator keeps, the allocator keeps; `Good` is what
the section lookup promises about its index. -/
theorem allocateSlotForSection_induct {motive : Store cfg → Prop}
    (Good : Int → Prop) {sectionKey : Nat} {st : Store cfg} (hst : motive st)
    (hlookup : ∀ sectionIdx found,
      lookupSection sectionKey st = some (sectionIdx, found) →
        motive found ∧ Good sectionIdx)
    (htake : ∀ sectionIdx found, motive found →
      motive (takeSectionSlot sectionIdx found).2)
    (happend : ∀ sectionIdx found pageId opened, Good sectionIdx → motive found →
      appendPage sectionIdx found = some (pageId, opened) → motive opened)
    (hpublish : ∀ sectionIdx pageId opened, motive opened →
      motive (publishOpenPage sectionIdx pageId opened)) :
    motive (allocateSlotForSection sectionKey st).2 := by
  unfold allocateSlotForSection
  cases hfound : lookupSection sectionKey st with
  | none => exact hst
  | some entry =>
      obtain ⟨sectionIdx, found⟩ := entry
      obtain ⟨hmotive, hgood⟩ := hlookup sectionIdx found hfound
      have htaken := htake sectionIdx found hmotive
      simp only
      cases hslot : takeSectionSlot sectionIdx found with
      | mk taken next =>
          rw [hslot] at htaken
          cases taken with
          | some slot => exact htaken
          | none =>
              cases hnew : appendPage sectionIdx next with
              | none => simpa only [hnew] using htaken
              | some appended =>
                  obtain ⟨pageId, opened⟩ := appended
                  simpa only [hnew] using hpublish sectionIdx pageId opened
                    (happend sectionIdx next pageId opened hgood htaken hnew)

theorem sameTables_takeSectionSlot (sectionIdx : Int) (st : Store cfg) :
    SameTables st (takeSectionSlot sectionIdx st).2 := by
  unfold takeSectionSlot
  split
  · exact ⟨rfl, rfl, rfl, rfl⟩
  · split
    · exact ⟨rfl, rfl, rfl, rfl⟩
    · simp only
      split <;> exact ⟨rfl, rfl, rfl, rfl⟩

theorem sameTables_publishOpenPage (sectionIdx : Int) (pageId : Nat)
    (st : Store cfg) : SameTables st (publishOpenPage sectionIdx pageId st) := by
  unfold publishOpenPage
  split <;> exact ⟨rfl, rfl, rfl, rfl⟩

/-- The allocator leaves the locations of all ids alone. -/
theorem sameTables_allocateSlotForSection (sectionKey : Nat) (st : Store cfg) :
    SameTables st (allocateSlotForSection sectionKey st).2 := by
  refine allocateSlotForSection_induct (motive := SameTables st) (fun _ => True)
    ⟨rfl, rfl, rfl, rfl⟩ ?_ ?_ ?_ ?_
  · intro sectionIdx found hlookup
    have hlayout := lookupSection_layout hlookup
    exact ⟨SameTables.of_layout (by rw [hlayout]) (by rw [hlayout]) (by rw [hlayout])
      (by rw [hlayout]), trivial⟩
  · intro sectionIdx found hfound
    exact hfound.trans (sameTables_takeSectionSlot sectionIdx found)
  · intro sectionIdx found pageId opened _ hfound happend
    have hlayout := (appendPage_eq_some happend).2
    exact hfound.trans (SameTables.of_layout (by rw [hlayout]; rfl)
      (by rw [hlayout]; rfl) (by rw [hlayout]; rfl) (by rw [hlayout]; rfl))
  · intro sectionIdx pageId opened hopened
    exact hopened.trans (sameTables_publishOpenPage sectionIdx pageId opened)

end Store

end AsterVec.PagedVectorStorage

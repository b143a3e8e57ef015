import AsterVec.PagedArrays
import AsterVec.PagedCrowds
import AsterVec.PagedIsolation
import AsterVec.PagedOverwrites

/-!
No two ids share a slot.  In every run of stores, flushes and reopenings the ids with a
location have slots of their own, on pages of the section they were first stored under, and
the free slots and the open pages offer every other slot at most once.
-/

namespace AsterVec.PagedVectorStorage

open AsterVec.ByteBuffer
open AsterVec.IdTypes
open AsterVec.LittleEndian

variable {cfg : Config}

/-- Every page belongs to the section of a key, the index of a key follows from the list of
keys, and no section lists an open page twice. -/
structure Layout.Filing (layout : Layout) : Prop where
  keys_eq : layout.sectionKeyToIdx = Store.keyToIdx layout.sectionIdxToKey
  page_key : ∀ page ∈ layout.pages, ∃ key, layout.sectionKeyToIdx key = some page.sectionIdx
  open_nodup : ∀ sectionIdx, (layout.openPages sectionIdx).Nodup

/-- Every section key keeps its index. -/
def Layout.KeepsKeys (layout layout' : Layout) : Prop :=
  ∀ key sectionIdx, layout.sectionKeyToIdx key = some sectionIdx →
    layout'.sectionKeyToIdx key = some sectionIdx

namespace Layout

theorem KeepsKeys.refl (layout : Layout) : layout.KeepsKeys layout := fun _ _ h => h

theorem KeepsKeys.trans {layout layout' layout'' : Layout} (hfirst : layout.KeepsKeys layout')
    (hsecond : layout'.KeepsKeys layout'') : layout.KeepsKeys layout'' :=
  fun key sectionIdx h => hsecond key sectionIdx (hfirst key sectionIdx h)

theorem Filing.setFree {layout : Layout} (hfiling : layout.Filing) (sectionIdx : Int)
    (slots : List (Nat × Nat)) : (layout.setFree sectionIdx slots).Filing :=
  ⟨hfiling.keys_eq, hfiling.page_key, hfiling.open_nodup⟩

theorem Filing.setOpen {layout : Layout} (hfiling : layout.Filing) {sectionIdx : Int}
    {pages : List Nat} (hnodup : pages.Nodup) : (layout.setOpen sectionIdx pages).Filing := by
  refine ⟨hfiling.keys_eq, hfiling.page_key, fun other => ?_⟩
  rw [openPages_setOpen]
  split
  · exact hnodup
  · exact hfiling.open_nodup other

theorem Filing.useSlot {layout : Layout} (hfiling : layout.Filing) (pageId : Nat) :
    (layout.useSlot pageId).Filing := by
  refine ⟨hfiling.keys_eq, fun page hpage => ?_, hfiling.open_nodup⟩
  obtain ⟨i, hi⟩ := List.mem_iff_getElem?.mp hpage
  rw [getElem?_useSlot] at hi
  obtain ⟨old, hold, heq⟩ := Option.map_eq_some_iff.mp hi
  have hkey := hfiling.page_key old (List.mem_of_getElem? hold)
  split at heq <;> subst heq <;> exact hkey

theorem Filing.addPage {layout : Layout} (hfiling : layout.Filing) {page : PageMeta}
    {key : Nat} (hkey : layout.sectionKeyToIdx key = some page.sectionIdx) :
    (layout.addPage page).Filing := by
  refine ⟨hfiling.keys_eq, fun other hother => ?_, hfiling.open_nodup⟩
  rcases List.mem_append.mp hother with hold | hnew
  · exact hfiling.page_key other hold
  · rw [List.mem_singleton.mp hnew]
    exact ⟨key, hkey⟩

end Layout

namespace Store

/-! Section keys -/

/-- A new key gets the next index. -/
theorem keyToIdx_concat (keys : List Nat) (key : Nat) :
    keyToIdx (keys ++ [key]) =
      Function.update (keyToIdx keys) key (some (toInt32 keys.length)) := by
  unfold keyToIdx
  rw [List.zipIdx_append, List.foldl_append]
  simp

theorem filing_lookupSection {sectionKey : Nat} {st st' : Store cfg} {sectionIdx : Int}
    (hfiling : st.layout.Filing)
    (hlookup : lookupSection sectionKey st = some (sectionIdx, st')) :
    st'.layout.Filing ∧ st.layout.KeepsKeys st'.layout ∧
      st'.layout.sectionKeyToIdx sectionKey = some sectionIdx := by
  unfold lookupSection at hlookup
  split at hlookup
  · rename_i found hfound
    cases hlookup
    exact ⟨hfiling, .refl _, hfound⟩
  · rename_i hnone
    split at hlookup
    · cases hlookup
    · cases hlookup
      have hkeeps : ∀ key sectionIdx, st.layout.sectionKeyToIdx key = some sectionIdx →
          Function.update st.sectionKeyToIdx sectionKey
            (some (toInt32 st.sectionIdxToKey.length)) key = some sectionIdx := by
        intro key sectionIdx hkey
        rw [Function.update_of_ne]
        · exact hkey
        · rintro rfl
          cases hnone.symm.trans hkey
      refine ⟨⟨?_, fun page hpage => ?_, hfiling.open_nodup⟩, hkeeps,
        Function.update_self _ _ _⟩
      · change Function.update st.sectionKeyToIdx sectionKey _ = _
        rw [show st.sectionKeyToIdx = _ from hfiling.keys_eq]
        exact (keyToIdx_concat _ _).symm
      · obtain ⟨key, hkey⟩ := hfiling.page_key page hpage
        exact ⟨key, hkeeps key _ hkey⟩

/-- The indices given by a list of keys are places in it. -/
theorem numbered_of_filing {st : Store cfg} (hfiling : st.layout.Filing) : st.Numbered := by
  intro key sectionIdx hkey
  change st.layout.sectionKeyToIdx key = some sectionIdx at hkey
  rw [hfiling.keys_eq] at hkey
  change ∃ n, st.layout.sectionIdxToKey[n]? = some key ∧ sectionIdx = toInt32 n
  generalize st.layout.sectionIdxToKey = keys at hkey
  induction keys using List.reverseRecOn with
  | nil => cases hkey
  | append_singleton keys last ih =>
      rw [keyToIdx_concat] at hkey
      by_cases hlast : key = last
      · subst hlast
        rw [Function.update_self] at hkey
        exact ⟨keys.length, List.getElem?_concat_length, (Option.some.inj hkey).symm⟩
      · rw [Function.update_of_ne hlast] at hkey
        obtain ⟨n, hn, hindex⟩ := ih hkey
        have hlt := (List.getElem?_eq_some_iff.mp hn).1
        exact ⟨n, by rw [List.getElem?_append_left hlt]; exact hn, hindex⟩

/-! The allocator -/

theorem openPages_takeSectionSlot (sectionIdx : Int) (st : Store cfg) (other : Int) :
    ((takeSectionSlot sectionIdx st).2.layout.openPages other).Sublist
      (st.layout.openPages other) := by
  have hset : ∀ pages : List Nat, pages.Sublist (st.openPages sectionIdx) →
      ((setOpenPages sectionIdx pages st).layout.openPages other).Sublist
        (st.layout.openPages other) := by
    intro pages hsub
    rw [layout_setOpenPages, Layout.openPages_setOpen]
    split
    · rename_i hsame
      subst hsame
      exact hsub
    · exact List.Sublist.refl _
  unfold takeSectionSlot
  split
  · rw [layout_setFreeSlots]
    exact List.Sublist.refl _
  · split
    · exact List.Sublist.refl _
    · rename_i pageId rest hopen
      rw [hopen] at hset
      simp only
      split
      · refine hset _ ?_
        split
        · exact List.Sublist.refl _
        · exact List.sublist_cons_self _ _
      · exact hset _ (List.sublist_cons_self _ _)

theorem filing_takeSectionSlot (sectionIdx : Int) {st : Store cfg}
    (hfiling : st.layout.Filing) :
    (takeSectionSlot sectionIdx st).2.layout.Filing ∧
      (takeSectionSlot sectionIdx st).2.layout.sectionKeyToIdx =
        st.layout.sectionKeyToIdx := by
  have hopens := fun other => (hfiling.open_nodup other).sublist
    (openPages_takeSectionSlot sectionIdx st other)
  have hopen : ∀ {layout : Layout}, layout.Filing → ∀ {sectionIdx : Int} {pages : List Nat},
      (∀ other, ((layout.setOpen sectionIdx pages).openPages other).Nodup) →
        (layout.setOpen sectionIdx pages).Filing :=
    fun h _ _ hnodup => ⟨h.keys_eq, h.page_key, hnodup⟩
  rcases takeSectionSlot_cases sectionIdx st with
    ⟨_, _, rest, -, -, hlayout⟩ | ⟨pageId, _, kept, _, -, -, -, -, -, -, hlayout⟩ |
    ⟨kept, -, -, hlayout⟩
  · rw [hlayout]
    exact ⟨hfiling.setFree sectionIdx rest, rfl⟩
  · rw [hlayout] at hopens ⊢
    exact ⟨(hopen hfiling hopens).useSlot pageId, rfl⟩
  · rw [hlayout] at hopens ⊢
    exact ⟨hopen hfiling hopens, rfl⟩

theorem filing_publishOpenPage {sectionIdx : Int} {pageId : Nat} {st : Store cfg}
    (hfiling : st.layout.Filing) (hnew : pageId ∉ st.layout.openPages sectionIdx) :
    (publishOpenPage sectionIdx pageId st).layout.Filing ∧
      (publishOpenPage sectionIdx pageId st).layout.sectionKeyToIdx =
        st.layout.sectionKeyToIdx := by
  rcases layout_publishOpenPage sectionIdx pageId st with hlayout | hlayout
  · rw [hlayout]
    exact ⟨hfiling, rfl⟩
  · rw [hlayout]
    exact ⟨hfiling.setOpen (List.nodup_cons.mpr ⟨hnew, hfiling.open_nodup sectionIdx⟩), rfl⟩

/-- The allocator files the key, keeps the other keys, and names the key's section. -/
theorem filing_allocateSlotForSection {sectionKey : Nat} {st st' : Store cfg}
    {granted : Option (Int × Nat × Nat)} (hoffers : st.Offers) (hfiling : st.layout.Filing)
    (halloc : allocateSlotForSection sectionKey st = (granted, st')) :
    st'.layout.Filing ∧ st.layout.KeepsKeys st'.layout ∧
      ∀ sectionIdx pageId slot, granted = some (sectionIdx, pageId, slot) →
        st'.layout.sectionKeyToIdx sectionKey = some sectionIdx := by
  unfold allocateSlotForSection at halloc
  split at halloc
  · cases halloc
    exact ⟨hfiling, .refl _, by simp⟩
  · rename_i sectionIdx found hlookup
    obtain ⟨hfound, hkeeps, hkey⟩ := filing_lookupSection hfiling hlookup
    obtain ⟨htaken, htakenKeys⟩ := filing_takeSectionSlot sectionIdx hfound
    have hnextOffers := offers_takeSectionSlot sectionIdx
      ((lookupSection_offers hlookup).1.mpr hoffers)
    cases htake : takeSectionSlot sectionIdx found with
    | mk taken next =>
        rw [htake] at halloc htaken htakenKeys hnextOffers
        have hnextKeeps : st.layout.KeepsKeys next.layout := by
          intro key idx h
          rw [htakenKeys]
          exact hkeeps key idx h
        rw [← htakenKeys] at hkey
        cases taken with
        | some entry =>
            cases halloc
            refine ⟨htaken, hnextKeeps, ?_⟩
            rintro _ _ _ ⟨⟩
            exact hkey
        | none =>
            simp only at halloc
            split at halloc
            · cases halloc
              exact ⟨htaken, hnextKeeps, by simp⟩
            · rename_i newPage appended happend
              cases halloc
              obtain ⟨rfl, hlayout⟩ := appendPage_eq_some happend
              have happended : appended.layout.Filing := by
                rw [hlayout]
                exact htaken.addPage hkey
              have hnew : next.pages.length ∉ appended.layout.openPages sectionIdx := by
                rw [hlayout]
                intro hmem
                obtain ⟨page, hpage, -⟩ := hnextOffers.open_page sectionIdx _ hmem
                exact Nat.lt_irrefl _ (List.getElem?_eq_some_iff.mp hpage).1
              obtain ⟨hpublished, hpublishedKeys⟩ := filing_publishOpenPage happended hnew
              have hkeys : (publishOpenPage sectionIdx next.pages.length
                  appended).layout.sectionKeyToIdx = next.layout.sectionKeyToIdx := by
                rw [hpublishedKeys, hlayout]
                rfl
              refine ⟨hpublished, ?_, ?_⟩
              · intro key idx h
                rw [hkeys]
                exact hnextKeeps key idx h
              · rintro _ _ _ ⟨⟩
                rw [hkeys]
                exact hkey

/-! A store of a record -/

theorem filing_of_lists {st st' : Store cfg} (hfiling : st.layout.Filing)
    (hkeys : st'.keys = st.keys) (hopen : st'.layout.openPages = st.layout.openPages)
    (hpages : st'.layout.pages = st.layout.pages) : st'.layout.Filing := by
  have hmap : st'.layout.sectionKeyToIdx = st.layout.sectionKeyToIdx :=
    congrArg Prod.fst hkeys
  have hlist : st'.layout.sectionIdxToKey = st.layout.sectionIdxToKey :=
    congrArg Prod.snd hkeys
  refine ⟨?_, ?_, ?_⟩
  · rw [hmap, hlist]
    exact hfiling.keys_eq
  · rw [hmap, hpages]
    exact hfiling.page_key
  · rw [hopen]
    exact hfiling.open_nodup

theorem keys_assignLocation (st : Store cfg) (id page slot : Nat) :
    (st.assignLocation id page slot).2.keys = st.keys := by
  unfold assignLocation
  split
  · split
    · rfl
    · split <;> rfl
  · rfl

theorem filing_storeEncoded {st : Store cfg} (hoffers : st.Offers) (hfit : st.LocationsFit)
    (hfiling : st.layout.Filing) (id : Nat) (record : Record cfg) (sectionKey : Nat) :
    (storeEncoded id record sectionKey st).2.layout.Filing ∧
      st.layout.KeepsKeys (storeEncoded id record sectionKey st).2.layout := by
  have hall : (storeEncoded id record sectionKey st).2.Offers ∧
      (storeEncoded id record sectionKey st).2.layout.Filing ∧
        st.layout.KeepsKeys (storeEncoded id record sectionKey st).2.layout := by
    refine storeEncoded_induct (motive := fun later => later.Offers ∧ later.layout.Filing ∧
      st.layout.KeepsKeys later.layout) ?_ ?_ ?_ ?_
    · obtain ⟨-, -, -, -, _, _, _, heq⟩ := ensureDenseCapacity_spec hfit id
      rw [heq]
      exact ⟨offers_of_lists hoffers rfl rfl rfl, filing_of_lists hfiling rfl rfl rfl,
        .refl _⟩
    · intro grown pageId slot hgrown
      have hlayout : ((updateCacheAfterWrite pageId slot record
          (writeRecord pageId slot record grown)).markDeletedAt id false).layout =
            grown.layout := by simp
      unfold Offers
      rw [hlayout]
      exact hgrown
    · rintro grown ⟨hgrown, hgrownFiling, hkeeps⟩
      cases halloc : allocateSlotForSection sectionKey grown with
      | mk granted allocated =>
          obtain ⟨hfiled, hkept, -⟩ :=
            filing_allocateSlotForSection hgrown hgrownFiling halloc
          refine ⟨?_, hfiled, hkeeps.trans hkept⟩
          cases granted with
          | none => exact (allocateSlotForSection_none hgrown halloc).1
          | some entry => exact (allocateSlotForSection_grants hgrown halloc).offers
    · rintro allocated written sectionIdx pageId slot ⟨hallocated, hfiled, hkeeps⟩ hwrite
      have hlayout := (layout_markDeletedAt written id false).trans
        (layout_writeNewRecord hwrite)
      obtain ⟨hopen, hfree, hpages⟩ :=
        lists_assignLocation (written.markDeletedAt id false) id pageId slot
      have hkeys := keys_assignLocation (written.markDeletedAt id false) id pageId slot
      rw [hlayout] at hopen hfree hpages
      have hkeys' := hkeys.trans (congrArg Layout.keys hlayout)
      refine ⟨offers_of_lists hallocated hopen hfree hpages,
        filing_of_lists hfiled hkeys' hopen hpages, ?_⟩
      intro key idx h
      exact (congrFun (congrArg Prod.fst hkeys') key).trans (hkeeps key idx h)
  exact hall.2

/-! The section an id lies in -/

/-- The id lies on a page of the section of the key. -/
def LiesUnder (st : Store cfg) (id key : Nat) : Prop :=
  ∃ pageId slot page, st.location id = some (pageId, slot) ∧
    st.pages[pageId]? = some page ∧ st.sectionKeyToIdx key = some page.sectionIdx

/-- A step that keeps the id's location, the sections of the pages and the keys. -/
theorem LiesUnder.keep {st st' : Store cfg} {id key : Nat} (hlies : st.LiesUnder id key)
    (hlocation : st'.location id = st.location id)
    (hpages : ∀ (pageId : Nat) (page : PageMeta), st.pages[pageId]? = some page →
      ∃ page', st'.pages[pageId]? = some page' ∧ page'.sectionIdx = page.sectionIdx)
    (hkeys : st.layout.KeepsKeys st'.layout) : st'.LiesUnder id key := by
  obtain ⟨pageId, slot, page, hloc, hpage, hkey⟩ := hlies
  obtain ⟨page', hpage', hsection⟩ := hpages pageId page hpage
  refine ⟨pageId, slot, page', hlocation.trans hloc, hpage', ?_⟩
  rw [hsection]
  exact hkeys key _ hkey

theorem pages_storeEncoded (id : Nat) (record : Record cfg) (sectionKey : Nat)
    (st : Store cfg) (pageId : Nat) (page : PageMeta) (hpage : st.pages[pageId]? = some page) :
    ∃ page', (storeEncoded id record sectionKey st).2.pages[pageId]? = some page' ∧
      page'.sectionIdx = page.sectionIdx := by
  have hsame : ∀ {grown later : Store cfg}, later.layout.pages = grown.layout.pages →
      (∃ page', grown.pages[pageId]? = some page' ∧ page'.sectionIdx = page.sectionIdx) →
        ∃ page', later.pages[pageId]? = some page' ∧ page'.sectionIdx = page.sectionIdx := by
    rintro grown later hpages ⟨page', hpage', hsection⟩
    exact ⟨page', (congrArg (fun pages : List PageMeta => pages[pageId]?) hpages).trans hpage',
      hsection⟩
  refine storeEncoded_induct (motive := fun later => ∃ page',
    later.pages[pageId]? = some page' ∧ page'.sectionIdx = page.sectionIdx) ?_ ?_ ?_ ?_
  · exact (quiet_ensureDenseCapacity st id).pages pageId page hpage
  · intro grown _ _ hgrown
    exact hsame (by simp) hgrown
  · rintro grown ⟨page', hpage', hsection⟩
    obtain ⟨page'', hpage'', hsection'⟩ :=
      (quiet_allocateSlotForSection sectionKey grown).pages pageId page' hpage'
    exact ⟨page'', hpage'', hsection'.trans hsection⟩
  · intro allocated written _ newPage slot hallocated hwrite
    refine hsame ?_ hallocated
    rw [(lists_assignLocation (written.markDeletedAt id false) id newPage slot).2.2,
      layout_markDeletedAt, layout_writeNewRecord hwrite]

/-- A store that gives an id its slot puts it into the section of the key. -/
theorem liesUnder_storeEncoded {st : Store cfg} (hsound : st.Sound)
    (hfiling : st.layout.Filing) {id : Nat} (hid : st.hasLocation id = false)
    (record : Record cfg) (sectionKey : Nat)
    (hreturned : (storeEncoded id record sectionKey st).1 = .returned ()) :
    (storeEncoded id record sectionKey st).2.LiesUnder id sectionKey := by
  obtain ⟨-, hfit, -, hroom, _, _, _, hgrownEq⟩ := ensureDenseCapacity_spec hsound.fit id
  have hgrownOffers := (preserves_ensureDenseCapacity hsound id).sound.offers
  have hgrownFiling : (st.ensureDenseCapacity id).2.layout.Filing := by
    rw [hgrownEq]
    exact filing_of_lists hfiling rfl rfl rfl
  rcases storeEncoded_cases hsound hid record sectionKey with
    ⟨grown, -, heq⟩ | ⟨grown, hensure, ⟨allocated, -, heq⟩ |
      ⟨sectionIdx, pageId, slot, allocated, written, halloc, hwrite, heq⟩⟩
  · rw [heq] at hreturned
    cases hreturned
  · rw [heq] at hreturned
    cases hreturned
  · rw [hensure] at hfit hroom hgrownOffers hgrownFiling
    have htables := sameTables_allocateSlotForSection sectionKey grown
    rw [halloc] at htables
    have hgrants := allocateSlotForSection_grants hgrownOffers halloc
    have hkey := (filing_allocateSlotForSection hgrownOffers hgrownFiling halloc).2.2 _ _ _ rfl
    have hlayout := (layout_markDeletedAt written id false).trans
      (layout_writeNewRecord hwrite)
    have hsame := htables.trans (sameTables_of_layout_eq hlayout)
    obtain ⟨-, -, -, hplaced, -⟩ := assignLocation_spec (hsame.fit hfit) pageId slot
      fun hdirect => by
        rw [hsame.total]
        exact hroom rfl hdirect
    rw [heq] at hreturned ⊢
    obtain ⟨page, hpage, hsection, -⟩ := hgrants.inUse
    have hpages := (lists_assignLocation (written.markDeletedAt id false) id pageId
      slot).2.2.trans (congrArg Layout.pages hlayout)
    have hkeys := (keys_assignLocation (written.markDeletedAt id false) id pageId slot).trans
      (congrArg Layout.keys hlayout)
    refine ⟨pageId, slot, page, hplaced hreturned, ?_, ?_⟩
    · exact (congrArg (fun pages : List PageMeta => pages[pageId]?) hpages).trans hpage
    · rw [hsection]
      exact (congrFun (congrArg Prod.fst hkeys) sectionKey).trans hkey

/-! Runs -/

/-- The key an id lies under after a store: the one of the store that gave it its slot. -/
def fileUnder (st : Store cfg) (id : Nat) (record : Record cfg) (sectionKey : Nat)
    (keyOf : Nat → Option Nat) : Nat → Option Nat :=
  if st.hasLocation id = false ∧ (storeEncoded id record sectionKey st).1 = .returned () then
    Function.update keyOf id (some sectionKey)
  else keyOf

/-- Runs of stores, flushes and reopenings with one capacity, and the key under which each
id got its slot. -/
inductive Filed (capacity : Nat) : Store cfg → (Nat → Option Nat) → Prop
  | construct {file : ByteFile} {deletedFlags : Nat → Bool} {fresh : Store cfg}
      (hconstruct : Store.construct cfg capacity file deletedFlags = some fresh) :
      Filed capacity fresh fun _ => none
  | storeEncoded {st : Store cfg} {keyOf : Nat → Option Nat} (id : NodeId)
      (record : Record cfg) (sectionKey : NodeId) (hfiled : Filed capacity st keyOf) :
      Filed capacity (storeEncoded id record sectionKey st).2
        (st.fileUnder id record sectionKey keyOf)
  | flushWrites {st : Store cfg} {keyOf : Nat → Option Nat} (hfiled : Filed capacity st keyOf) :
      Filed capacity st.flushWrites keyOf
  | reopen {st fresh loaded : Store cfg} {keyOf : Nat → Option Nat} {file : ByteFile}
      {deletedFlags : Nat → Bool} {rest : List UInt8} (hfiled : Filed capacity st keyOf)
      (hconstruct : Store.construct cfg capacity file deletedFlags = some fresh)
      (hload : fresh.deserializeMetadata (st.serializeMetadata ++ rest) =
        .returned (some (loaded, rest))) :
      Filed capacity loaded keyOf

/-- What every step of a run keeps. -/
structure Tidy (capacity : Nat) (st : Store cfg) (keyOf : Nat → Option Nat) : Prop where
  sound : st.Sound
  saved : st.Saved
  filing : st.layout.Filing
  doubled : Doubled capacity st.totalVectors
  distinct : ∀ id other loc, st.location id = some loc → st.location other = some loc →
    id = other
  reserved : ∀ id pageId slot, st.location id = some (pageId, slot) →
    st.Reserved pageId slot
  lies : ∀ id, st.hasLocation id = true → ∃ key, keyOf id = some key ∧ st.LiesUnder id key

theorem Tidy.of_layout {capacity : Nat} {st st' : Store cfg} {keyOf : Nat → Option Nat}
    (htidy : Tidy capacity st keyOf) (hsound : st'.Sound)
    (hlayout : st'.layout = st.layout) : Tidy capacity st' keyOf := by
  have hsame := sameTables_of_layout_eq hlayout
  refine ⟨hsound, htidy.saved.congr hlayout, hlayout ▸ htidy.filing,
    by rw [hsame.total]; exact htidy.doubled, ?_, ?_, ?_⟩
  · intro id other loc hid hother
    exact htidy.distinct id other loc ((hsame.location id).1.symm.trans hid)
      ((hsame.location other).1.symm.trans hother)
  · intro id pageId slot hid
    exact (reserved_congr hlayout _ _).mpr
      (htidy.reserved id pageId slot ((hsame.location id).1.symm.trans hid))
  · intro id hid
    obtain ⟨key, hkey, hlies⟩ := htidy.lies id ((hsame.location id).2.symm.trans hid)
    have hpages : st'.pages = st.pages := congrArg Layout.pages hlayout
    refine ⟨key, hkey, hlies.keep (hsame.location id).1 (fun pageId page hpage => ?_) ?_⟩
    · exact ⟨page, hpages ▸ hpage, rfl⟩
    · rw [hlayout]
      exact .refl _

theorem tidy_construct {capacity : Nat} {file : ByteFile} {deletedFlags : Nat → Bool}
    {fresh : Store cfg}
    (hconstruct : construct cfg capacity file deletedFlags = some fresh) :
    Tidy capacity fresh fun _ => none := by
  have hsound := sound_construct hconstruct
  have hnone := fun id => Crowd.hasLocation_construct hconstruct id
  have hlocation : ∀ id, fresh.location id = none := by
    intro id
    rw [← Option.not_isSome_iff_eq_none, location_isSome hsound.fit, hnone id]
    exact Bool.false_ne_true
  refine ⟨hsound, saved_construct hconstruct, ?_, ?_, ?_, ?_, ?_⟩
  · unfold construct at hconstruct
    split at hconstruct
    · cases hconstruct
    · cases hconstruct
      exact ⟨rfl, fun _ hpage => absurd hpage List.not_mem_nil, fun _ => List.nodup_nil⟩
  · exact .inr ⟨0, by rw [construct_totalVectors hconstruct, Nat.pow_zero, Nat.mul_one]⟩
  · intro id other loc hid
    cases (hlocation id).symm.trans hid
  · intro id pageId slot hid
    cases (hlocation id).symm.trans hid
  · intro id hid
    cases (hnone id).symm.trans hid

/-- A store of an id that has a slot changes no table. -/
theorem Tidy.overwrite {capacity : Nat} {st : Store cfg} {keyOf : Nat → Option Nat}
    (htidy : Tidy capacity st keyOf) {id pageId slot : Nat}
    (hlocation : st.location id = some (pageId, slot)) (record : Record cfg)
    (sectionKey : Nat) :
    Tidy capacity (storeEncoded id record sectionKey st).2 keyOf := by
  rw [storeEncoded_of_location htidy.sound.fit hlocation]
  exact htidy.of_layout (Arrays.sound_overwritten htidy.sound id pageId slot record)
    (layout_overwritten id pageId slot record st)

/-- A store of an id without a slot gives it one that no other id has, or none. -/
theorem Tidy.storeNew {capacity : Nat} {st : Store cfg} {keyOf : Nat → Option Nat}
    (htidy : Tidy capacity st keyOf) {id sectionKey : Nat} (hid : st.hasLocation id = false)
    (hidLt : id < 2 ^ 64) (hkeyLt : sectionKey < 2 ^ 64) (record : Record cfg) :
    Tidy capacity (storeEncoded id record sectionKey st).2
      (st.fileUnder id record sectionKey keyOf) := by
  obtain ⟨-, hpreserves, hplaced⟩ := storeEncoded_spec htidy.sound hid record sectionKey
  obtain ⟨hfiling, hkeeps⟩ := filing_storeEncoded htidy.sound.offers htidy.sound.fit
    htidy.filing id record sectionKey
  have hlies := liesUnder_storeEncoded htidy.sound htidy.filing hid record sectionKey
  have hfailed := location_of_not_returned htidy.sound hid record sectionKey
  have hpages := pages_storeEncoded id record sectionKey st
  have hsaved := saved_storeEncoded htidy.saved hidLt record hkeyLt
  have hdoubled := doubled_storeEncoded id record sectionKey htidy.doubled
  unfold fileUnder
  simp only [hid, true_and]
  generalize storeEncoded id record sectionKey st = call at *
  obtain ⟨outcome, st'⟩ := call
  change Preserves id st st' at hpreserves
  have hothers := fun other (hne : other ≠ id) => hpreserves.location other hne
  -- What the new slot of the id is, when it got one.
  have hslot : ∀ pageId slot, st'.location id = some (pageId, slot) →
      outcome = .returned () ∧ ¬st.Reserved pageId slot ∧ st'.Reserved pageId slot := by
    intro pageId slot hlocation
    have hreturned : outcome = .returned () := by
      by_contra hnot
      have hnone := hfailed hnot
      change st'.hasLocation id = false at hnone
      rw [← location_isSome hpreserves.sound.fit, hlocation] at hnone
      cases hnone
    obtain ⟨page, found, hloc, hnot, hreserved, -⟩ := hplaced hreturned
    cases hloc.symm.trans hlocation
    exact ⟨hreturned, hnot, hreserved⟩
  refine ⟨hpreserves.sound, hsaved, hfiling, hdoubled, ?_, ?_, ?_⟩
  · intro first second loc hfirst hsecond
    obtain ⟨pageId, slot⟩ := loc
    by_cases hone : first = id
    · by_cases htwo : second = id
      · rw [hone, htwo]
      · subst hone
        exact absurd (htidy.reserved second pageId slot
          ((hothers second htwo).1.symm.trans hsecond)) (hslot pageId slot hfirst).2.1
    · by_cases htwo : second = id
      · subst htwo
        exact absurd (htidy.reserved first pageId slot
          ((hothers first hone).1.symm.trans hfirst)) (hslot pageId slot hsecond).2.1
      · exact htidy.distinct first second _ ((hothers first hone).1.symm.trans hfirst)
          ((hothers second htwo).1.symm.trans hsecond)
  · intro other pageId slot hother
    by_cases hone : other = id
    · subst hone
      exact (hslot pageId slot hother).2.2
    · exact hpreserves.reserved _ _
        (htidy.reserved other pageId slot ((hothers other hone).1.symm.trans hother))
  · intro other hother
    by_cases hone : other = id
    · subst hone
      rw [← location_isSome hpreserves.sound.fit] at hother
      obtain ⟨⟨pageId, slot⟩, hlocation⟩ := Option.isSome_iff_exists.mp hother
      have hreturned := (hslot pageId slot hlocation).1
      rw [if_pos hreturned]
      exact ⟨sectionKey, Function.update_self _ _ _, hlies hreturned⟩
    · obtain ⟨key, hkey, hold⟩ := htidy.lies other ((hothers other hone).2.symm.trans hother)
      refine ⟨key, ?_, hold.keep (hothers other hone).1 hpages hkeeps⟩
      split
      · rw [Function.update_of_ne hone]
        exact hkey
      · exact hkey

theorem filing_rebuild (grown : Store cfg) {st : Store cfg} (hfiling : st.layout.Filing) :
    (rebuild grown st.tables).layout.Filing ∧
      (rebuild grown st.tables).layout.sectionKeyToIdx = st.layout.sectionKeyToIdx := by
  have hkeys : keyToIdx st.sectionIdxToKey = st.layout.sectionKeyToIdx := hfiling.keys_eq.symm
  refine ⟨⟨rfl, ?_, ?_⟩, hkeys⟩
  · intro page hpage
    obtain ⟨key, hkey⟩ := hfiling.page_key page hpage
    exact ⟨key, (congrFun hkeys key).trans hkey⟩
  · intro sectionIdx
    change (openPagesOf cfg st.pages sectionIdx).Nodup
    unfold openPagesOf
    split
    · exact List.nodup_nil
    · rw [List.nodup_reverse]
      exact List.nodup_range.filter _

/-- A reopened store places every id as before and offers none of their slots. -/
theorem Tidy.reopen {capacity : Nat} {st fresh loaded : Store cfg} {keyOf : Nat → Option Nat}
    (htidy : Tidy capacity st keyOf) {file : ByteFile} {deletedFlags : Nat → Bool}
    {rest : List UInt8}
    (hconstruct : construct cfg capacity file deletedFlags = some fresh)
    (hload : fresh.deserializeMetadata (st.serializeMetadata ++ rest) =
      .returned (some (loaded, rest))) : Tidy capacity loaded keyOf := by
  have hsaved := htidy.saved
  obtain ⟨grown, rfl, hgrow⟩ := loaded_eq_rebuild hsaved hload
  have hcapacity : grown.totalVectors = st.totalVectors := by
    have hfits := capacityFits_of_doubled hsaved.savable.total_le htidy.doubled
    unfold CapacityFits at hfits
    rw [construct_totalVectors hconstruct, hfits] at hgrow
    exact (Option.some.inj hgrow).symm
  have hsaved' := saved_rebuild hsaved hcapacity
  have hlocation := fun id => location_of_tables (sameLocations_rebuild hsaved hcapacity id).1
    (sameLocations_rebuild hsaved hcapacity id).2
  obtain ⟨hfiling, hkeys⟩ := filing_rebuild grown htidy.filing
  refine ⟨⟨wellFormed_rebuild grown _, hsaved'.offers, hsaved'.fit⟩, hsaved', hfiling, ?_, ?_,
    ?_, ?_⟩
  · change Doubled capacity grown.totalVectors
    rw [hcapacity]
    exact htidy.doubled
  · intro id other loc hid hother
    exact htidy.distinct id other loc ((hlocation id).1.symm.trans hid)
      ((hlocation other).1.symm.trans hother)
  · intro id pageId slot hid
    obtain ⟨page, hpage, hslot⟩ := used_of_location hsaved' hid
    have hle := hsaved'.offers.used_le page (List.mem_of_getElem? hpage)
    refine ⟨by omega, fun sectionIdx hmem => ?_, page, hpage, .inl hslot⟩
    obtain ⟨-, _, -, -, -, hfree⟩ := mem_freeSlotsOf.mp hmem
    have hused := slotInUse_of_locates
      (hsaved.fit.pages_length.trans hsaved.fit.slots_length.symm)
      (locates_of_location hsaved'.fit hid)
    cases hfree.symm.trans hused
  · intro id hid
    obtain ⟨key, hkey, hlies⟩ := htidy.lies id ((hlocation id).2.symm.trans hid)
    refine ⟨key, hkey, hlies.keep (hlocation id).1 (fun _ page hpage => ⟨page, hpage, rfl⟩) ?_⟩
    intro other sectionIdx hother
    rw [hkeys]
    exact hother

theorem Filed.tidy {capacity : Nat} {st : Store cfg} {keyOf : Nat → Option Nat}
    (hfiled : Filed capacity st keyOf) : Tidy capacity st keyOf := by
  induction hfiled with
  | construct hconstruct => exact tidy_construct hconstruct
  | @storeEncoded st keyOf id record sectionKey _ ih =>
      cases hid : st.hasLocation id with
      | false => exact ih.storeNew hid id.isLt sectionKey.isLt record
      | true =>
          have hkeep : st.fileUnder id record sectionKey keyOf = keyOf :=
            if_neg (by simp [hid])
          rw [← location_isSome ih.sound.fit] at hid
          obtain ⟨⟨pageId, slot⟩, hlocation⟩ := Option.isSome_iff_exists.mp hid
          rw [hkeep]
          exact ih.overwrite hlocation record sectionKey
  | flushWrites _ ih =>
      have hsame := undisturbed_flushWrites ih.sound.wellFormed
      exact ih.of_layout (ih.sound.of_layout hsame.wellFormed hsame.layout) hsame.layout
  | reopen _ hconstruct hload ih => exact ih.reopen hconstruct hload

/-! What a run never shares -/

/-- The slots a section offers: its free slots and the next slot of each open page. -/
def offered (st : Store cfg) (sectionIdx : Int) : List (Nat × Nat) :=
  st.freeSlots sectionIdx ++ (st.openPages sectionIdx).map fun pageId =>
    (pageId, (st.pages[pageId]?).elim 0 PageMeta.usedSlots)

/-- No slot is shared: not by two ids, not by an id and an offer, not by two offers. -/
structure Unshared (st : Store cfg) (keyOf : Nat → Option Nat) : Prop where
  distinct : ∀ id other loc, st.location id = some loc → st.location other = some loc →
    id = other
  used : ∀ id pageId slot, st.location id = some (pageId, slot) → st.Used pageId slot
  used_le : ∀ page ∈ st.pages, page.usedSlots ≤ cfg.vectorsPerPage
  page_key : ∀ page ∈ st.pages, ∃ key, st.sectionKeyToIdx key = some page.sectionIdx
  one_key : st.sectionIdxToKey.length ≤ 2 ^ 32 → st.Distinct
  lies : ∀ id, st.hasLocation id = true → ∃ key, keyOf id = some key ∧ st.LiesUnder id key
  not_offered : ∀ id loc sectionIdx, st.location id = some loc → loc ∉ st.offered sectionIdx
  offered_nodup : ∀ sectionIdx, (st.offered sectionIdx).Nodup
  offered_once : ∀ sectionIdx other loc, loc ∈ st.offered sectionIdx →
    loc ∈ st.offered other → sectionIdx = other

/-- An offer is a free slot below the used count of a page of the section, or the first
slot behind it. -/
theorem mem_offered {st : Store cfg} (hoffers : st.Offers) {sectionIdx : Int}
    {pageId slot : Nat} (hmem : (pageId, slot) ∈ st.offered sectionIdx) :
    ∃ page, st.pages[pageId]? = some page ∧ page.sectionIdx = sectionIdx ∧
      ((pageId, slot) ∈ st.freeSlots sectionIdx ∧ slot < page.usedSlots ∨
        slot = page.usedSlots) := by
  rcases List.mem_append.mp hmem with hfree | hopen
  · obtain ⟨page, hpage, hsection, hslot⟩ := hoffers.free_slot sectionIdx _ hfree
    exact ⟨page, hpage, hsection, .inl ⟨hfree, hslot⟩⟩
  · obtain ⟨openPage, hopenPage, heq⟩ := List.mem_map.mp hopen
    obtain ⟨page, hpage, hsection⟩ := hoffers.open_page sectionIdx openPage hopenPage
    change st.pages[openPage]? = some page at hpage
    rw [hpage] at heq
    cases heq
    exact ⟨page, hpage, hsection, .inr rfl⟩

theorem nodup_offered {st : Store cfg} (hoffers : st.Offers) (hfiling : st.layout.Filing)
    (sectionIdx : Int) : (st.offered sectionIdx).Nodup := by
  refine List.nodup_append.mpr ⟨hoffers.free_nodup sectionIdx,
    (hfiling.open_nodup sectionIdx).map fun _ _ heq => (Prod.mk.inj heq).1, ?_⟩
  rintro ⟨pageId, slot⟩ hfree _ hopen rfl
  obtain ⟨openPage, -, heq⟩ := List.mem_map.mp hopen
  obtain ⟨page, hpage, -, hslot⟩ := hoffers.free_slot sectionIdx _ hfree
  change st.pages[pageId]? = some page at hpage
  cases (Prod.mk.inj heq).1
  rw [hpage] at heq
  exact Nat.ne_of_gt hslot (Prod.mk.inj heq).2

/-- In every run no slot is shared, and every id lies in the section of the key it got its
slot under. -/
theorem Filed.unshared {capacity : Nat} {st : Store cfg} {keyOf : Nat → Option Nat}
    (hfiled : Filed capacity st keyOf) : st.Unshared keyOf := by
  have htidy := hfiled.tidy
  have hoffers := htidy.sound.offers
  refine ⟨htidy.distinct, fun id pageId slot hid => used_of_location htidy.saved hid,
    hoffers.used_le, htidy.filing.page_key, (numbered_of_filing htidy.filing).distinct,
    htidy.lies, ?_, nodup_offered hoffers htidy.filing, ?_⟩
  · rintro id ⟨pageId, slot⟩ sectionIdx hid hmem
    obtain ⟨page, hpage, -, ⟨hfree, -⟩ | hnext⟩ := mem_offered hoffers hmem
    · exact (htidy.reserved id pageId slot hid).not_free sectionIdx hfree
    · obtain ⟨found, hfound, hslot⟩ := used_of_location htidy.saved hid
      cases hpage.symm.trans hfound
      omega
  · rintro sectionIdx other ⟨pageId, slot⟩ hone htwo
    obtain ⟨page, hpage, hsection, -⟩ := mem_offered hoffers hone
    obtain ⟨page', hpage', hsection', -⟩ := mem_offered hoffers htwo
    cases hpage.symm.trans hpage'
    exact hsection.symm.trans hsection'

/-- One record, stored under key 7. -/
def storedUnderSeven : Store tinyConfig :=
  (storeEncoded 0 (tinyRecord 1) 7 roomForOne).2

theorem filed_storedUnderSeven : Filed 1 storedUnderSeven
    (roomForOne.fileUnder 0 ⟨List.replicate 9 1, rfl⟩ 7 fun _ => none) :=
  .storeEncoded 0 _ 7 (.construct construct_roomForOne)

theorem storedUnderSeven_unshared : storedUnderSeven.Unshared
    (roomForOne.fileUnder 0 ⟨List.replicate 9 1, rfl⟩ 7 fun _ => none) :=
  filed_storedUnderSeven.unshared

/-- Stored again under key 8, the id stays in the section of key 7. -/
theorem storedAgain_staysPut :
    ∃ (st : Store tinyConfig) (keyOf : Nat → Option Nat), Filed 1 st keyOf ∧
      (storeEncoded 0 ⟨List.replicate 9 2, rfl⟩ 8 st).1 = .returned () ∧
      ¬(storeEncoded 0 ⟨List.replicate 9 2, rfl⟩ 8 st).2.LiesUnder 0 8 := by
  refine ⟨storedUnderSeven, _, filed_storedUnderSeven, rfl, ?_⟩
  rintro ⟨_, _, _, -, -, hkey⟩
  cases hkey

end Store

end AsterVec.PagedVectorStorage

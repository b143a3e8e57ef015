import AsterVec.PagedReading

/-!
Stores and reads by any number of threads.  With one storing thread for each section a
zero-filled buffer starts over an empty page; then a stored record can only be hidden by
a page image that was read before the record was written and is published after the
cache was refreshed with it.
-/

namespace AsterVec.PagedVectorStorage

open AsterVec.IdTypes
open AsterVec.Programs

variable {cfg : Config} {ι κ : Type} {requests : ι → Request cfg}

/-! Sections with one thread -/

/-- The section a call fills, until it has its slot. -/
def Stage.section? : Stage → Option Int
  | .sectioned sectionIdx => some sectionIdx
  | .pageless sectionIdx => some sectionIdx
  | .fresh sectionIdx _ => some sectionIdx
  | .granted sectionIdx _ _ => some sectionIdx
  | _ => none

/-- The page a call is the first to use. -/
def Stage.firstPage? : Stage → Option Nat
  | .fresh _ page => some page
  | .granted _ page 0 => some page
  | _ => none

/-- The section keys and their indices. -/
def Layout.keys (layout : Layout) : (Nat → Option Int) × List Nat :=
  (layout.sectionKeyToIdx, layout.sectionIdxToKey)

namespace Store

/-- No other call with the section key of call `i` is running. -/
def Alone (requests : ι → Request cfg) (i : ι) (stages : ι → Stage) : Prop :=
  ∀ j, (requests j).sectionKey = (requests i).sectionKey → Crowd.Running (stages j) → j = i

/-- No two section keys have one index. -/
def Distinct (st : Store cfg) : Prop :=
  ∀ key key' sectionIdx, st.sectionKeyToIdx key = some sectionIdx →
    st.sectionKeyToIdx key' = some sectionIdx → key = key'

def keys (st : Store cfg) : (Nat → Option Int) × List Nat := st.layout.keys

/-- The index of a section key is its place in the list of keys, as a 32-bit number. -/
def Numbered (st : Store cfg) : Prop :=
  ∀ key sectionIdx, st.keys.1 key = some sectionIdx →
    ∃ n, st.keys.2[n]? = some key ∧ sectionIdx = toInt32 n

theorem Numbered.of_keys {st st' : Store cfg} (hnumbered : st.Numbered)
    (hkeys : st'.keys = st.keys) : st'.Numbered := by
  unfold Numbered
  rw [hkeys]
  exact hnumbered

theorem Numbered.lookupSection {sectionKey : Nat} {st st' : Store cfg} {sectionIdx : Int}
    (hnumbered : st.Numbered)
    (hlookup : Store.lookupSection sectionKey st = some (sectionIdx, st')) :
    st'.Numbered := by
  unfold Store.lookupSection at hlookup
  split at hlookup
  · cases hlookup
    exact hnumbered
  · split at hlookup
    · cases hlookup
    · cases hlookup
      intro key found hfound
      change Function.update st.sectionKeyToIdx sectionKey _ key = some found at hfound
      change ∃ n, (st.sectionIdxToKey ++ [sectionKey])[n]? = some key ∧ _
      rcases eq_or_ne key sectionKey with rfl | hne
      · rw [Function.update_self] at hfound
        exact ⟨st.sectionIdxToKey.length, List.getElem?_concat_length,
          (Option.some.inj hfound).symm⟩
      · rw [Function.update_of_ne hne] at hfound
        obtain ⟨n, hn, hindex⟩ := hnumbered key found hfound
        refine ⟨n, ?_, hindex⟩
        have hlt : n < st.sectionIdxToKey.length := (List.getElem?_eq_some_iff.mp hn).1
        rw [List.getElem?_append_left hlt]
        exact hn

theorem toInt32_injective {m n : Nat} (hm : m < 2 ^ 32) (hn : n < 2 ^ 32)
    (hsame : toInt32 m = toInt32 n) : m = n := by
  have hmax : int32Max = 2 ^ 31 - 1 := rfl
  unfold toInt32 at hsame
  split at hsame <;> split at hsame <;> omega

/-- Indices do not come round before there are more than `2 ^ 32` keys. -/
theorem Numbered.distinct {st : Store cfg} (hnumbered : st.Numbered)
    (hlength : st.sectionIdxToKey.length ≤ 2 ^ 32) : st.Distinct := by
  intro key key' sectionIdx hkey hkey'
  obtain ⟨m, hm, hindex⟩ := hnumbered key sectionIdx hkey
  obtain ⟨n, hn, hindex'⟩ := hnumbered key' sectionIdx hkey'
  have hmlt := (List.getElem?_eq_some_iff.mp hm).1
  have hnlt := (List.getElem?_eq_some_iff.mp hn).1
  obtain rfl := toInt32_injective (hmlt.trans_le hlength) (hnlt.trans_le hlength)
    (hindex.symm.trans hindex')
  exact Option.some.inj (hm.symm.trans hn)

/-- Only the lookup of a section key changes the keys. -/
theorem storeStep_keys {request : Request cfg} {st st' : Store cfg} {stage stage' : Stage}
    (hsound : st.Sound) (hstep : storeStep request stage st = some (stage', st')) :
    st'.keys = st.keys ∨
      ∃ sectionIdx, lookupSection request.sectionKey st = some (sectionIdx, st') := by
  cases stage with
  | unlocated =>
      simp only [storeStep] at hstep
      cases hlookup : lookupSection request.sectionKey st with
      | none =>
          rw [hlookup] at hstep
          cases hstep
          exact .inl rfl
      | some entry =>
          rw [hlookup] at hstep
          cases hstep
          exact .inr ⟨_, rfl⟩
  | called =>
      obtain ⟨-, -, -, -, target, idToPage, idToSlotInPage, hst⟩ :=
        ensureDenseCapacity_spec hsound.fit request.id
      simp only [storeStep] at hstep
      cases hensure : st.ensureDenseCapacity request.id with
      | mk outcome grown =>
          rw [hensure] at hstep hst
          simp only at hst
          cases outcome <;> cases hstep <;> exact .inl (by rw [hst]; rfl)
  | grown | located _ =>
      simp only [storeStep] at hstep
      split at hstep <;> cases hstep <;> exact .inl rfl
  | sectioned sectionIdx =>
      have hsame : (takeSectionSlot sectionIdx st).2.keys = st.keys := by
        rcases takeSectionSlot_cases sectionIdx st with
          ⟨_, _, _, -, -, hlayout⟩ | ⟨_, _, _, _, -, -, -, -, -, -, hlayout⟩ |
          ⟨_, -, -, hlayout⟩
        all_goals
          exact (congrArg Layout.keys hlayout).trans rfl
      simp only [storeStep] at hstep
      split at hstep
      all_goals
        rename_i htake
        rw [htake] at hsame
        cases hstep
        exact .inl hsame
  | pageless sectionIdx =>
      simp only [storeStep] at hstep
      cases happend : appendPage sectionIdx st with
      | none =>
          rw [happend] at hstep
          cases hstep
          exact .inl rfl
      | some entry =>
          rw [happend] at hstep
          cases hstep
          obtain ⟨-, hlayout⟩ := appendPage_eq_some happend
          exact .inl ((congrArg Layout.keys hlayout).trans rfl)
  | fresh sectionIdx page =>
      cases hstep
      rcases layout_publishOpenPage sectionIdx page st with hlayout | hlayout
      all_goals
        exact .inl ((congrArg Layout.keys hlayout).trans rfl)
  | granted sectionIdx page slot =>
      simp only [storeStep] at hstep
      split at hstep
      · cases hstep
        exact .inl (congrArg Layout.keys (by simp))
      · cases hwrite : writeToSectionBufferLocked sectionIdx page slot request.record st with
        | none =>
            rw [hwrite] at hstep
            cases hstep
            exact .inl rfl
        | some taken =>
            obtain ⟨buffered, written⟩ := taken
            rw [hwrite] at hstep
            have hkeys := congrArg Layout.keys (layout_writeToSectionBufferLocked hwrite)
            cases buffered with
            | true | false =>
                cases hstep
                exact .inl hkeys
  | overwriting _ _ | overwritten _ _ | refreshed _ _ | refused _ _ | written _ _
  | cached _ _ =>
      cases hstep
      exact .inl (congrArg Layout.keys (by simp))
  | undeleted page slot =>
      have hkeys : (st.assignLocation request.id page slot).2.keys = st.keys := by
        unfold assignLocation
        repeat' split
        all_goals rfl
      simp only [storeStep] at hstep
      split at hstep
      all_goals
        rename_i hassign
        rw [hassign] at hkeys
        cases hstep
        exact .inl hkeys
  | returned _ _ | threw | undefined => cases hstep

theorem Numbered.step {request : Request cfg} {st st' : Store cfg} {stage stage' : Stage}
    (hnumbered : st.Numbered) (hsound : st.Sound)
    (hstep : storeStep request stage st = some (stage', st')) : st'.Numbered := by
  rcases storeStep_keys hsound hstep with hkeys | ⟨sectionIdx, hlookup⟩
  · exact hnumbered.of_keys hkeys
  · exact hnumbered.lookupSection hlookup

/-- A store without free slots, every page of which is in use. -/
structure Compact (st : Store cfg) : Prop where
  free : ∀ sectionIdx, st.layout.freeSlots sectionIdx = []
  used : ∀ page ∈ st.layout.pages, 0 < page.usedSlots

/-- What the allocator knows of the calls. -/
structure Allotted (requests : ι → Request cfg) (stages : ι → Stage) (st : Store cfg) :
    Prop where
  compact : st.Compact
  numbered : st.Numbered
  indexed : ∀ i sectionIdx, (stages i).section? = some sectionIdx →
    st.sectionKeyToIdx (requests i).sectionKey = some sectionIdx
  first : ∀ i page, (stages i).firstPage? = some page →
    ∀ j, j ≠ i → ∀ slot, (stages j).slot ≠ some (page, slot)

/-- What a step of a call does to sections and slots. -/
structure Allots (request : Request cfg) (stage stage' : Stage) (st st' : Store cfg) :
    Prop where
  compact : st'.Compact
  keeps : ∀ key sectionIdx, st.sectionKeyToIdx key = some sectionIdx →
    st'.sectionKeyToIdx key = some sectionIdx
  indexed : ∀ sectionIdx, stage'.section? = some sectionIdx →
    st'.sectionKeyToIdx request.sectionKey = some sectionIdx
  first : ∀ page, stage'.firstPage? = some page →
    stage.firstPage? = some page ∨ page = st.pages.length
  slot : ∀ page slot, stage'.slot = some (page, slot) →
    stage.slot = some (page, slot) ∨ page = st.pages.length ∨
      ∃ sectionIdx, stage = .sectioned sectionIdx ∧ page ∈ st.openPages sectionIdx

/-- A step after which the call has the slot it had before. -/
theorem Allots.of_lists {request : Request cfg} {stage stage' : Stage} {st st' : Store cfg}
    (hcompact : st.Compact) (hfree : st'.layout.freeSlots = st.layout.freeSlots)
    (hpages : st'.layout.pages = st.layout.pages)
    (hkeys : st'.sectionKeyToIdx = st.sectionKeyToIdx)
    (hsection : stage'.section? = none) (hfirst : stage'.firstPage? = none)
    (hslot : ∀ page slot, stage'.slot = some (page, slot) → stage.slot = some (page, slot)) :
    Allots request stage stage' st st' where
  compact := ⟨fun sectionIdx => by rw [hfree]; exact hcompact.free sectionIdx,
    fun page hpage => hcompact.used page (hpages ▸ hpage)⟩
  keeps := fun key sectionIdx h => by rwa [hkeys]
  indexed := fun sectionIdx h => by rw [hsection] at h; cases h
  first := fun page h => by rw [hfirst] at h; cases h
  slot := fun page slot h => .inl (hslot page slot h)

theorem Allots.of_layout {request : Request cfg} {stage stage' : Stage} {st st' : Store cfg}
    (hcompact : st.Compact) (hlayout : st'.layout = st.layout)
    (hsection : stage'.section? = none) (hfirst : stage'.firstPage? = none)
    (hslot : ∀ page slot, stage'.slot = some (page, slot) → stage.slot = some (page, slot)) :
    Allots request stage stage' st st' :=
  .of_lists hcompact (by rw [hlayout]) (by rw [hlayout])
    (congrArg Layout.sectionKeyToIdx hlayout) hsection hfirst hslot

theorem Compact.setOpen {st st' : Store cfg} (hcompact : st.Compact) {sectionIdx : Int}
    {pages : List Nat} (hlayout : st'.layout = st.layout.setOpen sectionIdx pages) :
    st'.Compact := by
  refine ⟨fun other => ?_, fun page hpage => ?_⟩
  · rw [hlayout]
    exact hcompact.free other
  · rw [hlayout] at hpage
    exact hcompact.used page hpage

theorem allots_unlocated {request : Request cfg} {st st' : Store cfg} {sectionIdx : Int}
    (hcompact : st.Compact)
    (hlookup : lookupSection request.sectionKey st = some (sectionIdx, st')) :
    Allots request .unlocated (.sectioned sectionIdx) st st' := by
  have hlayout := lookupSection_layout hlookup
  have hcompact' : st'.Compact := by
    refine ⟨fun other => ?_, fun page hpage => ?_⟩
    · rw [hlayout]
      exact hcompact.free other
    · rw [hlayout] at hpage
      exact hcompact.used page hpage
  have hkeys : (∀ key found, st.sectionKeyToIdx key = some found →
      st'.sectionKeyToIdx key = some found) ∧
        st'.sectionKeyToIdx request.sectionKey = some sectionIdx := by
    unfold lookupSection at hlookup
    split at hlookup
    · rename_i found hfound
      cases hlookup
      exact ⟨fun _ _ h => h, hfound⟩
    · rename_i hnone
      split at hlookup
      · cases hlookup
      · cases hlookup
        refine ⟨fun key found h => ?_, Function.update_self _ _ _⟩
        change Function.update st.sectionKeyToIdx request.sectionKey _ key = some found
        rw [Function.update_of_ne]
        · exact h
        · rintro rfl
          rw [hnone] at h
          cases h
  refine ⟨hcompact', hkeys.1, ?_, ?_, ?_⟩
  · rintro _ ⟨⟩
    exact hkeys.2
  · rintro _ ⟨⟩
  · rintro _ _ ⟨⟩

theorem allots_sectioned {request : Request cfg} {st st' : Store cfg} {stage' : Stage}
    {sectionIdx : Int} (hsound : st.Sound) (hcompact : st.Compact)
    (hindexed : st.sectionKeyToIdx request.sectionKey = some sectionIdx)
    (hstep : storeStep request (.sectioned sectionIdx) st = some (stage', st')) :
    Allots request (.sectioned sectionIdx) stage' st st' := by
  simp only [storeStep] at hstep
  rcases takeSectionSlot_cases sectionIdx st with
    ⟨pageId, slot, rest, hfree, -, -⟩ |
    ⟨pageId, rest, kept, used, -, hopen, hused, -, -, htaken, hlayout⟩ |
    ⟨kept, -, htaken, hlayout⟩
  · rw [show st.freeSlots sectionIdx = [] from hcompact.free sectionIdx] at hfree
    cases hfree
  · have hmem : pageId ∈ st.openPages sectionIdx := by
      rw [hopen]
      exact List.mem_cons_self
    obtain ⟨page, hpage, -⟩ := hsound.offers.open_page sectionIdx pageId hmem
    have hpos : 0 < used := by
      rw [← hused, show st.pages[pageId]? = some page from hpage]
      exact hcompact.used page (List.mem_of_getElem? hpage)
    cases htake : takeSectionSlot sectionIdx st with
    | mk taken next =>
        rw [htake] at htaken hlayout hstep
        cases htaken
        cases hstep
        refine ⟨⟨fun other => ?_, fun page' hpage' => ?_⟩, ?_, ?_, ?_, ?_⟩
        · rw [show st'.layout = _ from hlayout]
          exact hcompact.free other
        · rw [show st'.layout = _ from hlayout] at hpage'
          change page' ∈ st.layout.pages.modify pageId _ at hpage'
          obtain ⟨index, hindex, hget⟩ := List.getElem_of_mem hpage'
          have hsome : (st.layout.pages.modify pageId fun page =>
              { page with usedSlots := page.usedSlots + 1 })[index]? = some page' := by
            rw [List.getElem?_eq_getElem hindex, hget]
          rw [List.getElem?_modify] at hsome
          obtain ⟨before, hbefore, rfl⟩ := Option.map_eq_some_iff.mp hsome
          split
          · exact Nat.succ_pos _
          · exact hcompact.used before (List.mem_of_getElem? hbefore)
        · intro key found h
          rw [show st'.sectionKeyToIdx = st.sectionKeyToIdx from
            congrArg Layout.sectionKeyToIdx hlayout]
          exact h
        · rintro _ ⟨⟩
          rw [show st'.sectionKeyToIdx = st.sectionKeyToIdx from
            congrArg Layout.sectionKeyToIdx hlayout]
          exact hindexed
        · intro page' hfirst
          obtain ⟨n, rfl⟩ := Nat.exists_eq_succ_of_ne_zero hpos.ne'
          cases hfirst
        · rintro _ _ ⟨⟩
          exact .inr (.inr ⟨sectionIdx, rfl, hmem⟩)
  · cases htake : takeSectionSlot sectionIdx st with
    | mk taken next =>
        rw [htake] at htaken hlayout hstep
        cases htaken
        cases hstep
        have hkeys : st'.sectionKeyToIdx = st.sectionKeyToIdx :=
          congrArg Layout.sectionKeyToIdx hlayout
        refine ⟨hcompact.setOpen hlayout, fun key found h => by rwa [hkeys], ?_, ?_, ?_⟩
        · rintro _ ⟨⟩
          rwa [hkeys]
        · rintro _ ⟨⟩
        · rintro _ _ ⟨⟩

theorem allots_pageless {request : Request cfg} {st st' : Store cfg} {sectionIdx : Int}
    {page : Nat} (hcompact : st.Compact)
    (hindexed : st.sectionKeyToIdx request.sectionKey = some sectionIdx)
    (happend : appendPage sectionIdx st = some (page, st')) :
    Allots request (.pageless sectionIdx) (.fresh sectionIdx page) st st' := by
  obtain ⟨rfl, hlayout⟩ := appendPage_eq_some happend
  have hkeys : st'.sectionKeyToIdx = st.sectionKeyToIdx :=
    congrArg Layout.sectionKeyToIdx hlayout
  refine ⟨⟨fun other => ?_, fun page hpage => ?_⟩, fun key found h => by rwa [hkeys], ?_,
    ?_, ?_⟩
  · rw [hlayout]
    exact hcompact.free other
  · rw [hlayout] at hpage
    rcases List.mem_append.mp hpage with hold | hnew
    · exact hcompact.used page hold
    · rw [List.mem_singleton.mp hnew]
      exact Nat.one_pos
  · rintro _ ⟨⟩
    rwa [hkeys]
  · rintro _ ⟨⟩
    exact .inr rfl
  · rintro _ _ ⟨⟩
    exact .inr (.inl rfl)

theorem allots_fresh {request : Request cfg} {st : Store cfg} {sectionIdx : Int}
    {page : Nat} (hcompact : st.Compact)
    (hindexed : st.sectionKeyToIdx request.sectionKey = some sectionIdx) :
    Allots request (.fresh sectionIdx page) (.granted sectionIdx page 0) st
      (publishOpenPage sectionIdx page st) := by
  have hsame : (publishOpenPage sectionIdx page st).Compact ∧
      (publishOpenPage sectionIdx page st).sectionKeyToIdx = st.sectionKeyToIdx := by
    rcases layout_publishOpenPage sectionIdx page st with hlayout | hlayout
    · exact ⟨⟨fun other => by rw [hlayout]; exact hcompact.free other,
        fun page' hpage => hcompact.used page' (by rwa [hlayout] at hpage)⟩,
        congrArg Layout.sectionKeyToIdx hlayout⟩
    · exact ⟨hcompact.setOpen hlayout, congrArg Layout.sectionKeyToIdx hlayout⟩
  obtain ⟨hcompact', hkeys⟩ := hsame
  refine ⟨hcompact', fun key found h => by rwa [hkeys], ?_, fun _ h => .inl h,
    fun _ _ h => .inl h⟩
  rintro _ ⟨⟩
  rwa [hkeys]

theorem storeStep_allots {request : Request cfg} {st st' : Store cfg}
    {stage stage' : Stage} (hsound : st.Sound) (hcompact : st.Compact)
    (hfollows : Follows request st stage)
    (hindexed : ∀ sectionIdx, stage.section? = some sectionIdx →
      st.sectionKeyToIdx request.sectionKey = some sectionIdx)
    (hstep : storeStep request stage st = some (stage', st')) :
    Allots request stage stage' st st' := by
  cases stage with
  | called =>
      obtain ⟨-, -, -, -, target, idToPage, idToSlotInPage, hst⟩ :=
        ensureDenseCapacity_spec hsound.fit request.id
      simp only [storeStep] at hstep
      cases hensure : st.ensureDenseCapacity request.id with
      | mk outcome grown =>
          rw [hensure] at hstep hst
          simp only at hst
          cases outcome with
          | returned _ | threw | undefined =>
              cases hstep
              exact .of_lists hcompact (by rw [hst]; rfl) (by rw [hst]; rfl) (by rw [hst])
                rfl rfl (by rintro _ _ ⟨⟩)
  | grown =>
      simp only [storeStep] at hstep
      split at hstep <;> cases hstep <;>
        exact .of_layout hcompact rfl rfl rfl (by rintro _ _ ⟨⟩)
  | unlocated =>
      simp only [storeStep] at hstep
      cases hlookup : lookupSection request.sectionKey st with
      | none =>
          rw [hlookup] at hstep
          cases hstep
          exact .of_layout hcompact rfl rfl rfl (by rintro _ _ ⟨⟩)
      | some entry =>
          rw [hlookup] at hstep
          cases hstep
          exact allots_unlocated hcompact hlookup
  | sectioned sectionIdx =>
      exact allots_sectioned hsound hcompact (hindexed sectionIdx rfl) hstep
  | pageless sectionIdx =>
      simp only [storeStep] at hstep
      cases happend : appendPage sectionIdx st with
      | none =>
          rw [happend] at hstep
          cases hstep
          exact .of_layout hcompact rfl rfl rfl (by rintro _ _ ⟨⟩)
      | some entry =>
          rw [happend] at hstep
          cases hstep
          exact allots_pageless hcompact (hindexed sectionIdx rfl) happend
  | fresh sectionIdx page =>
      cases hstep
      exact allots_fresh hcompact (hindexed sectionIdx rfl)
  | granted sectionIdx page slot =>
      simp only [storeStep] at hstep
      split at hstep
      · cases hstep
        exact .of_layout hcompact (by simp) rfl rfl fun _ _ h => h
      · cases hwrite : writeToSectionBufferLocked sectionIdx page slot request.record st with
        | none =>
            rw [hwrite] at hstep
            cases hstep
            exact .of_layout hcompact rfl rfl rfl (by rintro _ _ ⟨⟩)
        | some taken =>
            obtain ⟨buffered, written⟩ := taken
            rw [hwrite] at hstep
            have hlayout := layout_writeToSectionBufferLocked hwrite
            cases buffered with
            | true | false =>
                cases hstep
                exact .of_layout hcompact hlayout rfl rfl fun _ _ h => h
  | refused page slot | written page slot | cached page slot =>
      cases hstep
      exact .of_layout hcompact (by simp) rfl rfl fun _ _ h => h
  | undeleted page slot =>
      obtain ⟨-, hfree, hpages⟩ := lists_assignLocation st request.id page slot
      have hkeys : (st.assignLocation request.id page slot).2.sectionKeyToIdx =
          st.sectionKeyToIdx := by
        unfold assignLocation
        repeat' split
        all_goals rfl
      simp only [storeStep] at hstep
      cases hassign : st.assignLocation request.id page slot with
      | mk outcome assigned =>
          rw [hassign] at hstep hfree hpages hkeys
          cases outcome with
          | returned _ =>
              cases hstep
              exact .of_lists hcompact hfree hpages hkeys rfl rfl fun _ _ h => h
          | threw | undefined =>
              cases hstep
              exact .of_lists hcompact hfree hpages hkeys rfl rfl (by rintro _ _ ⟨⟩)
  | returned _ _ | threw => cases hstep
  | located _ | overwriting _ _ | overwritten _ _ | refreshed _ _ | undefined =>
      exact hfollows.elim

theorem Stage.slot_of_firstPage {stage : Stage} {page : Nat}
    (hfirst : stage.firstPage? = some page) :
    (∃ sectionIdx, stage.section? = some sectionIdx ∧
      (stage = .fresh sectionIdx page ∨ stage = .granted sectionIdx page 0)) ∧
      stage.slot = some (page, 0) ∧ Crowd.Running stage := by
  cases stage with
  | fresh sectionIdx page' =>
      cases hfirst
      exact ⟨⟨sectionIdx, rfl, .inl rfl⟩, rfl, trivial⟩
  | granted sectionIdx page' slot =>
      cases slot with
      | zero =>
          cases hfirst
          exact ⟨⟨sectionIdx, rfl, .inr rfl⟩, rfl, trivial⟩
      | succ slot => cases hfirst
  | _ => cases hfirst

theorem Owns.page_lt {st : Store cfg} {sectionIdx : Int} {page slot : Nat}
    (howns : st.Owns sectionIdx page slot) : page < st.pages.length := by
  obtain ⟨found, hfound, -⟩ := howns.inUse
  exact (List.getElem?_eq_some_iff.mp hfound).1

theorem Allotted.step [DecidableEq ι] {stages : ι → Stage} {st st' : Store cfg}
    (hallotted : Allotted requests stages st) (hall : AllFollow requests stages st) {i : ι}
    {stage : Stage} (halone : Alone requests i stages)
    (hlength : st.sectionIdxToKey.length ≤ 2 ^ 32)
    (hstep : storeStep (requests i) (stages i) st = some (stage, st')) :
    Allotted requests (Function.update stages i stage) st' := by
  have hallots := storeStep_allots hall.sound hallotted.compact (hall.follows i)
    (hallotted.indexed i) hstep
  have hdistinct := hallotted.numbered.distinct hlength
  refine ⟨hallots.compact, hallotted.numbered.step hall.sound hstep, ?_, ?_⟩
  · intro j sectionIdx hsection
    rcases eq_or_ne j i with rfl | hne
    · rw [Function.update_self] at hsection
      exact hallots.indexed sectionIdx hsection
    · rw [Function.update_of_ne hne] at hsection
      exact hallots.keeps _ _ (hallotted.indexed j sectionIdx hsection)
  · intro k page hfirst j hne slot hslot
    rcases eq_or_ne k i with rfl | hki
    · rw [Function.update_self] at hfirst
      rw [Function.update_of_ne hne] at hslot
      rcases hallots.first page hfirst with hbefore | rfl
      · exact hallotted.first k page hbefore j hne slot hslot
      · obtain ⟨sectionIdx, howns⟩ := (hall.follows j).owns hslot
        exact absurd howns.page_lt (Nat.lt_irrefl _)
    · rw [Function.update_of_ne hki] at hfirst
      obtain ⟨⟨own, hown, hstage⟩, hkslot, hrunning⟩ := Stage.slot_of_firstPage hfirst
      rcases eq_or_ne j i with rfl | hji
      · rw [Function.update_self] at hslot
        rcases hallots.slot page slot hslot with hbefore | rfl | ⟨sectionIdx, hsectioned, hopen⟩
        · exact hallotted.first k page hfirst j hne slot hbefore
        · obtain ⟨sectionIdx, howns⟩ := (hall.follows k).owns hkslot
          exact absurd howns.page_lt (Nat.lt_irrefl _)
        · -- The page is open in the section of the call that is the first to use it.
          obtain ⟨found, hfound, hsame⟩ :=
            hall.sound.offers.open_page sectionIdx page hopen
          have howns : st.Owns own page 0 := by
            have hfollows := hall.follows k
            rcases hstage with hstage | hstage
            · rw [hstage] at hfollows
              exact hfollows.2
            · rw [hstage] at hfollows
              exact hfollows.2
          obtain ⟨found', hfound', hsame', -⟩ := howns.inUse
          have hpages : found = found' := Option.some.inj (hfound.symm.trans hfound')
          have hsections : own = sectionIdx := by rw [← hsame', ← hpages, hsame]
          have hkey := hallotted.indexed k own hown
          have hkey' := hallotted.indexed j sectionIdx (by rw [hsectioned]; rfl)
          rw [hsections] at hkey
          exact hki (halone k (hdistinct _ _ _ hkey hkey') hrunning)
      · rw [Function.update_of_ne hji] at hslot
        exact hallotted.first k page hfirst j hne slot hslot

theorem Allotted.of_layout {stages : ι → Stage} {st st' : Store cfg}
    (hallotted : Allotted requests stages st) (hlayout : st'.layout = st.layout) :
    Allotted requests stages st' := by
  have hkeys : st'.sectionKeyToIdx = st.sectionKeyToIdx :=
    congrArg Layout.sectionKeyToIdx hlayout
  refine ⟨⟨?_, ?_⟩, hallotted.numbered.of_keys (congrArg Layout.keys hlayout), ?_,
    hallotted.first⟩
  · rw [hlayout]
    exact hallotted.compact.free
  · rw [hlayout]
    exact hallotted.compact.used
  · rw [hkeys]
    exact hallotted.indexed

/-- A checkpoint writes the buffers out and drops them. -/
theorem syncData_spec {st : Store cfg} (hwf : st.WellFormed) :
    st.syncData.WellFormed ∧ (∀ page, Keeps page st st.syncData) ∧
      (∀ sectionIdx, st.syncData.writeBuf sectionIdx = none) ∧
        st.syncData.layout = st.layout := by
  obtain ⟨hafter, hkeeps, hnone⟩ := flushWrites_spec hwf
  exact ⟨hafter, hkeeps, hnone, layout_flushWrites st⟩

/-- The first call to use a page finds it empty. -/
theorem Allotted.safeStart {stages : ι → Stage} {st : Store cfg}
    (hallotted : Allotted requests stages st) (i : ι) : SafeStart i stages st := by
  rintro page ⟨sectionIdx, hstage, -⟩ j hne slot hsettled
  refine hallotted.first i page (by rw [hstage]; rfl) j hne slot ?_
  revert hsettled
  generalize stages j = stage
  cases stage <;> first | exact id | (rintro ⟨⟩)

end Store

namespace Crowd

open Store

/-! Runs -/

/-- What is asked of the steps of calls: one call at a time for a section key, no more
keys than there are indices, and no image under way that lacks a record the cache is
refreshed with. -/
structure Orderly (requests : ι → Request cfg) (i : ι) (g : Shared cfg ι κ) : Prop where
  alone : Alone requests i g.stages
  keys : g.st.sectionIdxToKey.length ≤ 2 ^ 32
  update : SafeUpdate requests i g

/-- A checkpoint between the calls. -/
theorem Good.syncs {g : Shared cfg ι κ} (hgood : Good requests g)
    (hquiet : ∀ i, ¬ Running (g.stages i)) :
    Later requests g { g with st := g.st.syncData } := by
  have hsound := hgood.all.sound
  obtain ⟨hwf, hkeeps, hnone, hlayout⟩ := syncData_spec hsound.wellFormed
  generalize g.st.syncData = st' at hwf hkeeps hnone hlayout ⊢
  have htables := sameTables_of_layout_eq hlayout
  have hdirect : ∀ page, Direct g page → Direct { g with st := st' } page := by
    rintro page ⟨hreturned, -⟩
    refine ⟨hreturned, (bufferHolding_eq_none_iff hwf.buffers).mpr ?_⟩
    intro sectionIdx swb hbuf
    rw [hnone sectionIdx] at hbuf
    cases hbuf
  refine ⟨⟨⟨hsound.of_layout hwf hlayout, fun i => ?_, hgood.all.unshared⟩, ?_, ?_⟩,
    fun _ _ _ h => h, hdirect⟩
  · have hfollows := hgood.all.follows i
    have hrest := hquiet i
    change Follows (requests i) st' (g.stages i)
    generalize g.stages i = stage at hfollows hrest ⊢
    cases stage with
    | called => exact (htables.location _).2.trans hfollows
    | returned page slot =>
        obtain ⟨hlocation, ⟨sectionIdx, howns⟩, hholds⟩ := hfollows
        exact ⟨(htables.location _).1.trans hlocation,
          ⟨sectionIdx, howns.of_layout hlayout⟩,
          (hkeeps page).holds (howns.slot_lt hsound.offers) hholds⟩
    | threw => trivial
    | undefined => exact hfollows
    | _ => exact absurd trivial hrest
  · intro j page slot hslot
    have hheld : (g.stages j).slot = some (page, slot) := by
      revert hslot
      change (g.stages j).refreshedSlot = _ → _
      generalize g.stages j = stage
      cases stage <;> first | exact id | (rintro ⟨⟩)
    obtain ⟨sectionIdx, howns⟩ := (hgood.all.follows j).owns hheld
    exact (hkeeps page).contains (howns.slot_lt hsound.offers) (hgood.contains j page slot hslot)
  · intro r page image hstaged
    obtain ⟨hmax, hpage, himage⟩ := hgood.staged r page image hstaged
    exact ⟨hmax, hdirect page hpage, himage⟩

/-- The outcome of a read: the records stored for its ids. -/
def ReadsStored (requests : ι → Request cfg) (ids : List Nat)
    (outcome : Outcome (List (Record cfg))) : Prop :=
  ∃ records, outcome = .returned records ∧
    List.Forall₂ (fun id record => ∃ j, (requests j).id = id ∧ (requests j).record = record)
      ids records

theorem exists_known {g : Shared cfg ι κ} {ids : List Nat}
    (hpublished : ∀ id ∈ ids, Published requests g.stages id) :
    ∃ records, List.Forall₂ (fun id record => Known requests g id record) ids records := by
  induction ids with
  | nil => exact ⟨[], .nil⟩
  | cons id ids ih =>
      obtain ⟨records, hrest⟩ := ih fun other hother =>
        hpublished other (List.mem_cons_of_mem _ hother)
      obtain ⟨j, page, slot, hid, hreturned⟩ := hpublished id List.mem_cons_self
      exact ⟨(requests j).record :: records, .cons ⟨j, page, slot, hid, hreturned, rfl⟩ hrest⟩

variable [DecidableEq κ]

/-- What holds of a crowd. -/
structure Sane (requests : ι → Request cfg) (c : Crowd cfg ι κ) : Prop where
  good : Good requests c.shared
  allotted : Allotted requests c.shared.stages c.shared.st
  readers : ∀ r read rest, c.readers r = .reading read rest →
    Proceeds requests r rest (fun outcome _ => ReadsStored requests read.ids outcome) c.shared

/-- A read of published ids returns what was stored for them. -/
theorem proceeds_program {r : κ} {g : Shared cfg ι κ} (hgood : Good requests g) {read : Read}
    (hpublished : ∀ id ∈ read.ids, Published requests g.stages id) :
    Proceeds requests r read.program
      (fun outcome _ => ReadsStored requests read.ids outcome) g := by
  obtain ⟨records, hknown⟩ := exists_known hpublished
  have hstored : ReadsStored requests read.ids (.returned records) := by
    refine ⟨records, rfl, hknown.imp ?_⟩
    rintro id record ⟨j, -, -, hid, -, hrecord⟩
    exact ⟨j, hid, hrecord⟩
  cases read with
  | one id =>
      rcases hknown with _ | ⟨hfirst, hrest⟩
      cases hrest
      apply (proceeds_readVectorFromDisk hfirst).mono
      rintro _ _ rfl
      exact hstored
  | batch ids =>
      apply (proceeds_readVectorsBatchFlat hgood hknown).mono
      rintro _ _ rfl
      exact hstored

section Steps

variable [DecidableEq ι]

theorem Sane.step {c c' : Crowd cfg ι κ} (hsane : Sane requests c)
    (hdistinct : Function.Injective fun i => (requests i).id)
    (hstep : Step requests (Orderly requests) c c') : Sane requests c' := by
  obtain ⟨hgood, hallotted, hreaders⟩ := hsane
  cases hstep with
  | stores g readers i horderly hstep =>
      have hlater := hgood.stores hdistinct ⟨hallotted.safeStart i, horderly.update⟩ hstep
      refine ⟨hlater.good,
        hallotted.step hgood.all horderly.alone horderly.keys hstep, ?_⟩
      intro r read rest hreading
      exact (hreaders r read rest hreading).later hlater rfl
  | begins g readers r read hfree hpublished =>
      refine ⟨hgood, hallotted, ?_⟩
      intro r' read' rest hreading
      change Function.update readers r _ r' = _ at hreading
      rcases eq_or_ne r' r with rfl | hne
      · rw [Function.update_self] at hreading
        cases hreading
        exact proceeds_program hgood hpublished
      · rw [Function.update_of_ne hne] at hreading
        exact hreaders r' read' rest hreading
  | calls g readers r read c next hreading =>
      obtain ⟨hlater, hothers, hnext⟩ := hreaders r read _ hreading g hgood.later rfl
      have hstages : (Shared.exec r c g).2.stages = g.stages ∧
          (Shared.exec r c g).2.st.layout = g.st.layout := by
        cases c with
        | publishPage =>
            unfold Shared.exec
            simp only
            split
            · exact ⟨rfl, rfl⟩
            · exact ⟨rfl, layout_publishPage _ _ _⟩
        | _ => exact ⟨rfl, rfl⟩
      refine ⟨hlater.good, ?_, ?_⟩
      · rw [hstages.1]
        exact hallotted.of_layout hstages.2
      · intro r' read' rest hreading'
        change Function.update readers r _ r' = _ at hreading'
        rcases eq_or_ne r' r with rfl | hne
        · rw [Function.update_self] at hreading'
          cases hreading'
          exact hnext
        · rw [Function.update_of_ne hne] at hreading'
          exact (hreaders r' read' rest hreading').later hlater (hothers r' hne)
  | syncs g readers hquiet =>
      have hlater := hgood.syncs hquiet
      obtain ⟨-, -, -, hlayout⟩ := syncData_spec hgood.all.sound.wellFormed
      exact ⟨hlater.good, hallotted.of_layout hlayout,
        fun r read rest hreading => (hreaders r read rest hreading).later hlater rfl⟩

end Steps

/-- Nothing is stored in a new store. -/
theorem hasLocation_construct {capacity : Nat} {file : ByteBuffer.ByteFile}
    {deletedFlags : Nat → Bool} {st : Store cfg}
    (hconstruct : construct cfg capacity file deletedFlags = some st) (id : Nat) :
    st.hasLocation id = false := by
  unfold construct at hconstruct
  split at hconstruct
  · cases hconstruct
  · cases hconstruct
    unfold hasLocation pageOf
    split
    · split
      · rename_i hlt
        change id < capacity at hlt
        change ((List.replicate capacity (-1 : Int))[id]?).elim _ _ = _
        rw [List.getElem?_replicate, if_pos hlt]
        rfl
      · change decide (0 ≤ (List.replicate capacity (-1 : Int)).getD id (-1)) = _
        rw [List.getD_eq_getElem?_getD, List.getElem?_replicate]
        split <;> rfl
    · rfl

theorem sane_start {capacity : Nat} {file : ByteBuffer.ByteFile}
    {deletedFlags : Nat → Bool} {st : Store cfg}
    (hconstruct : construct cfg capacity file deletedFlags = some st) :
    Sane requests (start st : Crowd cfg ι κ) := by
  have hsound := sound_construct hconstruct
  have hnone := hasLocation_construct hconstruct
  unfold construct at hconstruct
  split at hconstruct
  · cases hconstruct
  · cases hconstruct
    refine ⟨⟨⟨hsound, fun i => hnone _, ?_⟩, ?_, ?_⟩, ⟨⟨?_, ?_⟩, ?_, ?_, ?_⟩, ?_⟩
    · rintro _ _ _ _ ⟨⟩
    · rintro _ _ _ ⟨⟩
    · rintro _ _ _ ⟨⟩
    · exact fun _ => rfl
    · rintro _ ⟨⟩
    · rintro _ _ ⟨⟩
    · rintro _ _ ⟨⟩
    · rintro _ _ ⟨⟩
    · rintro _ _ _ ⟨⟩

variable [DecidableEq ι]

/-- However calls that store and reads of published ids are interleaved: a read returns
the records that were stored, when no page image that is under way lacks a record the
cache has been refreshed with. -/
theorem reads_stored {capacity : Nat} {file : ByteBuffer.ByteFile} {deletedFlags : Nat → Bool}
    {st : Store cfg} (hconstruct : construct cfg capacity file deletedFlags = some st)
    (hdistinct : Function.Injective fun i => (requests i).id) {c : Crowd cfg ι κ}
    (hrun : Relation.ReflTransGen (Step requests (Orderly requests)) (start st) c) :
    ∀ r read outcome, c.readers r = .reading read (.done outcome) →
      ReadsStored requests read.ids outcome := by
  have hsane : Sane requests c := by
    induction hrun with
    | refl => exact sane_start hconstruct
    | tail _ hstep ih => exact ih.step hdistinct hstep
  exact fun r read outcome hreading => hsane.readers r read _ hreading

/-! Runs that are given by their moves -/

instance : DecidablePred Running := fun stage => by
  cases stage <;> first | exact isTrue trivial | exact isFalse id

/-- A step by its author; a reader begins with the id that call `j` stored. -/
inductive Move (ι κ : Type) where
  | stores (i : ι)
  | begins (r : κ) (j : ι)
  | calls (r : κ)
  | syncs

/-- The crowd after a move that `check` lets pass. -/
def move [Fintype ι] (requests : ι → Request cfg) (check : ι → Shared cfg ι κ → Bool)
    (c : Crowd cfg ι κ) : Move ι κ → Option (Crowd cfg ι κ)
  | .stores i =>
      match Store.storeStep (requests i) (c.shared.stages i) c.shared.st with
      | none => none
      | some (stage, st) =>
          if check i c.shared then
            some ⟨{ c.shared with stages := Function.update c.shared.stages i stage, st := st },
              c.readers⟩
          else none
  | .begins r j =>
      match c.readers r, c.shared.stages j with
      | .idle, .returned _ _ =>
          some ⟨c.shared, Function.update c.readers r
            (.reading (.one (requests j).id) (Read.program (.one (requests j).id)))⟩
      | _, _ => none
  | .calls r =>
      match c.readers r with
      | .reading read (.call call next) =>
          some ⟨(Shared.exec r call c.shared).2, Function.update c.readers r
            (.reading read (next (Shared.exec r call c.shared).1))⟩
      | _ => none
  | .syncs =>
      if ∀ i, ¬ Running (c.shared.stages i) then
        some ⟨{ c.shared with st := c.shared.st.syncData }, c.readers⟩
      else none

def moves [Fintype ι] (requests : ι → Request cfg) (check : ι → Shared cfg ι κ → Bool) :
    List (Move ι κ) → Crowd cfg ι κ → Option (Crowd cfg ι κ)
  | [], c => some c
  | first :: rest, c => (move requests check c first).bind (moves requests check rest)

theorem step_of_move [Fintype ι] {check : ι → Shared cfg ι κ → Bool}
    {Allowed : ι → Shared cfg ι κ → Prop} (hcheck : ∀ i g, check i g = true → Allowed i g)
    {c c' : Crowd cfg ι κ} {m : Move ι κ} (hmove : move requests check c m = some c') :
    Step requests Allowed c c' := by
  obtain ⟨g, readers⟩ := c
  cases m with
  | stores i =>
      simp only [move] at hmove
      split at hmove
      · cases hmove
      · rename_i hstep
        split at hmove
        · rename_i hpass
          cases hmove
          exact .stores g readers i (hcheck i g hpass) hstep
        · cases hmove
  | begins r j =>
      simp only [move] at hmove
      split at hmove
      · rename_i page slot hidle hreturned
        cases hmove
        refine .begins g readers r _ (.inl hidle) ?_
        intro id hid
        rw [List.mem_singleton.mp hid]
        exact ⟨j, page, slot, rfl, hreturned⟩
      · cases hmove
  | calls r =>
      simp only [move] at hmove
      split at hmove
      · rename_i hreading
        cases hmove
        exact .calls g readers r _ _ _ hreading
      · cases hmove
  | syncs =>
      simp only [move] at hmove
      split at hmove
      · rename_i hquiet
        cases hmove
        exact .syncs g readers hquiet
      · cases hmove

theorem run_of_moves [Fintype ι] {check : ι → Shared cfg ι κ → Bool}
    {Allowed : ι → Shared cfg ι κ → Prop} (hcheck : ∀ i g, check i g = true → Allowed i g)
    {ms : List (Move ι κ)} {c c' : Crowd cfg ι κ}
    (hmoves : moves requests check ms c = some c') :
    Relation.ReflTransGen (Step requests Allowed) c c' := by
  induction ms generalizing c with
  | nil =>
      cases hmoves
      exact .refl
  | cons first rest ih =>
      obtain ⟨between, hfirst, hrest⟩ := Option.bind_eq_some_iff.mp hmoves
      exact .head (step_of_move hcheck hfirst) (ih hrest)

/-- The thread has its section to itself, and there are indices left. -/
def sectionsFree [Fintype ι] (requests : ι → Request cfg) (i : ι) (g : Shared cfg ι κ) :
    Bool :=
  decide (∀ j, (requests j).sectionKey = (requests i).sectionKey → Running (g.stages j) →
    j = i) && decide (g.st.sectionIdxToKey.length ≤ 2 ^ 32)

/-- Besides, no page is being loaded. -/
def loadsOver [Fintype ι] [Fintype κ] (requests : ι → Request cfg) (i : ι)
    (g : Shared cfg ι κ) : Bool :=
  sectionsFree requests i g && decide (∀ r, (g.staging r).isNone)

omit [DecidableEq κ] in
theorem alone_of_sectionsFree [Fintype ι] {i : ι} {g : Shared cfg ι κ}
    (hfree : sectionsFree requests i g = true) : Alone requests i g.stages := by
  obtain ⟨halone, -⟩ := Bool.and_eq_true_iff.mp hfree
  exact fun j => of_decide_eq_true halone j

omit [DecidableEq κ] in
theorem orderly_of_loadsOver [Fintype ι] [Fintype κ] {i : ι} {g : Shared cfg ι κ}
    (hover : loadsOver requests i g = true) : Orderly requests i g := by
  obtain ⟨hfree, hstaging⟩ := Bool.and_eq_true_iff.mp hover
  obtain ⟨-, hkeys⟩ := Bool.and_eq_true_iff.mp hfree
  refine ⟨alone_of_sectionsFree hfree, of_decide_eq_true hkeys, ?_⟩
  intro page slot _ r image hstaged
  have hnone := of_decide_eq_true hstaging r
  rw [hstaged] at hnone
  cases hnone

/-- A store with a cache of one page. -/
def cachedConfig : Config := ⟨1, 1, 0, Nat.one_pos, oneDim_fits⟩

def cachedStore : Store cachedConfig :=
  (Store.construct cachedConfig 2 ByteBuffer.ByteFile.empty fun _ => false).get rfl

theorem construct_cachedStore :
    Store.construct cachedConfig 2 ByteBuffer.ByteFile.empty (fun _ => false) =
      some cachedStore := (Option.some_get _).symm

/-- Two calls with one section key. -/
def writers (second : Bool) : Request cachedConfig :=
  if second then ⟨1, ⟨List.replicate 9 2, rfl⟩, 7⟩ else ⟨0, ⟨List.replicate 9 1, rfl⟩, 7⟩

theorem writers_distinct : Function.Injective fun i => (writers i).id := by decide

/-- The first record is stored and checkpointed and its page loaded; then the second
record is stored in that page and read. -/
def loadedBefore : List (Move Bool Bool) :=
  List.replicate 10 (.stores false) ++ [.syncs, .begins false false] ++
    List.replicate 8 (.calls false) ++ List.replicate 9 (.stores true) ++
    .begins true true :: List.replicate 3 (.calls true)

/-- The second record is stored while the page is being loaded. -/
def loadedAround : List (Move Bool Bool) :=
  List.replicate 10 (.stores false) ++ [.syncs, .begins false false] ++
    List.replicate 5 (.calls false) ++ List.replicate 9 (.stores true) ++
    List.replicate 3 (.calls false) ++ .begins true true :: List.replicate 3 (.calls true)

def afterLoad : Crowd cachedConfig Bool Bool :=
  (moves writers (loadsOver writers) loadedBefore (start cachedStore)).get (by decide +kernel)

theorem moves_afterLoad :
    moves writers (loadsOver writers) loadedBefore (start cachedStore) = some afterLoad :=
  (Option.some_get _).symm

theorem afterLoad_found :
    (afterLoad.readers true).found? = some ([1], .returned [(writers true).record]) := by
  decide +kernel

theorem reads_afterLoad :
    ∃ read, afterLoad.readers true = .reading read (.done (.returned [(writers true).record])) ∧
      ReadsStored writers read.ids (.returned [(writers true).record]) := by
  obtain ⟨read, -, hreading⟩ := Reader.found?_eq_some.mp afterLoad_found
  have hrun := run_of_moves (fun _ _ => orderly_of_loadsOver) moves_afterLoad
  exact ⟨read, hreading, reads_stored construct_cachedStore writers_distinct hrun true read _
    hreading⟩

def aroundLoad : Crowd cachedConfig Bool Bool :=
  (moves writers (sectionsFree writers) loadedAround (start cachedStore)).get
    (by decide +kernel)

theorem moves_aroundLoad :
    moves writers (sectionsFree writers) loadedAround (start cachedStore) =
      some aroundLoad := (Option.some_get _).symm

/-- The page that was read before the second record was written hides it. -/
theorem aroundLoad_found : (aroundLoad.readers true).found? =
    some ([1], .returned [⟨List.replicate 9 0, rfl⟩]) := by
  decide +kernel

theorem staleLoad_hidesRecord :
    ¬∀ c : Crowd cachedConfig Bool Bool,
      Relation.ReflTransGen (Step writers fun i g => Alone writers i g.stages)
        (start cachedStore) c →
      ∀ r read outcome, c.readers r = .reading read (.done outcome) →
        ReadsStored writers read.ids outcome := by
  intro hclaim
  obtain ⟨read, hids, hreading⟩ := Reader.found?_eq_some.mp aroundLoad_found
  have hrun := run_of_moves (fun _ _ => alone_of_sectionsFree) moves_aroundLoad
  obtain ⟨records, hrecords, hstored⟩ := hclaim _ hrun true read _ hreading
  cases hrecords
  rw [hids] at hstored
  cases hstored with
  | cons hfirst _ =>
      obtain ⟨j, hid, hrecord⟩ := hfirst
      revert j
      decide

end Crowd

end AsterVec.PagedVectorStorage

import AsterVec.PagedBuffers

/-!
The page cache of a well-formed store: every cached page has a slot of its own.
What a step does to the cached pages is stated as the cached image of each page
after it.
-/

namespace AsterVec.PagedVectorStorage

open AsterVec.ByteBuffer
open AsterVec.IdTypes

variable {cfg : Config}

namespace Store

/-- The slot a page is published in holds that page. -/
structure CacheWellFormed (st : Store cfg) : Prop where
  mapped : ∀ pageId cs, st.pageToSlot pageId = some cs →
    cs < st.cachedCount ∧
      ∃ buf, st.cacheSlots[cs]? = some buf ∧ buf.pageId = some pageId
  count_le : st.cachedCount ≤ cfg.maxCachedPages
  count_le_slots : st.cachedCount ≤ st.cacheSlots.length
  hand_lt : 0 < cfg.maxCachedPages → st.fifoHand < cfg.maxCachedPages

/-- The cached copy of a page. -/
def cachedImage (st : Store cfg) (pageId : Nat) : Option Buffer :=
  (st.pageToSlot pageId).bind fun cs => (st.cacheSlots[cs]?).map PageBuf.data

theorem tryReadFromCache_eq (st : Store cfg) {pageId slot : Nat}
    (hwf : st.CacheWellFormed) (hslot : slot < cfg.vectorsPerPage) :
    st.tryReadFromCache pageId slot =
      (st.cachedImage pageId).map fun image => recordAt cfg image slot := by
  have hfits := cfg.slot_fits hslot
  unfold tryReadFromCache cachedImage
  cases hmap : st.pageToSlot pageId with
  | none => simp
  | some cs =>
      have hcount := (hwf.mapped pageId cs hmap).1
      have hle := hwf.count_le
      rw [if_neg (by omega)]
      simp only [if_neg (Nat.not_lt.mpr hfits), Option.bind_some, Option.map_map]
      rfl

theorem CacheWellFormed.slot_unique {st : Store cfg} (hwf : st.CacheWellFormed)
    {pageId other cs : Nat} (hmap : st.pageToSlot pageId = some cs)
    (hmap' : st.pageToSlot other = some cs) : pageId = other := by
  obtain ⟨-, buf, hbuf, hpage⟩ := hwf.mapped pageId cs hmap
  obtain ⟨-, buf', hbuf', hpage'⟩ := hwf.mapped other cs hmap'
  rw [hbuf] at hbuf'
  cases hbuf'
  exact Option.some.inj (hpage.symm.trans hpage')

theorem CacheWellFormed.image_of_mapped {st : Store cfg}
    (hwf : st.CacheWellFormed) {pageId cs : Nat}
    (hmap : st.pageToSlot pageId = some cs) :
    ∃ buf, st.cacheSlots[cs]? = some buf ∧ st.cachedImage pageId = some buf.data := by
  obtain ⟨-, buf, hbuf, -⟩ := hwf.mapped pageId cs hmap
  exact ⟨buf, hbuf, by simp [cachedImage, hmap, hbuf]⟩

/-! Writes into a cached page -/

theorem CacheWellFormed.modifyCached {st : Store cfg} (hwf : st.CacheWellFormed)
    (cs : Nat) (change : Buffer → Buffer) :
    (modifyCached cs change st).CacheWellFormed := by
  refine ⟨?_, hwf.count_le, ?_, hwf.hand_lt⟩
  · intro pageId slot hmap
    obtain ⟨hlt, buf, hbuf, hpage⟩ := hwf.mapped pageId slot hmap
    refine ⟨hlt, if cs = slot then { buf with data := change buf.data } else buf,
      ?_, ?_⟩
    · change (st.cacheSlots.modify cs _)[slot]? = _
      rw [List.getElem?_modify, hbuf]
      split <;> rfl
    · split <;> exact hpage
  · change _ ≤ (st.cacheSlots.modify cs _).length
    rw [List.length_modify]
    exact hwf.count_le_slots

theorem cachedImage_modifyCached {st : Store cfg} (hwf : st.CacheWellFormed)
    {pageId cs : Nat} (hmap : st.pageToSlot pageId = some cs)
    (change : Buffer → Buffer) (other : Nat) :
    (modifyCached cs change st).cachedImage other =
      if other = pageId then (st.cachedImage other).map change
      else st.cachedImage other := by
  change (st.pageToSlot other).bind (fun slot =>
    ((st.cacheSlots.modify cs _)[slot]?).map PageBuf.data) = _
  by_cases hsame : other = pageId
  · subst hsame
    rw [if_pos rfl]
    simp only [cachedImage, hmap, Option.bind_some, List.getElem?_modify, if_true]
    cases st.cacheSlots[cs]? <;> rfl
  · rw [if_neg hsame]
    unfold cachedImage
    cases hother : st.pageToSlot other with
    | none => rfl
    | some slot =>
        have hne : cs ≠ slot := by
          rintro rfl
          exact hsame (hwf.slot_unique hother hmap)
        simp only [Option.bind_some, List.getElem?_modify, if_neg hne]
        simp

/-- A flush is a write of the file and, for a cached page, of its slot. -/
theorem flushSectionWriteBuf_eq (swb : SectionWriteBuf) (st : Store cfg) :
    flushSectionWriteBuf swb st =
      match st.pageToSlot swb.pageId with
      | some cs => modifyCached cs (fun _ => swb.data) { st with
          file := st.file.pwrite (swb.pageId * kPageSize) kPageSize swb.data }
      | none => { st with
          file := st.file.pwrite (swb.pageId * kPageSize) kPageSize swb.data } := by
  unfold flushSectionWriteBuf
  cases hmap : st.pageToSlot swb.pageId <;> rfl

theorem CacheWellFormed.flushSectionWriteBuf {st : Store cfg}
    (hwf : st.CacheWellFormed) (swb : SectionWriteBuf) :
    (flushSectionWriteBuf swb st).CacheWellFormed := by
  have hwritten : ({ st with
      file := st.file.pwrite (swb.pageId * kPageSize) kPageSize swb.data
      } : Store cfg).CacheWellFormed :=
    ⟨hwf.mapped, hwf.count_le, hwf.count_le_slots, hwf.hand_lt⟩
  rw [flushSectionWriteBuf_eq]
  split
  · exact hwritten.modifyCached _ _
  · exact hwritten

theorem cachedImage_flushSectionWriteBuf {st : Store cfg}
    (hwf : st.CacheWellFormed) (swb : SectionWriteBuf) (other : Nat) :
    (flushSectionWriteBuf swb st).cachedImage other =
      if other = swb.pageId then (st.cachedImage other).map fun _ => swb.data
      else st.cachedImage other := by
  have hwritten : ({ st with
      file := st.file.pwrite (swb.pageId * kPageSize) kPageSize swb.data
      } : Store cfg).CacheWellFormed :=
    ⟨hwf.mapped, hwf.count_le, hwf.count_le_slots, hwf.hand_lt⟩
  rw [flushSectionWriteBuf_eq]
  cases hmap : st.pageToSlot swb.pageId with
  | none =>
      by_cases hsame : other = swb.pageId
      · subst hsame
        simp [cachedImage, hmap]
      · rw [if_neg hsame]
        rfl
  | some cs => exact cachedImage_modifyCached hwritten hmap _ other

theorem CacheWellFormed.updateCacheAfterWrite {st : Store cfg}
    (hwf : st.CacheWellFormed) (pageId slot : Nat) (record : Record cfg) :
    (updateCacheAfterWrite pageId slot record st).CacheWellFormed := by
  unfold Store.updateCacheAfterWrite
  split
  · exact hwf
  · split
    · exact hwf
    · split
      · exact hwf
      · exact hwf.modifyCached _ _

theorem cachedImage_updateCacheAfterWrite {st : Store cfg}
    (hwf : st.CacheWellFormed) {pageId slot : Nat} (record : Record cfg)
    (hslot : slot < cfg.vectorsPerPage) (other : Nat) :
    (updateCacheAfterWrite pageId slot record st).cachedImage other =
      if other = pageId then (st.cachedImage other).map fun image =>
        copyInto image (slot * cfg.recordSize) record.bytes
      else st.cachedImage other := by
  have hfits := cfg.slot_fits hslot
  unfold updateCacheAfterWrite
  cases hmap : st.pageToSlot pageId with
  | none =>
      have hsame : ∀ store : Store cfg, store = st →
          store.cachedImage other = if other = pageId then
            (st.cachedImage other).map fun image =>
              copyInto image (slot * cfg.recordSize) record.bytes
          else st.cachedImage other := by
        rintro store rfl
        split
        · rename_i hpage
          subst hpage
          simp [cachedImage, hmap]
        · rfl
      apply hsame
      split <;> rfl
  | some cs =>
      have hcount := (hwf.mapped pageId cs hmap).1
      have hle := hwf.count_le
      rw [if_neg (by omega)]
      simp only [if_neg (Nat.not_lt.mpr hfits)]
      exact cachedImage_modifyCached hwf hmap _ other

/-! Loading a page -/

theorem getElem?_grown (slots : List PageBuf) (cachedCount cs : Nat)
    {buf : PageBuf} (hbuf : slots[cs]? = some buf) :
    (slots ++ List.replicate (cachedCount + 1 - slots.length) ⟨zeros, none⟩)[cs]? =
      some buf := by
  rw [List.getElem?_append_left (List.getElem?_eq_some_iff.mp hbuf).1, hbuf]

/-- A page published after the victim is dropped is another page in another
slot. -/
theorem dropVictim_eq_some {st : Store cfg} (hwf : st.CacheWellFormed)
    {pageId cs : Nat} (hmap : st.dropVictim pageId = some cs) :
    st.pageToSlot pageId = some cs ∧ cs ≠ st.fifoHand := by
  have hold : st.pageToSlot pageId = some cs := by
    cases hvictim : (st.cacheSlots[st.fifoHand]?).bind PageBuf.pageId with
    | none =>
        rw [dropVictim, hvictim] at hmap
        exact hmap
    | some victim =>
        simp only [dropVictim, hvictim, Function.update_apply] at hmap
        split at hmap
        · cases hmap
        · exact hmap
  refine ⟨hold, ?_⟩
  rintro rfl
  obtain ⟨-, buf, hbuf, hpage⟩ := hwf.mapped pageId _ hold
  unfold dropVictim at hmap
  rw [hbuf, Option.bind_some, hpage] at hmap
  simp at hmap

/-- The slot taken for a page is a slot of the cache, and no page is published
in it any more. -/
theorem takeCacheSlot_spec {st : Store cfg} (hwf : st.CacheWellFormed)
    (hmax : 0 < cfg.maxCachedPages) :
    st.takeCacheSlot.2.CacheWellFormed ∧
      st.takeCacheSlot.1 < st.takeCacheSlot.2.cachedCount ∧
      st.takeCacheSlot.1 < st.takeCacheSlot.2.cacheSlots.length ∧
      (∀ pageId, st.takeCacheSlot.2.pageToSlot pageId ≠ some st.takeCacheSlot.1) ∧
      ∀ pageId image, st.takeCacheSlot.2.cachedImage pageId = some image →
        st.cachedImage pageId = some image := by
  by_cases hroom : st.cachedCount < cfg.maxCachedPages
  · unfold takeCacheSlot
    rw [if_pos hroom]
    have hlen := hwf.count_le_slots
    refine ⟨⟨?_, hroom, ?_, hwf.hand_lt⟩, Nat.lt_succ_self _, ?_, ?_, ?_⟩
    · intro pageId cs hmap
      obtain ⟨hlt, buf, hbuf, hpage⟩ := hwf.mapped pageId cs hmap
      exact ⟨Nat.lt_succ_of_lt hlt, buf, getElem?_grown _ _ _ hbuf, hpage⟩
    · simp only [List.length_append, List.length_replicate]
      omega
    · simp only [List.length_append, List.length_replicate]
      omega
    · intro pageId hmap
      exact Nat.lt_irrefl _ (hwf.mapped pageId _ hmap).1
    · intro pageId image himage
      obtain ⟨cs, hmap, hdata⟩ := Option.bind_eq_some_iff.mp himage
      change st.pageToSlot pageId = some cs at hmap
      obtain ⟨buf, hbuf, hold⟩ := hwf.image_of_mapped hmap
      rw [getElem?_grown _ _ _ hbuf] at hdata
      rw [hold]
      exact hdata
  · unfold takeCacheSlot
    rw [if_neg hroom]
    have hcount : st.cachedCount = cfg.maxCachedPages := by
      have := hwf.count_le
      omega
    have hhand := hwf.hand_lt hmax
    have hlen := hwf.count_le_slots
    refine ⟨⟨?_, hwf.count_le, hwf.count_le_slots, ?_⟩, ?_, ?_, ?_, ?_⟩
    · intro pageId cs hmap
      exact hwf.mapped pageId cs (dropVictim_eq_some hwf hmap).1
    · intro _
      exact Nat.mod_lt _ hmax
    · change st.fifoHand < st.cachedCount
      omega
    · change st.fifoHand < st.cacheSlots.length
      omega
    · intro pageId hmap
      exact (dropVictim_eq_some hwf hmap).2 rfl
    · intro pageId image himage
      obtain ⟨cs, hmap, hdata⟩ := Option.bind_eq_some_iff.mp himage
      rw [cachedImage, (dropVictim_eq_some hwf hmap).1]
      exact hdata

theorem CacheWellFormed.publishPage {st : Store cfg} (hwf : st.CacheWellFormed)
    (hmax : 0 < cfg.maxCachedPages) (pageId : Nat) (image : Buffer) :
    (publishPage pageId image st).CacheWellFormed := by
  unfold Store.publishPage
  split
  · exact hwf
  · obtain ⟨htaken, hlt, hlen, hfree, -⟩ := takeCacheSlot_spec hwf hmax
    refine ⟨?_, htaken.count_le, ?_, htaken.hand_lt⟩
    · intro other cs hmap
      change Function.update st.takeCacheSlot.2.pageToSlot pageId
        (some st.takeCacheSlot.1) other = some cs at hmap
      change _ ∧ ∃ buf, (st.takeCacheSlot.2.cacheSlots.set _ _)[cs]? = some buf ∧ _
      rw [Function.update_apply] at hmap
      split at hmap
      · rename_i hsame
        cases hmap
        subst hsame
        exact ⟨hlt, _, List.getElem?_set_self hlen, rfl⟩
      · obtain ⟨hcs, buf, hbuf, hpage⟩ := htaken.mapped other cs hmap
        have hne : st.takeCacheSlot.1 ≠ cs := by
          rintro rfl
          exact hfree other hmap
        exact ⟨hcs, buf, by rw [List.getElem?_set_ne hne]; exact hbuf, hpage⟩
    · change _ ≤ (st.takeCacheSlot.2.cacheSlots.set _ _).length
      rw [List.length_set]
      exact htaken.count_le_slots

/-- A published page is cached with the image it was published with, unless it
was cached already; no other page gains a cached copy. -/
theorem cachedImage_publishPage {st : Store cfg} (image : Buffer)
    (hwf : st.CacheWellFormed) (hmax : 0 < cfg.maxCachedPages) {pageId : Nat}
    (hnone : st.pageToSlot pageId = none) :
    (publishPage pageId image st).cachedImage pageId = some image ∧
      ∀ other found, other ≠ pageId →
        (publishPage pageId image st).cachedImage other = some found →
          st.cachedImage other = some found := by
  obtain ⟨htaken, hlt, hlen, hfree, hold⟩ := takeCacheSlot_spec hwf hmax
  unfold publishPage
  rw [hnone]
  constructor
  · simp only [Option.isSome_none, Bool.false_eq_true, if_false, cachedImage,
      Function.update_self, Option.bind_some, List.getElem?_set_self hlen,
      Option.map_some]
  · intro other found hne hfound
    simp only [Option.isSome_none, Bool.false_eq_true, if_false, cachedImage,
      Function.update_of_ne hne] at hfound
    obtain ⟨cs, hmap, hdata⟩ := Option.bind_eq_some_iff.mp hfound
    have hcs : st.takeCacheSlot.1 ≠ cs := by
      rintro rfl
      exact hfree other hmap
    rw [List.getElem?_set_ne hcs] at hdata
    apply hold
    rw [cachedImage, hmap]
    exact hdata

end Store

end AsterVec.PagedVectorStorage

import Mathlib.Algebra.BigOperators.Group.Finset.Basic
import AsterVec.PagedLayout

/-!
The section write buffers of a well-formed store: a live buffer holds a page of
its own section, so a page has at most one buffer and a reader finds it through
the page table.
-/

namespace AsterVec.PagedVectorStorage

open AsterVec.ByteBuffer
open AsterVec.IdTypes

variable {cfg : Config}

namespace Store

/-- Live write buffers of the whole store. -/
def liveBuffers (st : Store cfg) : Nat :=
  ∑ i ∈ Finset.range kNumSectionShards,
    (st.sectionShards i).writeBufs.entries.length

/-- What every step under a shard lock keeps. -/
structure BuffersWellFormed (st : Store cfg) : Prop where
  buf_page : ∀ sectionIdx swb, st.writeBuf sectionIdx = some swb →
    0 ≤ sectionIdx ∧ st.sectionIdxOfPage swb.pageId = sectionIdx
  buf_shard : ∀ i sectionIdx, sectionIdx ∈ (st.sectionShards i).writeBufs →
    shardIdx sectionIdx = i
  buf_count : st.liveBuffers ≤ st.sectionWriteBufsCount

/-- Every live buffer of a capped store waits in its shard's eviction queue. -/
def Queued (st : Store cfg) : Prop :=
  0 < cfg.writeBufCap → ∀ i sectionIdx,
    sectionIdx ∈ (st.sectionShards i).writeBufs →
      sectionIdx ∈ (st.sectionShards i).bufOrder

theorem shardIdx_lt (sectionIdx : Int) : shardIdx sectionIdx < kNumSectionShards := by
  have hpos : (0 : Int) < (kNumSectionShards : Nat) := by decide
  have hlt := Int.emod_lt_of_pos sectionIdx hpos
  have hnonneg := Int.emod_nonneg sectionIdx (Int.ne_of_gt hpos)
  unfold shardIdx
  omega

theorem liveBuffers_setShard (st : Store cfg) (sectionIdx : Int)
    (shard : SectionShard) :
    (st.setShard sectionIdx shard).liveBuffers +
        (st.sectionShardState sectionIdx).writeBufs.entries.length =
      st.liveBuffers + shard.writeBufs.entries.length := by
  have hmem : shardIdx sectionIdx ∈ Finset.range kNumSectionShards :=
    Finset.mem_range.mpr (shardIdx_lt sectionIdx)
  have hrest : ∀ i ∈ (Finset.range kNumSectionShards).erase (shardIdx sectionIdx),
      ((st.setShard sectionIdx shard).sectionShards i).writeBufs.entries.length =
        (st.sectionShards i).writeBufs.entries.length := by
    intro i hi
    rw [setShard_sectionShards, if_neg (Finset.ne_of_mem_erase hi)]
  unfold liveBuffers
  rw [← Finset.sum_erase_add _ _ hmem, Finset.sum_congr rfl hrest,
    setShard_sectionShards, if_pos rfl, Nat.add_right_comm, sectionShardState,
    Finset.sum_erase_add _ _ hmem]

/-- A store without live buffers has none to look up. -/
theorem liveBuffers_pos {st : Store cfg} {sectionIdx : Int} {swb : SectionWriteBuf}
    (hbuf : st.writeBuf sectionIdx = some swb) : 0 < st.liveBuffers := by
  have hmem : shardIdx sectionIdx ∈ Finset.range kNumSectionShards :=
    Finset.mem_range.mpr (shardIdx_lt sectionIdx)
  have hentry := List.length_pos_of_mem (AList.mem_lookup_iff.mp hbuf)
  rw [liveBuffers, ← Finset.sum_erase_add _ _ hmem]
  exact Nat.lt_of_lt_of_le hentry (Nat.le_add_left _ _)

/-! Lookups after a change of one shard -/

theorem writeBuf_setShard (st : Store cfg) (sectionIdx other : Int)
    (shard : SectionShard) :
    (st.setShard sectionIdx shard).writeBuf other =
      if shardIdx other = shardIdx sectionIdx then shard.writeBufs.lookup other
      else st.writeBuf other := by
  unfold writeBuf sectionShardState
  rw [setShard_sectionShards]
  split <;> rfl

@[simp] theorem writeBuf_setBufOrder (sectionIdx other : Int)
    (bufOrder : List Int) (st : Store cfg) :
    (setBufOrder sectionIdx bufOrder st).writeBuf other = st.writeBuf other := by
  rw [setBufOrder, writeBuf_setShard]
  split
  · rename_i hshard
    simp only [writeBuf, sectionShardState, hshard]
  · rfl

@[simp] theorem writeBuf_recycleBuf (sectionIdx other : Int) (st : Store cfg) :
    (recycleBuf sectionIdx st).writeBuf other = st.writeBuf other := by
  unfold recycleBuf
  rw [writeBuf_setShard]
  split
  · rename_i hshard
    simp only [writeBuf, sectionShardState, hshard]
  · rfl

@[simp] theorem writeBuf_flushSectionWriteBuf (swb : SectionWriteBuf)
    (st : Store cfg) (other : Int) :
    (flushSectionWriteBuf swb st).writeBuf other = st.writeBuf other := rfl

theorem writeBuf_eraseWriteBuf (sectionIdx other : Int) (st : Store cfg) :
    (eraseWriteBuf sectionIdx st).writeBuf other =
      if other = sectionIdx then none else st.writeBuf other := by
  change (st.setShard sectionIdx _).writeBuf other = _
  rw [writeBuf_setShard]
  split
  · rename_i hshard
    split
    · rename_i hsame
      subst hsame
      exact AList.lookup_erase _ _
    · rename_i hne
      simp only [writeBuf, sectionShardState, hshard]
      exact AList.lookup_erase_ne hne
  · rename_i hshard
    rw [if_neg fun hsame => hshard (congrArg shardIdx hsame)]

theorem writeBuf_setWriteBuf (sectionIdx other : Int) (swb : SectionWriteBuf)
    (st : Store cfg) :
    (setWriteBuf sectionIdx swb st).writeBuf other =
      if other = sectionIdx then some swb else st.writeBuf other := by
  rw [setWriteBuf, writeBuf_setShard]
  split
  · rename_i hshard
    split
    · rename_i hsame
      subst hsame
      exact AList.lookup_insert _
    · rename_i hne
      simp only [writeBuf, sectionShardState, hshard]
      exact AList.lookup_insert_ne hne
  · rename_i hshard
    rw [if_neg fun hsame => hshard (congrArg shardIdx hsame)]

theorem writeBuf_createWriteBuf (sectionIdx other : Int) (pageId : Nat)
    (st : Store cfg) :
    (createWriteBuf sectionIdx pageId st).writeBuf other =
      if other = sectionIdx then some ⟨zeros, pageId⟩ else st.writeBuf other := by
  have hset := writeBuf_setWriteBuf sectionIdx other ⟨zeros, pageId⟩ st
  rw [← hset, setWriteBuf, writeBuf_setShard]
  change (st.setShard sectionIdx _).writeBuf other = _
  rw [writeBuf_setShard]

/-! The buffer of a page -/

/-- A reader finds exactly the live buffer that holds the page. -/
theorem bufferHolding_eq_some_iff {st : Store cfg} (hwf : st.BuffersWellFormed)
    {pageId : Nat} {swb : SectionWriteBuf} :
    st.bufferHolding pageId = some swb ↔
      ∃ sectionIdx, st.writeBuf sectionIdx = some swb ∧ swb.pageId = pageId := by
  constructor
  · intro hheld
    unfold bufferHolding at hheld
    split at hheld
    · cases hheld
    · simp only at hheld
      split at hheld
      · cases hheld
      · obtain ⟨hbuf, hpage⟩ := Option.filter_eq_some_iff.mp hheld
        exact ⟨_, hbuf, by simpa using hpage⟩
  · rintro ⟨sectionIdx, hbuf, hpage⟩
    obtain ⟨hnonneg, hsection⟩ := hwf.buf_page sectionIdx swb hbuf
    have hcount : st.sectionWriteBufsCount ≠ 0 := by
      have := liveBuffers_pos hbuf
      have := hwf.buf_count
      omega
    rw [hpage] at hsection
    unfold bufferHolding
    rw [if_neg hcount, hsection]
    simp only [if_neg (Int.not_lt.mpr hnonneg), hbuf]
    exact Option.filter_eq_some_iff.mpr ⟨rfl, by simpa using hpage⟩

theorem bufferHolding_eq_none_iff {st : Store cfg} (hwf : st.BuffersWellFormed)
    {pageId : Nat} :
    st.bufferHolding pageId = none ↔
      ∀ sectionIdx swb, st.writeBuf sectionIdx = some swb → swb.pageId ≠ pageId := by
  constructor
  · intro hnone sectionIdx swb hbuf hpage
    have hsome := (bufferHolding_eq_some_iff hwf).mpr ⟨sectionIdx, hbuf, hpage⟩
    rw [hnone] at hsome
    cases hsome
  · intro hnone
    cases hheld : st.bufferHolding pageId with
    | none => rfl
    | some swb =>
        obtain ⟨sectionIdx, hbuf, hpage⟩ := (bufferHolding_eq_some_iff hwf).mp hheld
        exact absurd hpage (hnone sectionIdx swb hbuf)

/-- Two live buffers of one page are one buffer. -/
theorem writeBuf_unique {st : Store cfg} (hwf : st.BuffersWellFormed)
    {sectionIdx other : Int} {swb swb' : SectionWriteBuf}
    (hbuf : st.writeBuf sectionIdx = some swb) (hbuf' : st.writeBuf other = some swb')
    (hpage : swb.pageId = swb'.pageId) : sectionIdx = other ∧ swb = swb' := by
  have hsection : sectionIdx = other := by
    rw [← (hwf.buf_page _ _ hbuf).2, ← (hwf.buf_page _ _ hbuf').2, hpage]
  subst hsection
  rw [hbuf] at hbuf'
  exact ⟨rfl, Option.some.inj hbuf'⟩

theorem overlaidPage_of_buffer {st : Store cfg} (hwf : st.BuffersWellFormed)
    {sectionIdx : Int} {swb : SectionWriteBuf}
    (hbuf : st.writeBuf sectionIdx = some swb) :
    st.overlaidPage swb.pageId = swb.data := by
  unfold overlaidPage
  rw [(bufferHolding_eq_some_iff hwf).mpr ⟨sectionIdx, hbuf, rfl⟩]

theorem overlaidPage_of_none {st : Store cfg} {pageId : Nat}
    (hnone : st.bufferHolding pageId = none) :
    st.overlaidPage pageId = fun i => st.file.bytes (pageId * kPageSize + i) := by
  unfold overlaidPage
  rw [hnone]

/-! Steps that keep the buffers well formed -/

/-- A store with the buffers of a well-formed one is well formed, as long as
existing pages keep their sections. -/
theorem BuffersWellFormed.congr {st st' : Store cfg} (hwf : st.BuffersWellFormed)
    (hshards : ∀ i, (st'.sectionShards i).writeBufs = (st.sectionShards i).writeBufs)
    (hpages : ∀ pageId page, st.pages[pageId]? = some page →
      st'.sectionIdxOfPage pageId = page.sectionIdx)
    (hcount : st'.sectionWriteBufsCount = st.sectionWriteBufsCount) :
    st'.BuffersWellFormed := by
  have hbufs : ∀ sectionIdx, st'.writeBuf sectionIdx = st.writeBuf sectionIdx := by
    intro sectionIdx
    simp only [writeBuf, sectionShardState, hshards]
  refine ⟨?_, ?_, ?_⟩
  · intro sectionIdx swb hbuf
    rw [hbufs] at hbuf
    obtain ⟨hnonneg, hsection⟩ := hwf.buf_page sectionIdx swb hbuf
    refine ⟨hnonneg, ?_⟩
    unfold sectionIdxOfPage at hsection
    cases hpage : st.pages[swb.pageId]? with
    | none =>
        rw [hpage] at hsection
        change (-1 : Int) = sectionIdx at hsection
        omega
    | some page =>
        rw [hpage] at hsection
        rw [hpages _ page hpage]
        exact hsection
  · intro i sectionIdx hmem
    rw [hshards i] at hmem
    exact hwf.buf_shard i sectionIdx hmem
  · have hlive : st'.liveBuffers = st.liveBuffers := by
      simp only [liveBuffers, hshards]
    rw [hlive, hcount]
    exact hwf.buf_count

/-- A change of one shard keeps the buffers well formed when its own buffers
are. -/
theorem BuffersWellFormed.setShard {st : Store cfg} (hwf : st.BuffersWellFormed)
    {sectionIdx : Int} (shard : SectionShard) (count : Nat)
    (hpage : ∀ other swb, shard.writeBufs.lookup other = some swb →
      shardIdx other = shardIdx sectionIdx ∧ 0 ≤ other ∧
        st.sectionIdxOfPage swb.pageId = other)
    (hcount : st.liveBuffers + shard.writeBufs.entries.length ≤
      count + (st.sectionShardState sectionIdx).writeBufs.entries.length) :
    ({ st.setShard sectionIdx shard with
      sectionWriteBufsCount := count } : Store cfg).BuffersWellFormed := by
  refine ⟨?_, ?_, ?_⟩
  · intro other swb hbuf
    change (st.setShard sectionIdx shard).writeBuf other = _ at hbuf
    rw [writeBuf_setShard] at hbuf
    split at hbuf
    · exact (hpage other swb hbuf).2
    · exact hwf.buf_page other swb hbuf
  · intro i other hmem
    change other ∈ ((st.setShard sectionIdx shard).sectionShards i).writeBufs at hmem
    rw [setShard_sectionShards] at hmem
    split at hmem
    · rename_i hsame
      obtain ⟨swb, hbuf⟩ := Option.isSome_iff_exists.mp (AList.lookup_isSome.mpr hmem)
      exact (hpage other swb hbuf).1.trans hsame.symm
    · exact hwf.buf_shard i other hmem
  · have hlive := liveBuffers_setShard st sectionIdx shard
    change (st.setShard sectionIdx shard).liveBuffers ≤ count
    omega

/-- The buffers a shard of a well-formed store holds. -/
theorem BuffersWellFormed.lookup {st : Store cfg} (hwf : st.BuffersWellFormed)
    {sectionIdx other : Int} {swb : SectionWriteBuf}
    (hbuf : (st.sectionShardState sectionIdx).writeBufs.lookup other = some swb) :
    shardIdx other = shardIdx sectionIdx ∧ 0 ≤ other ∧
      st.sectionIdxOfPage swb.pageId = other := by
  have hmem : other ∈ (st.sectionShardState sectionIdx).writeBufs :=
    AList.lookup_isSome.mp (by rw [hbuf]; rfl)
  have hshard := hwf.buf_shard _ other hmem
  refine ⟨hshard, hwf.buf_page other swb ?_⟩
  rw [writeBuf, sectionShardState, hshard]
  exact hbuf

theorem BuffersWellFormed.setBufOrder {st : Store cfg} (hwf : st.BuffersWellFormed)
    (sectionIdx : Int) (bufOrder : List Int) :
    (setBufOrder sectionIdx bufOrder st).BuffersWellFormed :=
  hwf.setShard { st.sectionShardState sectionIdx with bufOrder := bufOrder } _
    (fun _ _ hbuf => hwf.lookup hbuf)
    (Nat.add_le_add_right hwf.buf_count _)

theorem BuffersWellFormed.recycleBuf {st : Store cfg} (hwf : st.BuffersWellFormed)
    (sectionIdx : Int) : (recycleBuf sectionIdx st).BuffersWellFormed :=
  hwf.setShard { st.sectionShardState sectionIdx with bufPool := _ } _
    (fun _ _ hbuf => hwf.lookup hbuf)
    (Nat.add_le_add_right hwf.buf_count _)

theorem BuffersWellFormed.flushSectionWriteBuf {st : Store cfg}
    (hwf : st.BuffersWellFormed) (swb : SectionWriteBuf) :
    (flushSectionWriteBuf swb st).BuffersWellFormed :=
  hwf.congr (fun _ => rfl)
    (fun pageId page hpage => by
      change (st.pages[pageId]?).elim (-1) PageMeta.sectionIdx = _
      rw [hpage]
      rfl)
    rfl

theorem length_erase_entries {st : Store cfg} {sectionIdx : Int}
    {swb : SectionWriteBuf} (hbuf : st.writeBuf sectionIdx = some swb) :
    ((st.sectionShardState sectionIdx).writeBufs.erase sectionIdx).entries.length + 1 =
      (st.sectionShardState sectionIdx).writeBufs.entries.length := by
  have hmem : sectionIdx ∈ (st.sectionShardState sectionIdx).writeBufs :=
    AList.lookup_isSome.mp (by
      change (st.writeBuf sectionIdx).isSome = true
      rw [hbuf]
      rfl)
  obtain ⟨_, before, after, -, hentries, herased⟩ := List.exists_of_kerase hmem
  change (List.kerase sectionIdx _).length + 1 = _
  rw [herased, hentries]
  simp only [List.length_append, List.length_cons]
  omega

theorem BuffersWellFormed.eraseWriteBuf {st : Store cfg}
    (hwf : st.BuffersWellFormed) {sectionIdx : Int} {swb : SectionWriteBuf}
    (hbuf : st.writeBuf sectionIdx = some swb) :
    (eraseWriteBuf sectionIdx st).BuffersWellFormed := by
  refine hwf.setShard { st.sectionShardState sectionIdx with
    writeBufs := (st.sectionShardState sectionIdx).writeBufs.erase sectionIdx } _
    ?_ ?_
  · intro other swb' hother
    by_cases hsame : other = sectionIdx
    · subst hsame
      rw [AList.lookup_erase] at hother
      cases hother
    · rw [AList.lookup_erase_ne hsame] at hother
      exact hwf.lookup hother
  · have hlen := length_erase_entries hbuf
    have hpos := liveBuffers_pos hbuf
    have hcount := hwf.buf_count
    change st.liveBuffers + ((st.sectionShardState sectionIdx).writeBufs.erase
      sectionIdx).entries.length ≤ st.sectionWriteBufsCount - 1 + _
    omega

theorem length_insert_entries (bufs : AList fun _ : Int => SectionWriteBuf)
    (sectionIdx : Int) (swb : SectionWriteBuf) :
    (bufs.insert sectionIdx swb).entries.length =
      (bufs.erase sectionIdx).entries.length + 1 := rfl

theorem BuffersWellFormed.setWriteBuf {st : Store cfg}
    (hwf : st.BuffersWellFormed) {sectionIdx : Int} {swb swb' : SectionWriteBuf}
    (hbuf : st.writeBuf sectionIdx = some swb)
    (hpage : st.sectionIdxOfPage swb'.pageId = sectionIdx) :
    (setWriteBuf sectionIdx swb' st).BuffersWellFormed := by
  refine hwf.setShard { st.sectionShardState sectionIdx with
    writeBufs := (st.sectionShardState sectionIdx).writeBufs.insert sectionIdx swb' } _
    ?_ ?_
  · intro other buf hother
    by_cases hsame : other = sectionIdx
    · subst hsame
      rw [AList.lookup_insert] at hother
      cases hother
      exact ⟨rfl, (hwf.buf_page other swb hbuf).1, hpage⟩
    · rw [AList.lookup_insert_ne hsame] at hother
      exact hwf.lookup hother
  · have hlen := length_erase_entries hbuf
    have hcount := hwf.buf_count
    rw [length_insert_entries]
    omega

theorem BuffersWellFormed.createWriteBuf {st : Store cfg}
    (hwf : st.BuffersWellFormed) {sectionIdx : Int} {pageId : Nat}
    (hnone : st.writeBuf sectionIdx = none) (hnonneg : 0 ≤ sectionIdx)
    (hpage : st.sectionIdxOfPage pageId = sectionIdx) :
    (createWriteBuf sectionIdx pageId st).BuffersWellFormed := by
  have hnot : sectionIdx ∉ (st.sectionShardState sectionIdx).writeBufs :=
    AList.lookup_eq_none.mp hnone
  refine hwf.setShard { st.sectionShardState sectionIdx with
    writeBufs := (st.sectionShardState sectionIdx).writeBufs.insert sectionIdx
      ⟨zeros, pageId⟩
    bufPool := _
    bufOrder := _ } _ ?_ ?_
  · intro other buf hother
    by_cases hsame : other = sectionIdx
    · subst hsame
      rw [AList.lookup_insert] at hother
      cases hother
      exact ⟨rfl, hnonneg, hpage⟩
    · rw [AList.lookup_insert_ne hsame] at hother
      exact hwf.lookup hother
  · have hcount := hwf.buf_count
    have hsame : (st.sectionShardState sectionIdx).writeBufs.erase sectionIdx =
        (st.sectionShardState sectionIdx).writeBufs :=
      AList.ext (List.kerase_of_notMem_keys hnot)
    rw [length_insert_entries, hsame]
    omega

end Store

end AsterVec.PagedVectorStorage

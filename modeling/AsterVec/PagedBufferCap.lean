import AsterVec.PagedWrites

/-!
The write-buffer cap over whole runs of writes and flushes: a store that starts
without buffers never keeps more than `perShardCap` of them in a shard, neither
between two calls nor once the eviction loop of a call is over.
-/

namespace AsterVec.PagedVectorStorage

open AsterVec.ByteBuffer

variable {cfg : Config}

/-- A shard as the constructor leaves it, as far as its buffers go. -/
def SectionShard.NoBuffers (shard : SectionShard) : Prop :=
  shard.writeBufs = ∅ ∧ shard.bufOrder = [] ∧ shard.bufPool = 0

/-- The calls that touch the write buffers. -/
inductive BufferCall (cfg : Config) where
  | writeToSectionBuffer (sectionIdx : Int) (pageId slot : Nat) (record : Record cfg)
  | flushWrites

namespace Store

/-- Copy a record into its section's buffer and the cached page; `false` when
the caller must write it straight to the file. -/
def writeToSectionBuffer (sectionIdx : Int) (pageId slot : Nat)
    (record : Record cfg) (st : Store cfg) : Option (Bool × Store cfg) :=
  match writeToSectionBufferLocked sectionIdx pageId slot record st with
  | none => none
  | some (false, st) => some (false, st)
  | some (true, st) => some (true, updateCacheAfterWrite pageId slot record st)

end Store

/-- `none` when the call's eviction loop never ends. -/
def BufferCall.run : BufferCall cfg → Store cfg → Option (Store cfg)
  | .writeToSectionBuffer sectionIdx pageId slot record, st =>
      (Store.writeToSectionBuffer sectionIdx pageId slot record st).map Prod.snd
  | .flushWrites, st => some st.flushWrites

namespace Store

def runCalls : List (BufferCall cfg) → Store cfg → Option (Store cfg)
  | [], st => some st
  | call :: calls, st => (call.run st).bind (runCalls calls)

/-- The buffers are where lookups search them, wait in the queue, and the pool
is within its bound. -/
structure Tracked (st : Store cfg) : Prop where
  sharded : st.Sharded
  queued : st.Queued
  pool_le : ∀ i, (st.sectionShards i).bufPool ≤ cfg.perShardCap

/-- What holds of the buffers whenever no call runs. -/
structure Capped (st : Store cfg) : Prop extends st.Tracked where
  live_le : ∀ i, (st.sectionShards i).writeBufs.entries.length ≤ cfg.perShardCap

/-! Keeping track -/

theorem Tracked.congr {st st' : Store cfg} (htracked : st.Tracked)
    (hshards : st'.sectionShards = st.sectionShards) : st'.Tracked := by
  refine ⟨?_, htracked.queued.congr hshards, ?_⟩
  · rw [Sharded, hshards]
    exact htracked.sharded
  · rw [hshards]
    exact htracked.pool_le

theorem Tracked.setShard {st : Store cfg} (htracked : st.Tracked)
    {sectionIdx : Int} {shard : SectionShard}
    (hsharded : ∀ other ∈ shard.writeBufs, shardIdx other = shardIdx sectionIdx)
    (hqueued : 0 < cfg.writeBufCap → ∀ other ∈ shard.writeBufs,
      other ∈ shard.bufOrder)
    (hpool : shard.bufPool ≤ cfg.perShardCap) :
    (st.setShard sectionIdx shard).Tracked := by
  refine ⟨htracked.sharded.setShard shard hsharded,
    htracked.queued.setShard shard hqueued, ?_⟩
  intro i
  rw [setShard_sectionShards]
  split
  · exact hpool
  · exact htracked.pool_le i

theorem Tracked.createWriteBuf {st : Store cfg} (htracked : st.Tracked)
    (sectionIdx : Int) (pageId : Nat) :
    (createWriteBuf sectionIdx pageId st).Tracked := by
  have hqueued := htracked.queued.createWriteBuf sectionIdx pageId
  refine ⟨?_, hqueued, ?_⟩
  · refine htracked.sharded.setShard { st.sectionShardState sectionIdx with
      writeBufs := _, bufPool := _, bufOrder := _ } fun other hmem => ?_
    rcases (AList.mem_insert _).mp hmem with rfl | hmem
    · rfl
    · exact htracked.sharded _ other hmem
  · intro i
    change ((st.setShard sectionIdx _).sectionShards i).bufPool ≤ _
    rw [setShard_sectionShards]
    split
    · exact (Nat.sub_le _ _).trans (htracked.pool_le _)
    · exact htracked.pool_le i

theorem Tracked.eraseWriteBuf {st : Store cfg} (htracked : st.Tracked)
    (sectionIdx : Int) : (eraseWriteBuf sectionIdx st).Tracked := by
  have hset : (st.setShard sectionIdx { st.sectionShardState sectionIdx with
      writeBufs := (st.sectionShardState sectionIdx).writeBufs.erase
        sectionIdx }).Tracked :=
    htracked.setShard
      (fun other hmem => htracked.sharded _ other (AList.mem_erase.mp hmem).2)
      (fun hcap other hmem =>
        htracked.queued hcap _ other (AList.mem_erase.mp hmem).2)
      (htracked.pool_le _)
  exact hset.congr rfl

theorem Tracked.setWriteBuf {st : Store cfg} (htracked : st.Tracked)
    {sectionIdx : Int} {swb : SectionWriteBuf}
    (hbuf : st.writeBuf sectionIdx = some swb) (swb' : SectionWriteBuf) :
    (setWriteBuf sectionIdx swb' st).Tracked := by
  refine ⟨?_, htracked.queued.setWriteBuf hbuf swb', ?_⟩
  · refine htracked.sharded.setShard _ fun other hmem => ?_
    rcases (AList.mem_insert _).mp hmem with rfl | hmem
    · rfl
    · exact htracked.sharded _ other hmem
  · intro i
    rw [Store.setWriteBuf, setShard_sectionShards]
    split
    · exact htracked.pool_le _
    · exact htracked.pool_le i

/-- An evicted allocation joins the pool only while the pool has room. -/
theorem pool_le_recycleBuf {st : Store cfg}
    (hpool : ∀ i, (st.sectionShards i).bufPool ≤ cfg.perShardCap)
    (sectionIdx : Int) (i : Nat) :
    ((recycleBuf sectionIdx st).sectionShards i).bufPool ≤ cfg.perShardCap := by
  rw [recycleBuf, setShard_sectionShards]
  split
  · change (if _ then _ else _) ≤ _
    split
    · rename_i hroom
      exact hroom
    · exact hpool _
  · exact hpool i

theorem Tracked.evictOldest {sectionIdx : Int} {st next : Store cfg}
    (htracked : st.Tracked) (hturn : evictOldest sectionIdx st = some next) :
    next.Tracked := by
  refine ⟨htracked.sharded.evictOldest hturn,
    Queued.evictOldest htracked.sharded htracked.queued hturn, ?_⟩
  have hpopped : ∀ bufOrder i, ((setBufOrder sectionIdx bufOrder st).sectionShards
      i).bufPool ≤ cfg.perShardCap := by
    intro bufOrder i
    rw [setBufOrder, setShard_sectionShards]
    split
    · exact htracked.pool_le _
    · exact htracked.pool_le i
  obtain ⟨victim, rest, -, hcases⟩ := evictOldest_cases hturn
  rcases hcases with ⟨-, rfl⟩ | ⟨-, -, rfl⟩ | ⟨-, swb, -, rfl⟩
  · exact hpopped _
  · exact hpopped _
  · intro i
    have hrecycled : ∀ j, ((recycleBuf victim (flushSectionWriteBuf swb
        (setBufOrder sectionIdx rest st))).sectionShards j).bufPool ≤
          cfg.perShardCap :=
      pool_le_recycleBuf (hpopped rest) victim
    change ((Store.setShard _ victim _).sectionShards i).bufPool ≤ _
    rw [setShard_sectionShards]
    split
    · exact hrecycled _
    · exact hrecycled i

theorem Capped.congr {st st' : Store cfg} (hcapped : st.Capped)
    (hshards : st'.sectionShards = st.sectionShards) : st'.Capped := by
  refine ⟨hcapped.toTracked.congr hshards, ?_⟩
  rw [hshards]
  exact hcapped.live_le

theorem Capped.setWriteBuf {st : Store cfg} (hcapped : st.Capped)
    {sectionIdx : Int} {swb : SectionWriteBuf}
    (hbuf : st.writeBuf sectionIdx = some swb) (swb' : SectionWriteBuf) :
    (setWriteBuf sectionIdx swb' st).Capped := by
  refine ⟨hcapped.toTracked.setWriteBuf hbuf swb', fun i => ?_⟩
  rw [Store.setWriteBuf, setShard_sectionShards]
  split
  · change ((st.sectionShardState sectionIdx).writeBufs.insert
      sectionIdx swb').entries.length ≤ _
    rw [length_insert_entries, length_erase_entries hbuf]
    exact hcapped.live_le _
  · exact hcapped.live_le i

theorem Capped.eraseWriteBuf {st : Store cfg} (hcapped : st.Capped)
    {sectionIdx : Int} {swb : SectionWriteBuf}
    (hbuf : st.writeBuf sectionIdx = some swb) :
    (eraseWriteBuf sectionIdx st).Capped := by
  refine ⟨hcapped.toTracked.eraseWriteBuf sectionIdx, fun i => ?_⟩
  change ((st.setShard sectionIdx _).sectionShards i).writeBufs.entries.length ≤ _
  rw [setShard_sectionShards]
  split
  · have hlen := length_erase_entries hbuf
    have hle : (st.sectionShardState sectionIdx).writeBufs.entries.length ≤
        cfg.perShardCap := hcapped.live_le _
    change ((st.sectionShardState sectionIdx).writeBufs.erase
      sectionIdx).entries.length ≤ _
    omega
  · exact hcapped.live_le i

/-! The loop ends within the cap -/

/-- The loop stops only once the shard is within its cap: the queue cannot run
empty before the buffers do. -/
theorem live_le_of_evictOldest_eq_none {sectionIdx : Int} {st : Store cfg}
    (hcap : 0 < cfg.writeBufCap) (hqueued : st.Queued)
    (hdone : evictOldest sectionIdx st = none) :
    (st.sectionShardState sectionIdx).writeBufs.entries.length ≤
      cfg.perShardCap := by
  unfold evictOldest at hdone
  simp only at hdone
  split at hdone
  · rename_i hle
    exact hle
  · split at hdone
    · rename_i horder
      have honly : ∀ other ∈ (st.sectionShardState sectionIdx).writeBufs,
          other = sectionIdx := by
        intro other hmem
        have hin := hqueued hcap _ other hmem
        change other ∈ (st.sectionShardState sectionIdx).bufOrder at hin
        rw [horder] at hin
        cases hin
      exact entries_length_le_perShardCap honly
    · split at hdone
      · cases hdone
      · split at hdone <;> cases hdone

theorem evictOldest_eq_none_of_evictOverCap {sectionIdx : Int} {fuel : Nat}
    {st st' : Store cfg} (hevict : evictOverCap sectionIdx fuel st = some st') :
    evictOldest sectionIdx st' = none :=
  evictOverCap_rec (motive := fun _ _ => evictOldest sectionIdx st' = none)
    (fun _ hdone => hdone) (fun _ _ _ _ hdone => hdone) hevict

/-- A turn of the loop works on one shard, and leaves the buffer being written. -/
theorem evictOldest_frame {sectionIdx : Int} {st next : Store cfg}
    (hsharded : st.Sharded) (hturn : evictOldest sectionIdx st = some next) :
    (∀ i, i ≠ shardIdx sectionIdx → next.sectionShards i = st.sectionShards i) ∧
      next.writeBuf sectionIdx = st.writeBuf sectionIdx := by
  obtain ⟨victim, rest, -, hcases⟩ := evictOldest_cases hturn
  have hpopped : ∀ bufOrder i, i ≠ shardIdx sectionIdx →
      (setBufOrder sectionIdx bufOrder st).sectionShards i = st.sectionShards i := by
    intro bufOrder i hne
    rw [setBufOrder, setShard_sectionShards, if_neg hne]
  rcases hcases with ⟨-, rfl⟩ | ⟨-, -, rfl⟩ | ⟨hother, swb, hlive, rfl⟩
  · exact ⟨hpopped _, writeBuf_setBufOrder _ _ _ _⟩
  · exact ⟨hpopped _, writeBuf_setBufOrder _ _ _ _⟩
  · constructor
    · intro i hne
      obtain ⟨pool, hshards⟩ :=
        sectionShardState_evict (hsharded.lookup hlive) swb rest
      rw [hshards, Function.update_of_ne hne]
    · rw [evictWriteBuf, writeBuf_eraseWriteBuf, if_neg (Ne.symm hother)]
      simp

theorem Capped.openWriteBuf {st : Store cfg} (hcapped : st.Capped)
    (hcap : 0 < cfg.writeBufCap) (sectionIdx : Int) (pageId : Nat) :
    ∃ opened, openWriteBuf sectionIdx pageId st = some opened ∧ opened.Capped ∧
      opened.holdsPage sectionIdx pageId := by
  unfold Store.openWriteBuf
  cases hbuf : st.writeBuf sectionIdx with
  | none =>
      have hcreated := hcapped.toTracked.createWriteBuf sectionIdx pageId
      obtain ⟨opened, hevict⟩ := evictOverCap_terminates sectionIdx hcap
        ((createWriteBuf sectionIdx pageId st).sectionShardState sectionIdx).bufOrder
        0 _ _ hcreated.sharded hcreated.queued (by simp) (Nat.le_refl _)
      have hloop := evictOverCap_induct (motive := fun later =>
          later.Tracked ∧
            (∀ i, i ≠ shardIdx sectionIdx →
              later.sectionShards i = st.sectionShards i) ∧
            later.writeBuf sectionIdx = some ⟨zeros, pageId⟩)
        (fun _ _ hlater hturn =>
          have hframe := evictOldest_frame hlater.1.sharded hturn
          ⟨hlater.1.evictOldest hturn,
            fun i hne => (hframe.1 i hne).trans (hlater.2.1 i hne),
            hframe.2.trans hlater.2.2⟩)
        ⟨hcreated, fun i hne => by
            change (st.setShard sectionIdx _).sectionShards i = _
            rw [setShard_sectionShards, if_neg hne],
          by rw [writeBuf_createWriteBuf, if_pos rfl]⟩ hevict
      obtain ⟨htracked, hframe, hlive⟩ := hloop
      refine ⟨opened, by simp only [if_pos hcap, hevict], ⟨htracked, ?_⟩, ?_⟩
      · intro i
        by_cases hsame : i = shardIdx sectionIdx
        · subst hsame
          exact live_le_of_evictOldest_eq_none hcap htracked.queued
            (evictOldest_eq_none_of_evictOverCap hevict)
        · rw [hframe i hsame]
          exact hcapped.live_le i
      · simp [holdsPage, hlive]
  | some swb =>
      by_cases hpage : swb.pageId = pageId
      · exact ⟨st, by simp only [if_pos hpage], hcapped, by
          simp [holdsPage, hbuf, hpage]⟩
      · have hflushed : (flushSectionWriteBuf swb st).Capped := hcapped.congr rfl
        refine ⟨_, by simp only [if_neg hpage]; rfl, hflushed.setWriteBuf hbuf _, ?_⟩
        simp [holdsPage, writeBuf_setWriteBuf]

/-! Calls -/

theorem Capped.fillWriteBuf {st : Store cfg} (hcapped : st.Capped)
    (sectionIdx : Int) (slot : Nat) (record : Record cfg) :
    (fillWriteBuf sectionIdx slot record st).Capped := by
  unfold Store.fillWriteBuf
  cases hbuf : st.writeBuf sectionIdx with
  | none => exact hcapped
  | some swb =>
      simp only
      generalize ({ swb with
        data := copyInto swb.data (slot * cfg.recordSize) record.bytes } :
          SectionWriteBuf) = filled
      have hfilled := hcapped.setWriteBuf hbuf filled
      split
      · have hflushed : (flushSectionWriteBuf filled
            (Store.setWriteBuf sectionIdx filled st)).Capped := hfilled.congr rfl
        have hlive : (flushSectionWriteBuf filled
            (Store.setWriteBuf sectionIdx filled st)).writeBuf sectionIdx =
              some filled := by
          rw [writeBuf_flushSectionWriteBuf, writeBuf_setWriteBuf, if_pos rfl]
        exact hflushed.eraseWriteBuf hlive
      · exact hfilled

theorem sectionShards_foldl_flush (entries : List ((_ : Int) × SectionWriteBuf)) :
    ∀ st : Store cfg, (entries.foldl
      (fun st entry => flushSectionWriteBuf entry.2 st) st).sectionShards =
        st.sectionShards := by
  induction entries with
  | nil => exact fun _ => rfl
  | cons entry entries ih => exact fun st => ih (flushSectionWriteBuf entry.2 st)

theorem Capped.flushShard {st : Store cfg} (hcapped : st.Capped) (i : Nat) :
    (flushShard i st).Capped := by
  have hshards : ∀ j, (Store.flushShard i st).sectionShards j =
      if j = i then { st.sectionShards i with
        writeBufs := ∅, bufOrder := [], bufPool := 0 }
      else st.sectionShards j := by
    intro j
    unfold Store.flushShard
    simp only [sectionShards_foldl_flush, Function.update_apply]
  refine ⟨⟨?_, ?_, ?_⟩, ?_⟩
  · intro j sectionIdx hmem
    rw [hshards] at hmem
    split at hmem
    · exact absurd hmem (AList.notMem_empty sectionIdx)
    · exact hcapped.sharded j sectionIdx hmem
  · intro hcap j sectionIdx hmem
    rw [hshards] at hmem ⊢
    split at hmem
    · exact absurd hmem (AList.notMem_empty sectionIdx)
    · rename_i hne
      rw [if_neg hne]
      exact hcapped.queued hcap j sectionIdx hmem
  · intro j
    rw [hshards]
    split
    · exact Nat.zero_le _
    · exact hcapped.pool_le j
  · intro j
    rw [hshards]
    split
    · exact Nat.zero_le _
    · exact hcapped.live_le j

theorem Capped.flushWrites {st : Store cfg} (hcapped : st.Capped) :
    st.flushWrites.Capped := by
  have hfold : ∀ (shards : List Nat) (st : Store cfg), st.Capped →
      (shards.foldl (fun st i => Store.flushShard i st) st).Capped := by
    intro shards
    induction shards with
    | nil => exact fun _ hcapped => hcapped
    | cons i shards ih => exact fun st hcapped => ih _ (hcapped.flushShard i)
  have hflushed := hfold (List.range kNumSectionShards) st hcapped
  unfold Store.flushWrites
  generalize (List.range kNumSectionShards).foldl
    (fun st i => Store.flushShard i st) st = flushed at *
  exact hflushed.congr rfl

/-- A call is never stuck in its loop, and keeps the cap. -/
theorem Capped.run {st : Store cfg} (hcapped : st.Capped)
    (hcap : 0 < cfg.writeBufCap) (call : BufferCall cfg) :
    ∃ next, call.run st = some next ∧ next.Capped := by
  cases call with
  | flushWrites => exact ⟨_, rfl, hcapped.flushWrites⟩
  | writeToSectionBuffer sectionIdx pageId slot record =>
      obtain ⟨opened, hopen, hopened, -⟩ :=
        hcapped.openWriteBuf hcap sectionIdx pageId
      unfold BufferCall.run Store.writeToSectionBuffer writeToSectionBufferLocked
      by_cases hrefused : (!st.holdsPage sectionIdx pageId && slot != 0) = true
      · exact ⟨st, by simp [hrefused], hcapped⟩
      · refine ⟨updateCacheAfterWrite pageId slot record
          (Store.fillWriteBuf sectionIdx slot record opened), ?_, ?_⟩
        · simp [hrefused, hopen]
        · exact (hopened.fillWriteBuf sectionIdx slot record).congr
            (sectionShards_updateCacheAfterWrite _ _ _ _).1

/-- Every run of calls ends, within the cap. -/
theorem Capped.runCalls (hcap : 0 < cfg.writeBufCap) (calls : List (BufferCall cfg)) :
    ∀ st : Store cfg, st.Capped → ∃ st', runCalls calls st = some st' ∧ st'.Capped := by
  induction calls with
  | nil => exact fun st hcapped => ⟨st, rfl, hcapped⟩
  | cons call calls ih =>
      intro st hcapped
      obtain ⟨next, hnext, hcapped⟩ := hcapped.run hcap call
      obtain ⟨st', hrest, hend⟩ := ih next hcapped
      exact ⟨st', by rw [Store.runCalls, hnext]; exact hrest, hend⟩

theorem capped_of_noBuffers {st : Store cfg}
    (hempty : ∀ i, (st.sectionShards i).NoBuffers) : st.Capped := by
  refine ⟨⟨?_, ?_, ?_⟩, ?_⟩
  · intro i sectionIdx hmem
    rw [(hempty i).1] at hmem
    exact absurd hmem (AList.notMem_empty sectionIdx)
  · intro _ i sectionIdx hmem
    rw [(hempty i).1] at hmem
    exact absurd hmem (AList.notMem_empty sectionIdx)
  · intro i
    rw [(hempty i).2.2]
    exact Nat.zero_le _
  · intro i
    rw [(hempty i).1]
    exact Nat.zero_le _

end Store

end AsterVec.PagedVectorStorage

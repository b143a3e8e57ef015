import AsterVec.PagedBuffers

/-!
The eviction loop ends.  Every live buffer waits in the queue of its shard, so
one pass over the queue leaves at most the buffer being written, which the cap
always admits.
-/

namespace AsterVec.PagedVectorStorage

open AsterVec.ByteBuffer
open AsterVec.IdTypes

variable {cfg : Config}

namespace Store

/-- Every live buffer is kept in the shard its section belongs to. -/
def Sharded (st : Store cfg) : Prop :=
  ∀ i sectionIdx, sectionIdx ∈ (st.sectionShards i).writeBufs →
    shardIdx sectionIdx = i

theorem Sharded.lookup {st : Store cfg} (hsharded : st.Sharded)
    {sectionIdx other : Int} {swb : SectionWriteBuf}
    (hbuf : (st.sectionShardState sectionIdx).writeBufs.lookup other = some swb) :
    shardIdx other = shardIdx sectionIdx :=
  hsharded _ other (AList.lookup_isSome.mp (Option.isSome_of_eq_some hbuf))

theorem Sharded.setShard {st : Store cfg} (hsharded : st.Sharded) {sectionIdx : Int}
    (shard : SectionShard)
    (hshard : ∀ other ∈ shard.writeBufs, shardIdx other = shardIdx sectionIdx) :
    (st.setShard sectionIdx shard).Sharded := by
  intro i other hmem
  rw [setShard_sectionShards] at hmem
  split at hmem
  · rename_i hsame
    exact (hshard other hmem).trans hsame.symm
  · exact hsharded i other hmem

theorem Queued.congr {st st' : Store cfg} (hqueued : st.Queued)
    (hshards : st'.sectionShards = st.sectionShards) : st'.Queued := by
  intro hcap i sectionIdx hmem
  rw [hshards] at hmem ⊢
  exact hqueued hcap i sectionIdx hmem

theorem Queued.setShard {st : Store cfg} (hqueued : st.Queued) {sectionIdx : Int}
    (shard : SectionShard)
    (horder : 0 < cfg.writeBufCap → ∀ other ∈ shard.writeBufs,
      other ∈ shard.bufOrder) : (st.setShard sectionIdx shard).Queued := by
  intro hcap i other hmem
  rw [setShard_sectionShards] at hmem ⊢
  split at hmem
  · rename_i hsame
    rw [if_pos hsame]
    exact horder hcap other hmem
  · rename_i hne
    rw [if_neg hne]
    exact hqueued hcap i other hmem

theorem Queued.eraseWriteBuf {st : Store cfg} (hqueued : st.Queued)
    (sectionIdx : Int) : (eraseWriteBuf sectionIdx st).Queued :=
  hqueued.setShard { st.sectionShardState sectionIdx with writeBufs := _ }
    fun hcap other hmem => hqueued hcap _ other (AList.mem_erase.mp hmem).2

theorem Queued.setWriteBuf {st : Store cfg} (hqueued : st.Queued)
    {sectionIdx : Int} {swb : SectionWriteBuf}
    (hbuf : st.writeBuf sectionIdx = some swb) (swb' : SectionWriteBuf) :
    (setWriteBuf sectionIdx swb' st).Queued := by
  refine hqueued.setShard _ fun hcap other hmem => ?_
  rcases (AList.mem_insert _).mp hmem with rfl | hmem
  · refine hqueued hcap _ other (AList.lookup_isSome.mp ?_)
    change (st.writeBuf other).isSome = true
    rw [hbuf]
    rfl
  · exact hqueued hcap _ other hmem

theorem Queued.createWriteBuf {st : Store cfg} (hqueued : st.Queued)
    (sectionIdx : Int) (pageId : Nat) :
    (createWriteBuf sectionIdx pageId st).Queued := by
  refine hqueued.setShard { st.sectionShardState sectionIdx with
    writeBufs := _, bufPool := _, bufOrder := _ } fun hcap other hmem => ?_
  simp only [if_pos hcap]
  rcases (AList.mem_insert _).mp hmem with rfl | hmem
  · exact List.mem_append_right _ List.mem_cons_self
  · exact List.mem_append_left _ (hqueued hcap _ other hmem)

/-- Everything one turn of the loop can do. -/
theorem evictOldest_cases {sectionIdx : Int} {st next : Store cfg}
    (hturn : evictOldest sectionIdx st = some next) :
    ∃ victim rest, (st.sectionShardState sectionIdx).bufOrder = victim :: rest ∧
      ((victim = sectionIdx ∧
          next = setBufOrder sectionIdx (rest ++ [victim]) st) ∨
        (victim ≠ sectionIdx ∧
          (st.sectionShardState sectionIdx).writeBufs.lookup victim = none ∧
          next = setBufOrder sectionIdx rest st) ∨
        (victim ≠ sectionIdx ∧ ∃ swb,
          (st.sectionShardState sectionIdx).writeBufs.lookup victim = some swb ∧
          next = evictWriteBuf victim swb (setBufOrder sectionIdx rest st))) := by
  unfold evictOldest at hturn
  simp only at hturn
  split at hturn
  · cases hturn
  · split at hturn
    · cases hturn
    · rename_i victim rest horder
      refine ⟨victim, rest, horder, ?_⟩
      split at hturn
      · rename_i hself
        cases hturn
        exact .inl ⟨hself, rfl⟩
      · rename_i hother
        split at hturn
        · rename_i hstale
          cases hturn
          exact .inr (.inl ⟨hother, hstale, rfl⟩)
        · rename_i swb hlive
          cases hturn
          exact .inr (.inr ⟨hother, swb, hlive, rfl⟩)

/-- The shard after one of its buffers is evicted. -/
theorem sectionShardState_evict {st : Store cfg} {sectionIdx victim : Int}
    (hshard : shardIdx victim = shardIdx sectionIdx) (swb : SectionWriteBuf)
    (rest : List Int) :
    ∃ pool, (evictWriteBuf victim swb (setBufOrder sectionIdx rest st)).sectionShards =
      Function.update st.sectionShards (shardIdx sectionIdx)
        { st.sectionShardState sectionIdx with
          writeBufs := (st.sectionShardState sectionIdx).writeBufs.erase victim
          bufOrder := rest
          bufPool := pool } := by
  refine ⟨(((evictWriteBuf victim swb (setBufOrder sectionIdx rest
    st)).sectionShards (shardIdx sectionIdx))).bufPool, ?_⟩
  simp only [evictWriteBuf, eraseWriteBuf, recycleBuf, setBufOrder, setShard,
    sectionShardState, flushSectionWriteBuf, hshard, Function.update_self,
    Function.update_idem]

theorem Sharded.evictOldest {sectionIdx : Int} {st next : Store cfg}
    (hsharded : st.Sharded) (hturn : evictOldest sectionIdx st = some next) :
    next.Sharded := by
  obtain ⟨victim, rest, -, hcases⟩ := evictOldest_cases hturn
  rcases hcases with ⟨-, rfl⟩ | ⟨-, -, rfl⟩ | ⟨-, swb, hlive, rfl⟩
  · exact hsharded.setShard _ fun other hmem => hsharded _ other hmem
  · exact hsharded.setShard _ fun other hmem => hsharded _ other hmem
  · obtain ⟨pool, hshards⟩ := sectionShardState_evict (hsharded.lookup hlive) swb rest
    intro i other hmem
    rw [hshards, Function.update_apply] at hmem
    split at hmem
    · rename_i hsame
      exact (hsharded _ other (AList.mem_erase.mp hmem).2).trans hsame.symm
    · exact hsharded i other hmem

theorem Queued.evictOldest {sectionIdx : Int} {st next : Store cfg}
    (hsharded : st.Sharded) (hqueued : st.Queued)
    (hturn : evictOldest sectionIdx st = some next) : next.Queued := by
  obtain ⟨victim, rest, horder, hcases⟩ := evictOldest_cases hturn
  have hin : 0 < cfg.writeBufCap →
      ∀ other ∈ (st.sectionShardState sectionIdx).writeBufs,
        other = victim ∨ other ∈ rest := by
    intro hcap other hmem
    have := hqueued hcap _ other hmem
    change other ∈ (st.sectionShardState sectionIdx).bufOrder at this
    rw [horder] at this
    exact List.mem_cons.mp this
  rcases hcases with ⟨-, rfl⟩ | ⟨-, hstale, rfl⟩ | ⟨-, swb, hlive, rfl⟩
  · refine hqueued.setShard _ fun hcap other hmem => ?_
    rcases hin hcap other hmem with rfl | hrest
    · exact List.mem_append_right _ List.mem_cons_self
    · exact List.mem_append_left _ hrest
  · refine hqueued.setShard _ fun hcap other hmem => ?_
    rcases hin hcap other hmem with rfl | hrest
    · exact absurd hmem (AList.lookup_eq_none.mp hstale)
    · exact hrest
  · obtain ⟨pool, hshards⟩ := sectionShardState_evict (hsharded.lookup hlive) swb rest
    have hset : (st.setShard sectionIdx { st.sectionShardState sectionIdx with
        writeBufs := (st.sectionShardState sectionIdx).writeBufs.erase victim
        bufOrder := rest
        bufPool := pool }).Queued := by
      refine hqueued.setShard _ fun hcap other hmem => ?_
      obtain ⟨hne, hmem⟩ := AList.mem_erase.mp hmem
      exact (hin hcap other hmem).resolve_left hne
    exact hset.congr hshards

theorem BuffersWellFormed.evictWriteBuf {st : Store cfg}
    (hwf : st.BuffersWellFormed) {victim : Int} {swb : SectionWriteBuf}
    (hbuf : st.writeBuf victim = some swb) :
    (evictWriteBuf victim swb st).BuffersWellFormed := by
  have hlive : (Store.recycleBuf victim (Store.flushSectionWriteBuf swb st)).writeBuf
      victim = some swb := by
    simpa using hbuf
  exact ((hwf.flushSectionWriteBuf swb).recycleBuf victim).eraseWriteBuf hlive

theorem BuffersWellFormed.evictOldest {sectionIdx : Int} {st next : Store cfg}
    (hwf : st.BuffersWellFormed)
    (hturn : evictOldest sectionIdx st = some next) : next.BuffersWellFormed := by
  obtain ⟨victim, rest, -, hcases⟩ := evictOldest_cases hturn
  rcases hcases with ⟨-, rfl⟩ | ⟨-, -, rfl⟩ | ⟨-, swb, hlive, rfl⟩
  · exact hwf.setBufOrder _ _
  · exact hwf.setBufOrder _ _
  · refine (hwf.setBufOrder sectionIdx rest).evictWriteBuf ?_
    rw [writeBuf_setBufOrder, writeBuf, sectionShardState, (hwf.lookup hlive).1]
    exact hlive

/-- A shard all of whose buffers belong to one section is within its cap. -/
theorem entries_length_le_perShardCap {bufs : AList fun _ : Int => SectionWriteBuf}
    {sectionIdx : Int} (honly : ∀ other ∈ bufs, other = sectionIdx) :
    bufs.entries.length ≤ cfg.perShardCap := by
  have hone : 1 ≤ cfg.perShardCap := Nat.le_max_left _ _
  have hkeys : bufs.keys.length ≤ 1 := by
    have hnodup := bufs.nodupKeys
    have hsub : bufs.keys ⊆ [sectionIdx] := fun other hother =>
      List.mem_singleton.mpr (honly other hother)
    exact (List.subperm_of_subset hnodup hsub).length_le
  have hlen : bufs.keys.length = bufs.entries.length := List.length_map _
  omega

/-- One pass over the queue ends the loop. -/
theorem evictOverCap_terminates (sectionIdx : Int) (hcap : 0 < cfg.writeBufCap) :
    ∀ (waiting : List Int) (requeued fuel : Nat) (st : Store cfg),
      st.Sharded → st.Queued →
      (st.sectionShardState sectionIdx).bufOrder =
        waiting ++ List.replicate requeued sectionIdx →
      waiting.length ≤ fuel →
      ∃ st', evictOverCap sectionIdx fuel st = some st' := by
  intro waiting
  induction waiting with
  | nil =>
      intro requeued fuel st _ hqueued horder _
      have honly : ∀ other ∈ (st.sectionShardState sectionIdx).writeBufs,
          other = sectionIdx := by
        intro other hmem
        have hin := hqueued hcap _ other hmem
        change other ∈ (st.sectionShardState sectionIdx).bufOrder at hin
        rw [horder] at hin
        exact List.eq_of_mem_replicate hin
      refine ⟨st, ?_⟩
      have hdone : evictOldest sectionIdx st = none :=
        if_pos (entries_length_le_perShardCap honly)
      unfold evictOverCap
      rw [hdone]
  | cons victim waiting ih =>
      intro requeued fuel st hsharded hqueued horder hfuel
      obtain ⟨fuel, rfl⟩ : ∃ n, fuel = n + 1 :=
        ⟨fuel - 1, by rw [List.length_cons] at hfuel; omega⟩
      rw [List.length_cons] at hfuel
      unfold evictOverCap
      cases hturn : evictOldest sectionIdx st with
      | none => exact ⟨st, rfl⟩
      | some next =>
          have hnextSharded := hsharded.evictOldest hturn
          have hnextQueued := Queued.evictOldest hsharded hqueued hturn
          obtain ⟨v, rest, hpop, hcases⟩ := evictOldest_cases hturn
          rw [horder, List.cons_append] at hpop
          obtain ⟨rfl, rfl⟩ := List.cons.inj hpop
          rcases hcases with ⟨rfl, rfl⟩ | ⟨-, -, rfl⟩ | ⟨-, swb, hlive, rfl⟩
          · refine ih (requeued + 1) fuel _ hnextSharded hnextQueued ?_ (by omega)
            rw [List.replicate_succ', ← List.append_assoc]
            simp [setBufOrder, setShard, sectionShardState]
          · refine ih requeued fuel _ hnextSharded hnextQueued ?_ (by omega)
            simp [setBufOrder, setShard, sectionShardState]
          · refine ih requeued fuel _ hnextSharded hnextQueued ?_ (by omega)
            obtain ⟨pool, hshards⟩ := sectionShardState_evict (hsharded.lookup hlive) swb
              (waiting ++ List.replicate requeued sectionIdx)
            rw [sectionShardState, hshards, Function.update_self]

end Store

end AsterVec.PagedVectorStorage

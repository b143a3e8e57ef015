import AsterVec.PagedLoad

/-!
Stores whose positional writes can fail.  A page flush ignores what its write
returned; the write of a single record reports it.
-/

namespace AsterVec.PagedVectorStorage

open AsterVec.ByteBuffer
open AsterVec.IdTypes

variable {cfg : Config}

/-- How the positional writes of one call end.  A call flushes a page at most
once: `page` is the number of its bytes that reach the file, 0 for a write that
fails.  `record` is the number of bytes of a direct record write before it fails;
`extension` tells whether the file grows over a fresh page. -/
structure Writes where
  page : Nat → Nat
  record : Option Nat
  extension : Bool

/-- Every page flush writes the whole page. -/
def Writes.Complete (writes : Writes) : Prop := ∀ pageId, kPageSize ≤ writes.page pageId

namespace Store

namespace Faulty

/-- The cached copy is refreshed whatever the write returned. -/
def flushSectionWriteBuf (writes : Writes) (swb : SectionWriteBuf) (st : Store cfg) :
    Store cfg :=
  { Store.flushSectionWriteBuf swb st with
    file := st.file.pwrite (swb.pageId * kPageSize)
      (min kPageSize (writes.page swb.pageId)) swb.data }

def evictWriteBuf (writes : Writes) (victim : Int) (swb : SectionWriteBuf)
    (st : Store cfg) : Store cfg :=
  eraseWriteBuf victim (recycleBuf victim (flushSectionWriteBuf writes swb st))

def evictOldest (writes : Writes) (sectionIdx : Int) (st : Store cfg) :
    Option (Store cfg) :=
  let shard := st.sectionShardState sectionIdx
  if shard.writeBufs.entries.length ≤ cfg.perShardCap then none
  else
    match shard.bufOrder with
    | [] => none
    | victim :: rest =>
        if victim = sectionIdx then
          some (setBufOrder sectionIdx (rest ++ [victim]) st)
        else
          match shard.writeBufs.lookup victim with
          | none => some (setBufOrder sectionIdx rest st)
          | some swb =>
              some (evictWriteBuf writes victim swb (setBufOrder sectionIdx rest st))

def evictOverCap (writes : Writes) (sectionIdx : Int) :
    Nat → Store cfg → Option (Store cfg)
  | fuel, st =>
      match evictOldest writes sectionIdx st, fuel with
      | none, _ => some st
      | some _, 0 => none
      | some st, fuel + 1 => evictOverCap writes sectionIdx fuel st

def openWriteBuf (writes : Writes) (sectionIdx : Int) (pageId : Nat) (st : Store cfg) :
    Option (Store cfg) :=
  match st.writeBuf sectionIdx with
  | none =>
      let created := createWriteBuf sectionIdx pageId st
      if 0 < cfg.writeBufCap then
        evictOverCap writes sectionIdx
          (created.sectionShardState sectionIdx).bufOrder.length created
      else some created
  | some swb =>
      if swb.pageId = pageId then some st
      else some (setWriteBuf sectionIdx ⟨zeros, pageId⟩
        (flushSectionWriteBuf writes swb st))

def fillWriteBuf (writes : Writes) (sectionIdx : Int) (slot : Nat) (record : Record cfg)
    (st : Store cfg) : Store cfg :=
  match st.writeBuf sectionIdx with
  | none => st
  | some swb =>
      let swb := { swb with
        data := copyInto swb.data (slot * cfg.recordSize) record.bytes }
      let st := setWriteBuf sectionIdx swb st
      if cfg.vectorsPerPage ≤ slot + 1 then
        eraseWriteBuf sectionIdx (flushSectionWriteBuf writes swb st)
      else st

def writeToSectionBufferLocked (writes : Writes) (sectionIdx : Int) (pageId slot : Nat)
    (record : Record cfg) (st : Store cfg) : Option (Bool × Store cfg) :=
  if !st.holdsPage sectionIdx pageId && slot != 0 then some (false, st)
  else (openWriteBuf writes sectionIdx pageId st).map fun st =>
    (true, fillWriteBuf writes sectionIdx slot record st)

/-- The direct write of a record with the refresh of the cached copy; `false`
when it throws, with the bytes written so far in the file. -/
def writeRecord (writes : Writes) (pageId slot : Nat) (record : Record cfg)
    (st : Store cfg) : Bool × Store cfg :=
  match writes.record with
  | none => (true, updateCacheAfterWrite pageId slot record
      (Store.writeRecord pageId slot record st))
  | some written => (false, { st with
      file := st.file.pwriteBytes (pageId * kPageSize + slot * cfg.recordSize)
        (record.bytes.dropLast.take written) })

def writeNewRecord (writes : Writes) (sectionIdx : Int) (pageId slot : Nat)
    (record : Record cfg) (st : Store cfg) : Option (Bool × Store cfg) :=
  if sectionIdx < 0 then some (writeRecord writes pageId slot record st)
  else
    match writeToSectionBufferLocked writes sectionIdx pageId slot record st with
    | none => none
    | some (true, st) => some (true, updateCacheAfterWrite pageId slot record st)
    | some (false, st) => some (writeRecord writes pageId slot record st)

/-- The allocator touches the file only to grow it over a fresh page. -/
def allocateSlotForSection (writes : Writes) (sectionKey : Nat) (st : Store cfg) :
    Option (Int × Nat × Nat) × Store cfg :=
  ((Store.allocateSlotForSection sectionKey st).1,
    if writes.extension then (Store.allocateSlotForSection sectionKey st).2
    else { (Store.allocateSlotForSection sectionKey st).2 with file := st.file })

def storeEncoded (writes : Writes) (id : Nat) (record : Record cfg) (sectionKey : Nat)
    (st : Store cfg) : Outcome Unit × Store cfg :=
  match st.ensureDenseCapacity id with
  | (.returned (), st) =>
      match st.pageOf id, st.slotOf id with
      | none, _ => (.undefined, st)
      | some (.ofNat _), none => (.undefined, st)
      | some (.ofNat curPage), some curSlot =>
          match writeRecord writes curPage curSlot record st with
          | (true, st) => (.returned (), st.markDeletedAt id false)
          | (false, st) => (.threw, st)
      | some (.negSucc _), _ =>
          match allocateSlotForSection writes sectionKey st with
          | (none, st) => (.threw, st)
          | (some (sectionIdx, pageId, slot), st) =>
              match writeNewRecord writes sectionIdx pageId slot record st with
              | none => (.undefined, st)
              | some (false, st) => (.threw, st)
              | some (true, st) =>
                  (st.markDeletedAt id false).assignLocation id pageId slot
  | (outcome, st) => (outcome, st)

def flushShard (writes : Writes) (shardIdx : Nat) (st : Store cfg) : Store cfg :=
  let shard := st.sectionShards shardIdx
  let flushed := shard.writeBufs.entries.foldl
    (fun st entry => flushSectionWriteBuf writes entry.2 st) st
  { flushed with
    sectionShards := Function.update flushed.sectionShards shardIdx
      { shard with writeBufs := ∅, bufOrder := [], bufPool := 0 } }

def flushWrites (writes : Writes) (st : Store cfg) : Store cfg :=
  { (List.range kNumSectionShards).foldl (fun st i => flushShard writes i st) st with
    sectionWriteBufsCount := 0 }

/-- The answer depends on the two `fsync` calls alone. -/
def syncData (writes : Writes) (synced : Bool) (st : Store cfg) : Bool × Store cfg :=
  (synced, flushWrites writes st)

end Faulty

/-! Flushes that write their whole page -/

section Complete

variable {writes : Writes} (hcomplete : writes.Complete)

include hcomplete

theorem flushSectionWriteBuf_of_complete :
    @Faulty.flushSectionWriteBuf cfg writes = flushSectionWriteBuf := by
  funext swb st
  unfold Faulty.flushSectionWriteBuf flushSectionWriteBuf
  rw [Nat.min_eq_left (hcomplete swb.pageId)]

theorem evictOldest_of_complete :
    @Faulty.evictOldest cfg writes = evictOldest := by
  funext sectionIdx st
  simp only [Faulty.evictOldest, Faulty.evictWriteBuf,
    flushSectionWriteBuf_of_complete hcomplete]
  rfl

theorem evictOverCap_of_complete (sectionIdx : Int) (fuel : Nat) (st : Store cfg) :
    Faulty.evictOverCap writes sectionIdx fuel st = evictOverCap sectionIdx fuel st := by
  induction fuel generalizing st with
  | zero =>
      unfold Faulty.evictOverCap evictOverCap
      rw [evictOldest_of_complete hcomplete]
      cases evictOldest sectionIdx st <;> rfl
  | succ fuel ih =>
      unfold Faulty.evictOverCap evictOverCap
      rw [evictOldest_of_complete hcomplete]
      cases evictOldest sectionIdx st with
      | none => rfl
      | some next => exact ih next

theorem writeToSectionBufferLocked_of_complete :
    @Faulty.writeToSectionBufferLocked cfg writes =
      writeToSectionBufferLocked := by
  have hopen : @Faulty.openWriteBuf cfg writes = openWriteBuf := by
    funext sectionIdx pageId st
    simp only [Faulty.openWriteBuf, evictOverCap_of_complete hcomplete,
      flushSectionWriteBuf_of_complete hcomplete]
    rfl
  have hfill : @Faulty.fillWriteBuf cfg writes = fillWriteBuf := by
    funext sectionIdx slot record st
    simp only [Faulty.fillWriteBuf, flushSectionWriteBuf_of_complete hcomplete]
    rfl
  funext sectionIdx pageId slot record st
  simp only [Faulty.writeToSectionBufferLocked, hopen, hfill]
  rfl

theorem flushWrites_of_complete : @Faulty.flushWrites cfg writes = flushWrites := by
  have hshard : @Faulty.flushShard cfg writes = flushShard := by
    funext i st
    simp only [Faulty.flushShard, flushSectionWriteBuf_of_complete hcomplete]
    rfl
  funext st
  simp only [Faulty.flushWrites, hshard]
  rfl

end Complete

/-! Record writes -/

/-- Bytes of one slot of a page without a buffer that reach the file leave the
other slots as they were. -/
theorem holds_pwriteBytes {st : Store cfg} {pageId slot : Nat}
    (hnone : st.bufferHolding pageId = none) (hslot : slot < cfg.vectorsPerPage)
    {bytes : List UInt8} (hlength : bytes.length ≤ cfg.recordSize)
    {other otherSlot : Nat} {found : Record cfg} (hother : otherSlot < cfg.vectorsPerPage)
    (hne : other = pageId → otherSlot ≠ slot) (hholds : st.Holds other otherSlot found) :
    Holds { st with
      file := st.file.pwriteBytes (pageId * kPageSize + slot * cfg.recordSize) bytes }
      other otherSlot found := by
  have hfits := cfg.slot_fits hslot
  have hotherFits := cfg.slot_fits hother
  refine ⟨?_, hholds.cached, fun hmax hfree =>
    Nat.le_trans (hholds.backed hmax hfree) (ByteFile.size_le_pwrite _ _ _ _)⟩
  rw [← hholds.content]
  cases hheld : st.bufferHolding other with
  | some held =>
      unfold overlaidPage
      rw [hheld, show bufferHolding { st with
        file := st.file.pwriteBytes (pageId * kPageSize + slot * cfg.recordSize) bytes }
          other = st.bufferHolding other from rfl, hheld]
  | none =>
      rw [overlaidPage_of_none hheld, @overlaidPage_of_none cfg { st with
        file := st.file.pwriteBytes (pageId * kPageSize + slot * cfg.recordSize) bytes }
        other hheld]
      unfold recordAt
      congr 1
      apply slice_congr
      intro k hk
      change copyInto st.file.bytes _ bytes _ = _
      unfold copyInto
      rw [if_neg]
      rintro ⟨hlow, hhigh⟩
      rcases Nat.lt_trichotomy other pageId with hlt | heq | hgt
      · have hpage := Nat.mul_le_mul_right kPageSize (Nat.succ_le_of_lt hlt)
        rw [Nat.succ_mul] at hpage
        omega
      · subst heq
        rcases Nat.lt_or_gt_of_ne (hne rfl) with hlt | hgt
        · have hslots := Nat.mul_le_mul_right cfg.recordSize (Nat.succ_le_of_lt hlt)
          rw [Nat.succ_mul] at hslots
          omega
        · have hslots := Nat.mul_le_mul_right cfg.recordSize (Nat.succ_le_of_lt hgt)
          rw [Nat.succ_mul] at hslots
          omega
      · have hpage := Nat.mul_le_mul_right kPageSize (Nat.succ_le_of_lt hgt)
        rw [Nat.succ_mul] at hpage
        omega

/-- A record write that fails is one to a page without a buffer, and it leaves
every other slot alone. -/
theorem writeNewRecord_threw {writes : Writes} (hcomplete : writes.Complete)
    {st st' : Store cfg} (hwf : st.WellFormed) {sectionIdx : Int} {pageId slot : Nat}
    {record : Record cfg} (hslot : slot < cfg.vectorsPerPage)
    (hpage : st.sectionIdxOfPage pageId = sectionIdx)
    (hthrew : Faulty.writeNewRecord writes sectionIdx pageId slot record st =
      some (false, st')) :
    st'.layout = st.layout ∧ st'.WellFormed ∧
      ∀ other otherSlot found, otherSlot < cfg.vectorsPerPage →
        (other = pageId → otherSlot ≠ slot) → st.Holds other otherSlot found →
        st'.Holds other otherSlot found := by
  -- Only the direct write fails, and it is taken for pages without a buffer.
  have hdirect : ∀ {st'}, st.bufferHolding pageId = none →
      Faulty.writeRecord writes pageId slot record st = (false, st') →
      st'.layout = st.layout ∧ st'.WellFormed ∧
      ∀ other otherSlot found, otherSlot < cfg.vectorsPerPage →
        (other = pageId → otherSlot ≠ slot) → st.Holds other otherSlot found →
        st'.Holds other otherSlot found := by
    intro st' hnone hwrite
    unfold Faulty.writeRecord at hwrite
    split at hwrite
    · cases hwrite
    · rename_i written _
      cases hwrite
      have htorn : (record.bytes.dropLast.take written).length ≤ cfg.recordSize := by
        rw [List.length_take, List.length_dropLast, record.length_eq]
        omega
      refine ⟨rfl, ⟨?_, hwf.queued.congr rfl, hwf.cache.congr rfl rfl rfl rfl⟩, ?_⟩
      · exact hwf.buffers.congr (fun _ => rfl) (fun other page hpage => by
          change (st.pages[other]?).elim (-1) PageMeta.sectionIdx = _
          rw [hpage]
          rfl) rfl
      · exact fun other otherSlot found hother hne hholds =>
          holds_pwriteBytes hnone hslot htorn hother hne hholds
  unfold Faulty.writeNewRecord at hthrew
  rw [writeToSectionBufferLocked_of_complete hcomplete] at hthrew
  split at hthrew
  · rename_i hneg
    apply hdirect _ (Option.some.inj hthrew)
    rw [bufferHolding_eq_none_iff hwf.buffers]
    intro other swb hbuf hsame
    obtain ⟨hnonneg, hsection⟩ := hwf.buffers.buf_page other swb hbuf
    rw [hsame, hpage] at hsection
    omega
  · split at hthrew
    · cases hthrew
    · cases hthrew
    · rename_i refused hrefused
      unfold writeToSectionBufferLocked at hrefused
      split at hrefused
      · rename_i hfirst
        cases hrefused
        simp only [Bool.and_eq_true, Bool.not_eq_true', bne_iff_ne] at hfirst
        exact hdirect (bufferHolding_eq_none_of_holdsPage hwf.buffers hpage hfirst.1)
          (Option.some.inj hthrew)
      · obtain ⟨_, -, heq⟩ := Option.map_eq_some_iff.mp hrefused
        cases heq

/-- A record write that does not fail is the plain one. -/
theorem writeNewRecord_of_complete {writes : Writes} (hcomplete : writes.Complete)
    {st : Store cfg} {sectionIdx : Int} {pageId slot : Nat} {record : Record cfg}
    {ok : Bool} {st' : Store cfg}
    (hwrite : Faulty.writeNewRecord writes sectionIdx pageId slot record st =
      some (ok, st')) (hok : ok = true) :
    writeNewRecord sectionIdx pageId slot record st = some st' := by
  have hdirect : ∀ {st' : Store cfg},
      Faulty.writeRecord writes pageId slot record st = (true, st') →
      updateCacheAfterWrite pageId slot record (writeRecord pageId slot record st) = st' := by
    intro st' hwrite
    unfold Faulty.writeRecord at hwrite
    split at hwrite
    · exact congrArg Prod.snd hwrite
    · cases hwrite
  subst hok
  unfold Faulty.writeNewRecord at hwrite
  unfold writeNewRecord
  rw [writeToSectionBufferLocked_of_complete hcomplete] at hwrite
  split at hwrite
  · rename_i hneg
    rw [if_pos hneg, hdirect (Option.some.inj hwrite)]
  · rename_i hpos
    rw [if_neg hpos]
    rcases hlocked : writeToSectionBufferLocked sectionIdx pageId slot record st with
      _ | ⟨_ | _, written⟩
    · rw [hlocked] at hwrite
      cases hwrite
    · rw [hlocked] at hwrite
      have hrefused : written = st := by
        unfold writeToSectionBufferLocked at hlocked
        split at hlocked
        · cases hlocked
          rfl
        · obtain ⟨_, -, heq⟩ := Option.map_eq_some_iff.mp hlocked
          cases heq
      subst hrefused
      exact congrArg some (hdirect (Option.some.inj hwrite))
    · rw [hlocked] at hwrite
      exact congrArg some (congrArg Prod.snd (Option.some.inj hwrite))

end Store

end AsterVec.PagedVectorStorage

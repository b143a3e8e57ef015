import AsterVec.PagedBufferCap
import AsterVec.PagedMetadata

/-!
What a call on the write buffers does, step by step.  A call is the sequence of
its steps, and in every call a buffer is written to its page, with the contents
it has, before a step recycles it, drops it or turns it to another page.
-/

namespace AsterVec.PagedVectorStorage

open AsterVec.ByteBuffer

variable {cfg : Config}

/-- One change of the buffers.  `queue` replaces a section's eviction queue,
`recycle` offers its allocation to the pool, `fill` gives it a new image. -/
inductive BufferStep (cfg : Config) where
  | create (sectionIdx : Int) (pageId : Nat)
  | queue (sectionIdx : Int) (bufOrder : List Int)
  | flush (sectionIdx : Int) (swb : SectionWriteBuf)
  | recycle (sectionIdx : Int)
  | erase (sectionIdx : Int)
  | fill (sectionIdx : Int) (swb : SectionWriteBuf)
  | clear (shardIdx : Nat)
  | resetCount
  | cache (pageId slot : Nat) (record : Record cfg)

namespace BufferStep

open Store

def perform : BufferStep cfg → Store cfg → Store cfg
  | .create sectionIdx pageId, st => createWriteBuf sectionIdx pageId st
  | .queue sectionIdx bufOrder, st => setBufOrder sectionIdx bufOrder st
  | .flush _ swb, st => flushSectionWriteBuf swb st
  | .recycle sectionIdx, st => recycleBuf sectionIdx st
  | .erase sectionIdx, st => eraseWriteBuf sectionIdx st
  | .fill sectionIdx swb, st => setWriteBuf sectionIdx swb st
  | .clear shardIdx, st =>
      { st with
        sectionShards := Function.update st.sectionShards shardIdx
          { st.sectionShards shardIdx with
            writeBufs := ∅, bufOrder := [], bufPool := 0 } }
  | .resetCount, st => { st with sectionWriteBufsCount := 0 }
  | .cache pageId slot record, st => updateCacheAfterWrite pageId slot record st

def performAll (steps : List (BufferStep cfg)) (st : Store cfg) : Store cfg :=
  steps.foldl (fun st step => step.perform st) st

/-- The step recycles the live buffer of a section, or leaves the section
without a buffer of its page. -/
def GivesUp (step : BufferStep cfg) (st : Store cfg) (sectionIdx : Int)
    (swb : SectionWriteBuf) : Prop :=
  st.writeBuf sectionIdx = some swb ∧
    (step = .recycle sectionIdx ∨
      ((step.perform st).writeBuf sectionIdx).map SectionWriteBuf.pageId ≠
        some swb.pageId)

/-- Whenever a step gives a buffer up, an earlier one has written the buffer,
as it is, to its page. -/
def WrittenFirst : List (BufferStep cfg) → Store cfg → List (BufferStep cfg) → Prop
  | _, _, [] => True
  | done, st, step :: steps =>
      (∀ sectionIdx swb, step.GivesUp st sectionIdx swb →
        .flush sectionIdx swb ∈ done) ∧
      WrittenFirst (step :: done) (step.perform st) steps

theorem performAll_append (first rest : List (BufferStep cfg)) (st : Store cfg) :
    performAll (first ++ rest) st = performAll rest (performAll first st) :=
  List.foldl_append

theorem WrittenFirst.mono {steps : List (BufferStep cfg)} :
    ∀ {done done' : List (BufferStep cfg)} {st : Store cfg},
      WrittenFirst done st steps → done ⊆ done' → WrittenFirst done' st steps := by
  induction steps with
  | nil => exact fun _ _ => trivial
  | cons step steps ih =>
      intro done done' st hwritten hsub
      exact ⟨fun sectionIdx swb hgives => hsub (hwritten.1 sectionIdx swb hgives),
        ih hwritten.2 (List.cons_subset_cons step hsub)⟩

theorem WrittenFirst.append {first rest : List (BufferStep cfg)} :
    ∀ {done : List (BufferStep cfg)} {st : Store cfg}, WrittenFirst done st first →
      WrittenFirst done (performAll first st) rest →
      WrittenFirst done st (first ++ rest) := by
  induction first with
  | nil => exact fun _ hrest => hrest
  | cons step first ih =>
      intro done st hfirst hrest
      exact ⟨hfirst.1, ih hfirst.2 (hrest.mono (List.subset_cons_self step done))⟩

/-- A step other than recycling that leaves a section its buffer does not give
it up. -/
theorem not_givesUp_of_kept {step : BufferStep cfg} {st : Store cfg}
    {sectionIdx : Int} {swb : SectionWriteBuf} (hrecycle : step ≠ .recycle sectionIdx)
    (hkept : (step.perform st).writeBuf sectionIdx = st.writeBuf sectionIdx) :
    ¬step.GivesUp st sectionIdx swb := by
  rintro ⟨hlive, hgone⟩
  refine hgone.elim hrecycle fun hgone => hgone ?_
  rw [hkept, hlive]
  rfl

/-- Steps that change no buffer but the one of `sectionIdx` give up no other. -/
theorem GivesUp.section_eq {step : BufferStep cfg} {st : Store cfg}
    {sectionIdx other : Int} {swb : SectionWriteBuf}
    (hgives : step.GivesUp st other swb)
    (hframe : other ≠ sectionIdx → step ≠ .recycle other ∧
      (step.perform st).writeBuf other = st.writeBuf other) : other = sectionIdx := by
  by_contra hne
  exact not_givesUp_of_kept (hframe hne).1 (hframe hne).2 hgives

theorem not_givesUp_flush {st : Store cfg} {sectionIdx other : Int}
    {swb swb' : SectionWriteBuf} :
    ¬(BufferStep.flush sectionIdx swb : BufferStep cfg).GivesUp st other swb' :=
  not_givesUp_of_kept (by rintro ⟨⟩) rfl

theorem not_givesUp_queue {st : Store cfg} {sectionIdx other : Int}
    {bufOrder : List Int} {swb : SectionWriteBuf} :
    ¬(BufferStep.queue sectionIdx bufOrder : BufferStep cfg).GivesUp st other swb :=
  not_givesUp_of_kept (by rintro ⟨⟩) (writeBuf_setBufOrder _ _ _ _)

theorem not_givesUp_cache {st : Store cfg} {pageId slot : Nat} {record : Record cfg}
    {sectionIdx : Int} {swb : SectionWriteBuf} :
    ¬(BufferStep.cache pageId slot record).GivesUp st sectionIdx swb := by
  refine not_givesUp_of_kept (by rintro ⟨⟩) ?_
  change (updateCacheAfterWrite pageId slot record st).writeBuf sectionIdx = _
  simp only [writeBuf, sectionShardState,
    (sectionShards_updateCacheAfterWrite pageId slot record st).1]

end BufferStep

namespace Store

open BufferStep

/-! The steps of a call -/

/-- One turn of the eviction loop. -/
def evictOldestSteps (sectionIdx : Int) (st : Store cfg) : List (BufferStep cfg) :=
  let shard := st.sectionShardState sectionIdx
  match shard.bufOrder with
  | [] => []
  | victim :: rest =>
      if victim = sectionIdx then [.queue sectionIdx (rest ++ [victim])]
      else
        match shard.writeBufs.lookup victim with
        | none => [.queue sectionIdx rest]
        | some swb =>
            [.queue sectionIdx rest, .flush victim swb, .recycle victim, .erase victim]

def evictOverCapSteps (sectionIdx : Int) : Nat → Store cfg → List (BufferStep cfg)
  | fuel, st =>
      match evictOldest sectionIdx st, fuel with
      | none, _ => []
      | some _, 0 => []
      | some next, fuel + 1 =>
          evictOldestSteps sectionIdx st ++ evictOverCapSteps sectionIdx fuel next

def openWriteBufSteps (sectionIdx : Int) (pageId : Nat) (st : Store cfg) :
    List (BufferStep cfg) :=
  match st.writeBuf sectionIdx with
  | none =>
      let created := createWriteBuf sectionIdx pageId st
      .create sectionIdx pageId ::
        if 0 < cfg.writeBufCap then evictOverCapSteps sectionIdx
          (created.sectionShardState sectionIdx).bufOrder.length created
        else []
  | some swb =>
      if swb.pageId = pageId then []
      else [.flush sectionIdx swb, .fill sectionIdx ⟨zeros, pageId⟩]

def fillWriteBufSteps (sectionIdx : Int) (slot : Nat) (record : Record cfg)
    (st : Store cfg) : List (BufferStep cfg) :=
  match st.writeBuf sectionIdx with
  | none => []
  | some swb =>
      let swb := { swb with
        data := copyInto swb.data (slot * cfg.recordSize) record.bytes }
      .fill sectionIdx swb ::
        if cfg.vectorsPerPage ≤ slot + 1 then
          [.flush sectionIdx swb, .erase sectionIdx]
        else []

def writeToSectionBufferSteps (sectionIdx : Int) (pageId slot : Nat)
    (record : Record cfg) (st : Store cfg) : List (BufferStep cfg) :=
  if !st.holdsPage sectionIdx pageId && slot != 0 then []
  else
    match openWriteBuf sectionIdx pageId st with
    | none => []
    | some opened =>
        openWriteBufSteps sectionIdx pageId st ++
          (fillWriteBufSteps sectionIdx slot record opened ++
            [.cache pageId slot record])

def flushShardSteps (shardIdx : Nat) (st : Store cfg) : List (BufferStep cfg) :=
  (st.sectionShards shardIdx).writeBufs.entries.map
    (fun entry => .flush entry.1 entry.2) ++ [.clear shardIdx]

def flushShardsSteps : List Nat → Store cfg → List (BufferStep cfg)
  | [], _ => []
  | i :: shards, st => flushShardSteps i st ++ flushShardsSteps shards (flushShard i st)

def flushWritesSteps (st : Store cfg) : List (BufferStep cfg) :=
  flushShardsSteps (List.range kNumSectionShards) st ++ [.resetCount]

end Store

def BufferCall.steps : BufferCall cfg → Store cfg → List (BufferStep cfg)
  | .writeToSectionBuffer sectionIdx pageId slot record, st =>
      Store.writeToSectionBufferSteps sectionIdx pageId slot record st
  | .flushWrites, st => Store.flushWritesSteps st

namespace Store

open BufferStep

/-! A call is its steps -/

theorem performAll_evictOldestSteps {sectionIdx : Int} {st next : Store cfg}
    (hturn : evictOldest sectionIdx st = some next) :
    performAll (evictOldestSteps sectionIdx st) st = next := by
  obtain ⟨victim, rest, horder, hcases⟩ := evictOldest_cases hturn
  unfold evictOldestSteps
  simp only [horder]
  rcases hcases with ⟨rfl, rfl⟩ | ⟨hother, hstale, rfl⟩ | ⟨hother, swb, hlive, rfl⟩
  · rw [if_pos rfl]
    rfl
  · rw [if_neg hother, hstale]
    rfl
  · rw [if_neg hother, hlive]
    rfl

theorem performAll_evictOverCapSteps {sectionIdx : Int} {fuel : Nat} {st st' : Store cfg}
    (hevict : evictOverCap sectionIdx fuel st = some st') :
    performAll (evictOverCapSteps sectionIdx fuel st) st = st' := by
  apply evictOverCap_rec (motive := fun fuel st =>
    performAll (evictOverCapSteps sectionIdx fuel st) st = st') _ _ hevict
  · intro fuel hdone
    unfold evictOverCapSteps
    rw [hdone]
    rfl
  · intro fuel st next hturn hrest
    unfold evictOverCapSteps
    rw [hturn]
    simp only
    rw [performAll_append, performAll_evictOldestSteps hturn]
    exact hrest

theorem performAll_openWriteBufSteps {sectionIdx : Int} {pageId : Nat}
    {st opened : Store cfg} (hopen : openWriteBuf sectionIdx pageId st = some opened) :
    performAll (openWriteBufSteps sectionIdx pageId st) st = opened := by
  unfold openWriteBuf at hopen
  unfold openWriteBufSteps
  cases hbuf : st.writeBuf sectionIdx with
  | none =>
      rw [hbuf] at hopen
      simp only at hopen ⊢
      split
      · rename_i hcap
        rw [if_pos hcap] at hopen
        exact performAll_evictOverCapSteps hopen
      · rename_i hcap
        rw [if_neg hcap] at hopen
        exact Option.some.inj hopen
  | some swb =>
      rw [hbuf] at hopen
      simp only at hopen ⊢
      split
      · rename_i hpage
        rw [if_pos hpage] at hopen
        exact Option.some.inj hopen
      · rename_i hpage
        rw [if_neg hpage] at hopen
        exact Option.some.inj hopen

theorem performAll_fillWriteBufSteps (sectionIdx : Int) (slot : Nat)
    (record : Record cfg) (st : Store cfg) :
    performAll (fillWriteBufSteps sectionIdx slot record st) st =
      fillWriteBuf sectionIdx slot record st := by
  unfold fillWriteBufSteps fillWriteBuf
  cases st.writeBuf sectionIdx with
  | none => rfl
  | some swb =>
      simp only
      split <;> rfl

theorem performAll_flushes (entries : List ((_ : Int) × SectionWriteBuf)) :
    ∀ st : Store cfg, performAll (entries.map fun entry =>
        (.flush entry.1 entry.2 : BufferStep cfg)) st =
      entries.foldl (fun st entry => flushSectionWriteBuf entry.2 st) st := by
  induction entries with
  | nil => exact fun _ => rfl
  | cons entry entries ih => exact fun st => ih (flushSectionWriteBuf entry.2 st)

theorem performAll_flushShardSteps (i : Nat) (st : Store cfg) :
    performAll (flushShardSteps i st) st = flushShard i st := by
  unfold flushShardSteps flushShard
  rw [performAll_append, performAll_flushes]
  have hshards := sectionShards_foldl_flush (st.sectionShards i).writeBufs.entries st
  simp only
  generalize (st.sectionShards i).writeBufs.entries.foldl
    (fun st entry => flushSectionWriteBuf entry.2 st) st = flushed at *
  change ({ flushed with sectionShards := _ } : Store cfg) = _
  rw [hshards]

theorem performAll_flushShardsSteps (shards : List Nat) :
    ∀ st : Store cfg, performAll (flushShardsSteps shards st) st =
      shards.foldl (fun st i => flushShard i st) st := by
  induction shards with
  | nil => exact fun _ => rfl
  | cons i shards ih =>
      intro st
      rw [flushShardsSteps, performAll_append, performAll_flushShardSteps, ih]
      rfl

theorem performAll_flushWritesSteps (st : Store cfg) :
    performAll (flushWritesSteps st) st = st.flushWrites := by
  unfold flushWritesSteps flushWrites
  rw [performAll_append, performAll_flushShardsSteps]
  generalize (List.range kNumSectionShards).foldl
    (fun st i => flushShard i st) st = flushed
  rfl

theorem performAll_steps {call : BufferCall cfg} {st next : Store cfg}
    (hrun : call.run st = some next) : performAll (call.steps st) st = next := by
  cases call with
  | flushWrites =>
      exact (performAll_flushWritesSteps st).trans (Option.some.inj hrun)
  | writeToSectionBuffer sectionIdx pageId slot record =>
      change (writeToSectionBuffer sectionIdx pageId slot record st).map Prod.snd =
        _ at hrun
      change performAll (writeToSectionBufferSteps sectionIdx pageId slot record st)
        st = next
      unfold writeToSectionBuffer writeToSectionBufferLocked at hrun
      unfold writeToSectionBufferSteps
      split
      · rename_i hrefused
        rw [if_pos hrefused] at hrun
        exact Option.some.inj hrun
      · rename_i htaken
        rw [if_neg htaken] at hrun
        cases hopen : openWriteBuf sectionIdx pageId st with
        | none =>
            rw [hopen] at hrun
            cases hrun
        | some opened =>
            rw [hopen] at hrun
            simp only
            rw [performAll_append, performAll_openWriteBufSteps hopen,
              performAll_append, performAll_fillWriteBufSteps]
            exact Option.some.inj hrun

/-! Buffers reach their pages first -/

theorem writtenFirst_evictOldestSteps {sectionIdx : Int} {st : Store cfg}
    (hsharded : st.Sharded) : WrittenFirst [] st (evictOldestSteps sectionIdx st) := by
  unfold evictOldestSteps
  simp only
  split
  · trivial
  · rename_i victim rest horder
    split
    · exact ⟨fun _ _ hgives => absurd hgives not_givesUp_queue, trivial⟩
    · split
      · exact ⟨fun _ _ hgives => absurd hgives not_givesUp_queue, trivial⟩
      · rename_i swb hlive
        have hbuf : st.writeBuf victim = some swb := by
          rw [writeBuf, sectionShardState, hsharded.lookup hlive]
          exact hlive
        refine ⟨fun _ _ hgives => absurd hgives not_givesUp_queue,
          fun _ _ hgives => absurd hgives not_givesUp_flush, ?_, ?_, trivial⟩
        · intro other swb' hgives
          obtain rfl : other = victim := hgives.section_eq fun hne =>
            ⟨fun hsame => hne (BufferStep.recycle.inj hsame).symm,
              writeBuf_recycleBuf _ _ _⟩
          have hsame : st.writeBuf other = some swb' := by
            simpa [perform] using hgives.1
          obtain rfl := Option.some.inj (hbuf.symm.trans hsame)
          exact List.mem_cons_self
        · intro other swb' hgives
          obtain rfl : other = victim := hgives.section_eq fun hne =>
            ⟨by rintro ⟨⟩, by
              change (eraseWriteBuf victim _).writeBuf other = _
              rw [writeBuf_eraseWriteBuf, if_neg hne]⟩
          have hsame : st.writeBuf other = some swb' := by
            simpa [perform] using hgives.1
          obtain rfl := Option.some.inj (hbuf.symm.trans hsame)
          exact List.mem_cons_of_mem _ List.mem_cons_self

theorem writtenFirst_evictOverCapSteps {sectionIdx : Int} {fuel : Nat} :
    ∀ {st : Store cfg}, st.Sharded →
      WrittenFirst [] st (evictOverCapSteps sectionIdx fuel st) := by
  induction fuel with
  | zero =>
      intro st _
      unfold evictOverCapSteps
      cases evictOldest sectionIdx st <;> trivial
  | succ fuel ih =>
      intro st hsharded
      unfold evictOverCapSteps
      cases hturn : evictOldest sectionIdx st with
      | none => trivial
      | some next =>
          simp only
          refine (writtenFirst_evictOldestSteps hsharded).append ?_
          rw [performAll_evictOldestSteps hturn]
          exact ih (hsharded.evictOldest hturn)

theorem not_givesUp_create {st : Store cfg} {sectionIdx other : Int} {pageId : Nat}
    {swb : SectionWriteBuf} (hnone : st.writeBuf sectionIdx = none) :
    ¬(BufferStep.create sectionIdx pageId : BufferStep cfg).GivesUp st other swb := by
  intro hgives
  obtain rfl : other = sectionIdx := hgives.section_eq fun hne =>
    ⟨by rintro ⟨⟩, by
      change (createWriteBuf sectionIdx pageId st).writeBuf other = _
      rw [writeBuf_createWriteBuf, if_neg hne]⟩
  have hlive := hgives.1
  rw [hnone] at hlive
  cases hlive

/-- A new image gives up at most the buffer it replaces. -/
theorem section_eq_of_givesUp_fill {st : Store cfg} {sectionIdx other : Int}
    {swb swb' : SectionWriteBuf}
    (hgives : (BufferStep.fill sectionIdx swb : BufferStep cfg).GivesUp st other swb') :
    other = sectionIdx ∧ swb.pageId ≠ swb'.pageId := by
  obtain rfl : other = sectionIdx := hgives.section_eq fun hne =>
    ⟨by rintro ⟨⟩, by
      change (setWriteBuf sectionIdx swb st).writeBuf other = _
      rw [writeBuf_setWriteBuf, if_neg hne]⟩
  refine ⟨rfl, fun hpage => ?_⟩
  refine hgives.2.elim (by rintro ⟨⟩) fun hgone => hgone ?_
  change ((setWriteBuf other swb st).writeBuf other).map SectionWriteBuf.pageId = _
  rw [writeBuf_setWriteBuf, if_pos rfl, Option.map_some, hpage]

theorem writtenFirst_openWriteBufSteps {sectionIdx : Int} {pageId : Nat}
    {st : Store cfg} (htracked : st.Tracked) :
    WrittenFirst [] st (openWriteBufSteps sectionIdx pageId st) := by
  unfold openWriteBufSteps
  cases hbuf : st.writeBuf sectionIdx with
  | none =>
      simp only
      refine ⟨fun _ _ hgives => absurd hgives (not_givesUp_create hbuf), ?_⟩
      split
      · exact (writtenFirst_evictOverCapSteps
          (htracked.createWriteBuf sectionIdx pageId).sharded).mono (List.nil_subset _)
      · trivial
  | some swb =>
      simp only
      split
      · trivial
      · refine ⟨fun _ _ hgives => absurd hgives not_givesUp_flush, ?_, trivial⟩
        intro other swb' hgives
        obtain ⟨rfl, -⟩ := section_eq_of_givesUp_fill hgives
        obtain rfl := Option.some.inj (hbuf.symm.trans hgives.1)
        exact List.mem_cons_self

theorem writtenFirst_fillWriteBufSteps (sectionIdx : Int) (slot : Nat)
    (record : Record cfg) (st : Store cfg) :
    WrittenFirst [] st (fillWriteBufSteps sectionIdx slot record st) := by
  unfold fillWriteBufSteps
  cases hbuf : st.writeBuf sectionIdx with
  | none => trivial
  | some swb =>
      simp only
      refine ⟨?_, ?_⟩
      · intro other swb' hgives
        obtain ⟨rfl, hpage⟩ := section_eq_of_givesUp_fill hgives
        obtain rfl := Option.some.inj (hbuf.symm.trans hgives.1)
        exact absurd rfl hpage
      · split
        · refine ⟨fun _ _ hgives => absurd hgives not_givesUp_flush, ?_, trivial⟩
          intro other swb' hgives
          obtain rfl : other = sectionIdx := hgives.section_eq fun hne =>
            ⟨by rintro ⟨⟩, by
              change (eraseWriteBuf sectionIdx _).writeBuf other = _
              rw [writeBuf_eraseWriteBuf, if_neg hne]⟩
          have hfilled := hgives.1
          change (setWriteBuf other _ st).writeBuf other = _ at hfilled
          rw [writeBuf_setWriteBuf, if_pos rfl] at hfilled
          obtain rfl := Option.some.inj hfilled
          exact List.mem_cons_self
        · trivial

/-- Flushing buffers gives none up, and leaves them all written. -/
theorem WrittenFirst.flushes {entries : List ((_ : Int) × SectionWriteBuf)}
    {steps : List (BufferStep cfg)} :
    ∀ {done : List (BufferStep cfg)} {st : Store cfg},
      (∀ done' : List (BufferStep cfg), done ⊆ done' →
        (∀ entry ∈ entries, .flush entry.1 entry.2 ∈ done') →
        WrittenFirst done' (performAll (entries.map fun entry =>
          .flush entry.1 entry.2) st) steps) →
      WrittenFirst done st
        (entries.map (fun entry => .flush entry.1 entry.2) ++ steps) := by
  induction entries with
  | nil => exact fun hrest => hrest _ (List.Subset.refl _) (by simp)
  | cons entry entries ih =>
      intro done st hrest
      refine ⟨fun _ _ hgives => absurd hgives not_givesUp_flush, ih ?_⟩
      intro done' hsub hflushed
      refine hrest done' (fun step hstep => hsub (List.mem_cons_of_mem _ hstep)) ?_
      intro other hother
      rcases List.mem_cons.mp hother with rfl | hother
      · exact hsub List.mem_cons_self
      · exact hflushed other hother

theorem writtenFirst_flushShardSteps (i : Nat) (st : Store cfg) :
    WrittenFirst [] st (flushShardSteps i st) := by
  refine WrittenFirst.flushes fun done' _ hflushed => ⟨?_, trivial⟩
  rw [performAll_flushes]
  have hshards := sectionShards_foldl_flush (st.sectionShards i).writeBufs.entries st
  generalize (st.sectionShards i).writeBufs.entries.foldl
    (fun st entry => flushSectionWriteBuf entry.2 st) st = flushed at *
  intro sectionIdx swb hgives
  by_cases hshard : shardIdx sectionIdx = i
  · have hlive := hgives.1
    rw [writeBuf, sectionShardState, hshards, hshard] at hlive
    exact hflushed ⟨sectionIdx, swb⟩ (AList.mem_lookup_iff.mp hlive)
  · refine absurd hgives (not_givesUp_of_kept (by rintro ⟨⟩) ?_)
    change (Function.update flushed.sectionShards i _ (shardIdx sectionIdx)).writeBufs.lookup
      sectionIdx = _
    rw [Function.update_of_ne hshard]
    rfl

theorem writtenFirst_flushShardsSteps (shards : List Nat) :
    ∀ st : Store cfg, WrittenFirst [] st (flushShardsSteps shards st) := by
  induction shards with
  | nil => exact fun _ => trivial
  | cons i shards ih =>
      intro st
      refine (writtenFirst_flushShardSteps i st).append ?_
      rw [performAll_flushShardSteps]
      exact ih _

theorem writtenFirst_steps {st : Store cfg} (hcapped : st.Capped)
    (hcap : 0 < cfg.writeBufCap) (call : BufferCall cfg) :
    WrittenFirst [] st (call.steps st) := by
  cases call with
  | flushWrites =>
      refine (writtenFirst_flushShardsSteps _ st).append ⟨fun _ _ hgives => ?_, trivial⟩
      exact absurd hgives (not_givesUp_of_kept (by rintro ⟨⟩) rfl)
  | writeToSectionBuffer sectionIdx pageId slot record =>
      change WrittenFirst [] st (writeToSectionBufferSteps sectionIdx pageId slot record st)
      unfold writeToSectionBufferSteps
      split
      · trivial
      · obtain ⟨opened, hopen, -, -⟩ := hcapped.openWriteBuf hcap sectionIdx pageId
        rw [hopen]
        refine (writtenFirst_openWriteBufSteps hcapped.toTracked).append ?_
        rw [performAll_openWriteBufSteps hopen]
        refine (writtenFirst_fillWriteBufSteps sectionIdx slot record opened).append ?_
        exact ⟨fun _ _ hgives => absurd hgives not_givesUp_cache, trivial⟩

/-! The buffer being written stays -/

theorem evictOldestSteps_spare (sectionIdx : Int) (st : Store cfg) :
    ∀ step ∈ evictOldestSteps sectionIdx st,
      step ≠ .recycle sectionIdx ∧ step ≠ .erase sectionIdx := by
  unfold evictOldestSteps
  simp only
  split
  · simp
  · split
    · simp
    · rename_i hother
      split
      · simp
      · simp [hother]

theorem evictOverCapSteps_spare (sectionIdx : Int) (fuel : Nat) :
    ∀ st : Store cfg, ∀ step ∈ evictOverCapSteps sectionIdx fuel st,
      step ≠ .recycle sectionIdx ∧ step ≠ .erase sectionIdx := by
  induction fuel with
  | zero =>
      intro st
      unfold evictOverCapSteps
      cases evictOldest sectionIdx st <;> simp
  | succ fuel ih =>
      intro st step hstep
      unfold evictOverCapSteps at hstep
      cases hturn : evictOldest sectionIdx st with
      | none =>
          rw [hturn] at hstep
          cases hstep
      | some next =>
          rw [hturn] at hstep
          rcases List.mem_append.mp hstep with hstep | hstep
          · exact evictOldestSteps_spare sectionIdx st step hstep
          · exact ih next step hstep

theorem openWriteBufSteps_spare (sectionIdx : Int) (pageId : Nat) (st : Store cfg) :
    ∀ step ∈ openWriteBufSteps sectionIdx pageId st,
      step ≠ .recycle sectionIdx ∧ step ≠ .erase sectionIdx := by
  unfold openWriteBufSteps
  cases st.writeBuf sectionIdx with
  | none =>
      simp only
      intro step hstep
      rcases List.mem_cons.mp hstep with rfl | hstep
      · simp
      · split at hstep
        · exact evictOverCapSteps_spare sectionIdx _ _ step hstep
        · cases hstep
  | some swb =>
      simp only
      split <;> simp

/-- Whatever calls a store without buffers has taken, each one's eviction loop
ended; the shards are within the cap, with every live buffer queued, after the
calls and once the loop of a further write has ended; that loop spares the
section being written; and a further call writes every buffer it gives up to
its page first. -/
theorem writeBuffers_within_cap (hcap : 0 < cfg.writeBufCap) (st : Store cfg)
    (hempty : ∀ i, (st.sectionShards i).NoBuffers) (calls : List (BufferCall cfg)) :
    ∃ st', runCalls calls st = some st' ∧ st'.Capped ∧
      (∀ sectionIdx pageId, ∃ opened,
        openWriteBuf sectionIdx pageId st' = some opened ∧ opened.Capped ∧
          opened.holdsPage sectionIdx pageId ∧
          performAll (openWriteBufSteps sectionIdx pageId st') st' = opened ∧
          ∀ step ∈ openWriteBufSteps sectionIdx pageId st',
            step ≠ .recycle sectionIdx ∧ step ≠ .erase sectionIdx) ∧
      ∀ call : BufferCall cfg, ∃ next, call.run st' = some next ∧
        performAll (call.steps st') st' = next ∧
        WrittenFirst [] st' (call.steps st') := by
  obtain ⟨st', hrun, hcapped⟩ :=
    Capped.runCalls hcap calls st (capped_of_noBuffers hempty)
  refine ⟨st', hrun, hcapped, ?_, ?_⟩
  · intro sectionIdx pageId
    obtain ⟨opened, hopen, hopened, hholds⟩ :=
      hcapped.openWriteBuf hcap sectionIdx pageId
    exact ⟨opened, hopen, hopened, hholds, performAll_openWriteBufSteps hopen,
      openWriteBufSteps_spare sectionIdx pageId st'⟩
  · intro call
    obtain ⟨next, hnext, -⟩ := hcapped.run hcap call
    exact ⟨next, hnext, performAll_steps hnext, writtenFirst_steps hcapped hcap call⟩

theorem noBuffers_of_construct {capacity : Nat} {file : ByteFile}
    {deletedFlags : Nat → Bool} {st : Store cfg}
    (hconstruct : construct cfg capacity file deletedFlags = some st) (i : Nat) :
    (st.sectionShards i).NoBuffers := by
  unfold construct at hconstruct
  split at hconstruct
  · cases hconstruct
  · cases hconstruct
    exact ⟨rfl, rfl, rfl⟩

/-! Two sections of one shard that has room for one buffer -/

def oneBufferConfig : Config := ⟨1, 0, 1, Nat.one_pos, oneDim_fits⟩

def oneBuffer : Store oneBufferConfig :=
  (Store.construct oneBufferConfig 2 ByteFile.empty fun _ => false).get rfl

theorem oneBuffer_within_cap :
    ∃ st', runCalls [.writeToSectionBuffer 0 0 0 ⟨List.replicate 9 1, rfl⟩,
        .writeToSectionBuffer 64 1 0 ⟨List.replicate 9 2, rfl⟩] oneBuffer = some st' ∧
      st'.Capped ∧ st'.holdsPage 0 0 = false ∧ st'.holdsPage 64 1 = true := by
  obtain ⟨st', hrun, hcapped, -⟩ := writeBuffers_within_cap (by decide) oneBuffer
    (noBuffers_of_construct (rfl : construct oneBufferConfig 2 ByteFile.empty
      (fun _ => false) = some oneBuffer))
    [.writeToSectionBuffer 0 0 0 ⟨List.replicate 9 1, rfl⟩,
      .writeToSectionBuffer 64 1 0 ⟨List.replicate 9 2, rfl⟩]
  refine ⟨st', hrun, hcapped, ?_⟩
  obtain ⟨later, hlater⟩ : ∃ later, @runCalls oneBufferConfig
      [.writeToSectionBuffer 0 0 0 ⟨List.replicate 9 1, rfl⟩,
        .writeToSectionBuffer 64 1 0 ⟨List.replicate 9 2, rfl⟩] oneBuffer = some later ∧
      later.holdsPage 0 0 = false ∧ later.holdsPage 64 1 = true :=
    ⟨_, rfl, by decide, by decide⟩
  rw [hrun] at hlater
  obtain ⟨hsame, hholds⟩ := hlater
  exact Option.some.inj hsame ▸ hholds

end Store

end AsterVec.PagedVectorStorage

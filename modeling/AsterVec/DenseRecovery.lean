import AsterVec.DenseVersions
import AsterVec.OpLogRecords

/-!
Runs with crashes.  The calls log what they do; a store that was killed is opened as its
last checkpoint left it, and the records since are applied to it.
-/

namespace AsterVec

/-- An update id that is in use is not handed out again. -/
def IdTables.observeUpdateId (tables : IdTables) (i : Nat) : IdTables :=
  if tables.nextUpdateInternalId ≤ i then { tables with nextUpdateInternalId := i + 1 }
  else tables

namespace Dense

open AsterVec.IdTypes
open AsterVec.OpLog (OpType)
open AsterVec.Programs
open Prog

variable {V Row : Type}

/-- A record of the log as the replay decodes it.  A vector is missing where the record
does not have the size of one, a payload where it is empty. -/
structure LogRecord (V Row : Type) where
  op : OpType
  realId : Nat
  internalId : Nat
  aux : Nat
  vector : Option V
  payload : Option Row

/-- What a call logs before it changes anything. -/
def WriteCall.record (st : State V Row) : WriteCall V Row → Option (LogRecord V Row)
  | .upsert _ write =>
      if ((isAlive write.r).run exec st).1 then
        some ⟨.kUpdate, write.r, st.tables.nextUpdateInternalId,
          st.tables.resolveInternal write.r, some write.vector, write.metadata⟩
      else
        let targetInternal :=
          if st.tables.isTombstoned write.r then st.tables.nextUpdateInternalId else write.r
        some ⟨.kInsert, write.r, targetInternal, 0, some write.vector, write.metadata⟩
  | .delete r =>
      let i := st.tables.resolveInternal r
      if (st.vectors i).isSome then some ⟨.kDelete, r, i, 0, none, none⟩ else none

/-- The rows may hold this write already, or a later one: only a missing row is filled. -/
def fillRow (i : Nat) (fill : Prog V Row Unit) : Prog V Row Unit := do
  match ← getRow i with
  | some _ => pure ()
  | none => fill

namespace LogRecord

variable (record : LogRecord V Row)

/-- An update id is one that is not direct; the counter has no bound here. -/
def observed (st : State V Row) : State V Row :=
  if isDirectId record.internalId then st
  else { st with tables := st.tables.observeUpdateId record.internalId }

def replayInsert (vector : V) (plan : Plan) : Prog V Row Unit := do
  bif isDirectId record.internalId then pure ()
  else recordUpdateMapping record.realId record.internalId
  insertNode record.internalId vector plan
  fillRow record.internalId (putMetadata record.internalId record.payload)

def replayUpdate (vector : V) (plan : Plan) : Prog V Row Unit := do
  insertNode record.internalId vector plan
  recordUpdateMapping record.realId record.internalId
  tombstone record.aux
  fillRow record.internalId (migrateMetadata record.aux record.internalId record.payload)
  deleteRow record.aux

def replayDelete : Prog V Row Unit := do
  tombstone record.internalId
  deleteRow record.internalId
  forgetUpdateMapping record.realId

end LogRecord

/-- `none` is a corrupt record.  A call that failed still used its update id. -/
def replayRecord (record : LogRecord V Row) (aborted : Bool) (plan : Plan)
    (st : State V Row) : Option (State V Row) :=
  match record.op with
  | .kAbort => some st
  | .kInsert =>
      if aborted then some (record.observed st)
      else record.vector.map fun vector =>
        ((record.replayInsert vector plan).run exec (record.observed st)).2
  | .kUpdate =>
      if aborted then some (record.observed st)
      else record.vector.map fun vector =>
        ((record.replayUpdate vector plan).run exec (record.observed st)).2
  | .kDelete => if aborted then some st else some (record.replayDelete.run exec st).2
  | .other _ => none

/-- The records of calls that returned, in the order of the log; the searches of the replay
link the nodes anew. -/
def replay (items : List (LogRecord V Row × Plan)) (st : State V Row) :
    Option (State V Row) :=
  items.foldlM (fun st item => replayRecord item.1 false item.2 st) st

/-- The store opened at a checkpoint: the id tables are those saved, and the same ids have
vectors.  The rows have a log of their own, and pages may have been written since. -/
structure State.Revives (base checkpoint : State V Row) : Prop where
  tables : base.tables = checkpoint.tables.reload
  stored : ∀ i, (base.vectors i).isSome = (checkpoint.vectors i).isSome

/-- A store with its last checkpoint and the records logged since. -/
structure Journal (V Row : Type) where
  st : State V Row
  checkpoint : State V Row
  records : List (LogRecord V Row)
  logging : Bool

namespace Journal

/-- What the log gets from a call. -/
def pending (j : Journal V Row) (call : WriteCall V Row) : List (LogRecord V Row) :=
  if j.logging then (call.record j.st).toList else []

def wrote (j : Journal V Row) (call : WriteCall V Row) : Journal V Row :=
  { j with st := (call.program.run exec j.st).2, records := j.records ++ j.pending call }

/-- A checkpoint makes the records before it obsolete. -/
def checkpointed (j : Journal V Row) : Journal V Row :=
  { j with checkpoint := j.st, records := [] }

/-- A store that was closed and opened. -/
def reopened (j : Journal V Row) (logging : Bool) : Journal V Row :=
  ⟨j.st.reopen, j.st, [], logging⟩

/-- A recovered store is a checkpoint of its own. -/
def recovered (st : State V Row) (logging : Bool) : Journal V Row := ⟨st, st, [], logging⟩

/-- The stores after successful calls, reopenings and crashes.  A crash may come in the
middle of a call and lose the end of the log. -/
inductive Reached : Journal V Row → Prop
  | empty (logging : Bool) : Reached (recovered (State.empty V Row) logging)
  | wrote {j : Journal V Row} (call : WriteCall V Row) : Reached j → call.r ≤ kMaxRealId →
      Reached (j.wrote call)
  | payload {j : Journal V Row} (call : PayloadCall Row) : Reached j →
      Reached { j with st := ((call.program (V := V)).run exec j.st).2 }
  | payloads {j : Journal V Row} (items : List (Nat × Row)) : Reached j →
      Reached { j with st := ((setPayloadBatch items).run exec j.st).2 }
  | checkpointed {j : Journal V Row} : Reached j → Reached j.checkpointed
  | reopened {j : Journal V Row} (logging : Bool) : Reached j → Reached (j.reopened logging)
  | recovered {j : Journal V Row} {base st : State V Row}
      (inFlight : WriteCall V Row) (kept : Nat) (items : List (LogRecord V Row × Plan))
      (logging : Bool) : Reached j → inFlight.r ≤ kMaxRealId → base.Revives j.checkpoint →
      items.map Prod.fst = (j.records ++ j.pending inFlight).take kept →
      replay items base = some st → Reached (recovered st logging)

end Journal

/-! What the replay does to the versions -/

section

variable {st later base checkpoint : State V Row}

theorem LogRecord.versions_observed {record : LogRecord V Row}
    (hupdate : isDirectId record.internalId = false) (st : State V Row) :
    (record.observed st).versions = st.versions.observe record.internalId := by
  unfold LogRecord.observed
  rw [hupdate, if_neg Bool.false_ne_true]
  unfold IdTables.observeUpdateId Versions.observe
  split
  · rename_i hle
    have hmax : max st.versions.next (record.internalId + 1) = record.internalId + 1 :=
      max_eq_right (Nat.le_succ_of_le hle)
    rw [hmax]
    rfl
  · rename_i hlt
    have hmax : max st.versions.next (record.internalId + 1) = st.versions.next :=
      max_eq_left (Nat.not_le.mp hlt)
    rw [hmax]

theorem LogRecord.covers_observed (record : LogRecord V Row)
    (hcovers : st.tables.BloomCovers) : (record.observed st).tables.BloomCovers := by
  unfold LogRecord.observed IdTables.observeUpdateId
  split
  · exact hcovers
  · split
    · exact ⟨hcovers.bitCount, hcovers.capacity, hcovers.contains⟩
    · exact hcovers

theorem versions_fillRow (st : State V Row) (i : Nat) {fill : Prog V Row Unit}
    (hfill : (fill.run exec st).2.versions = st.versions) :
    ((fillRow i fill).run exec st).2.versions = st.versions := by
  change ((match st.rows i with
    | some _ => pure ()
    | none => fill : Prog V Row Unit).run exec st).2.versions = _
  cases st.rows i with
  | none => exact hfill
  | some _ => rfl

theorem LogRecord.versions_replayInsert (record : LogRecord V Row) (vector : V) (plan : Plan)
    (st : State V Row) :
    ((record.replayInsert vector plan).run exec st).2.versions =
      (if isDirectId record.internalId then st.versions
        else st.versions.record record.realId record.internalId).store
          record.internalId := by
  have hrest : ∀ later : State V Row,
      ((insertNode record.internalId vector plan >>= fun _ => fillRow record.internalId
        (putMetadata record.internalId record.payload)).run exec later).2.versions =
      later.versions.store record.internalId := by
    intro later
    rw [Program.run_bind, ← versions_insertNode later record.internalId vector plan]
    exact versions_fillRow _ _ (versions_putMetadata _ _ _)
  unfold LogRecord.replayInsert
  cases isDirectId record.internalId with
  | true => exact hrest st
  | false =>
      rw [if_neg Bool.false_ne_true, ← versions_record]
      exact hrest _

theorem LogRecord.versions_replayUpdate (record : LogRecord V Row) (vector : V) (plan : Plan)
    (st : State V Row) :
    ((record.replayUpdate vector plan).run exec st).2.versions =
      ((st.versions.store record.internalId).record record.realId record.internalId).kill
        record.aux := by
  have hrest : ∀ later : State V Row,
      ((fillRow record.internalId (migrateMetadata record.aux record.internalId
        record.payload) >>= fun _ => deleteRow record.aux).run exec later).2.versions =
      later.versions := by
    intro later
    rw [Program.run_bind]
    exact versions_fillRow _ _ (versions_migrateMetadata _ _ _ _)
  unfold LogRecord.replayUpdate
  rw [Program.run_bind, ← versions_insertNode st record.internalId vector plan,
    ← versions_record, ← versions_tombstone]
  exact hrest _

theorem LogRecord.versions_replayDelete (record : LogRecord V Row) (st : State V Row) :
    (record.replayDelete.run exec st).2.versions =
      (st.versions.kill record.internalId).forget record.realId := by
  rw [← versions_tombstone]
  exact versions_forget _ _

theorem LogRecord.replays_insert {record : LogRecord V Row} (hop : record.op = .kInsert)
    {vector : V} (hvector : record.vector = some vector) (hlater : later.tables.BloomCovers)
    (plan : Plan) :
    ∃ done, replayRecord record false plan later = some done ∧
      done.versions = (if isDirectId record.internalId then later.versions
        else (later.versions.observe record.internalId).record record.realId
          record.internalId).store record.internalId ∧
      done.tables.BloomCovers := by
  refine ⟨((record.replayInsert vector plan).run exec (record.observed later)).2, ?_, ?_,
    covers_run _ (record.covers_observed hlater)⟩
  · unfold replayRecord
    rw [hop, hvector]
    rfl
  · rw [record.versions_replayInsert]
    cases hdirect : isDirectId record.internalId with
    | true =>
        unfold LogRecord.observed
        rw [hdirect]
        rfl
    | false =>
        rw [LogRecord.versions_observed hdirect]
        simp only [Bool.false_eq_true, if_false]

theorem LogRecord.replays_update {record : LogRecord V Row} (hop : record.op = .kUpdate)
    {vector : V} (hvector : record.vector = some vector)
    (hupdate : isDirectId record.internalId = false) (hlater : later.tables.BloomCovers)
    (plan : Plan) :
    ∃ done, replayRecord record false plan later = some done ∧
      done.versions = (((later.versions.observe record.internalId).store
        record.internalId).record record.realId record.internalId).kill record.aux ∧
      done.tables.BloomCovers := by
  refine ⟨((record.replayUpdate vector plan).run exec (record.observed later)).2, ?_, ?_,
    covers_run _ (record.covers_observed hlater)⟩
  · unfold replayRecord
    rw [hop, hvector]
    rfl
  · rw [record.versions_replayUpdate, LogRecord.versions_observed hupdate]

theorem LogRecord.replays_delete {record : LogRecord V Row} (hop : record.op = .kDelete)
    (hlater : later.tables.BloomCovers) (plan : Plan) :
    ∃ done, replayRecord record false plan later = some done ∧
      done.versions = (later.versions.kill record.internalId).forget record.realId ∧
      done.tables.BloomCovers := by
  refine ⟨(record.replayDelete.run exec later).2, ?_, record.versions_replayDelete later,
    covers_run _ hlater⟩
  unfold replayRecord
  rw [hop]
  rfl

theorem isDirectId_next (hfirst : 2 ^ 63 ≤ st.versions.next) :
    isDirectId st.versions.next = false :=
  (isDirectId_eq_false_iff _).mpr hfirst

/-- A call that logs nothing changes nothing. -/
theorem WriteCall.onVersions_of_unlogged (hcovers : st.tables.BloomCovers)
    {call : WriteCall V Row} (hrecord : call.record st = none) :
    call.onVersions st.versions = st.versions := by
  cases call with
  | upsert kind write =>
      simp only [WriteCall.record] at hrecord
      split at hrecord <;> cases hrecord
  | delete r =>
      change (if (st.vectors (st.tables.resolveInternal r)).isSome then _ else none) = none
        at hrecord
      rw [current_eq hcovers] at hrecord
      split at hrecord
      · cases hrecord
      · rename_i hnone
        exact if_neg hnone

/-- The record of a call does to the versions what the call did. -/
theorem replayRecord_versions (hcovers : st.tables.BloomCovers)
    (hfirst : 2 ^ 63 ≤ st.versions.next) {call : WriteCall V Row} (hr : call.r ≤ kMaxRealId)
    {record : LogRecord V Row} (hrecord : call.record st = some record)
    (hlater : later.tables.BloomCovers) (hsame : later.versions = st.versions)
    (plan : Plan) :
    ∃ done, replayRecord record false plan later = some done ∧
      done.versions = call.onVersions st.versions ∧ done.tables.BloomCovers := by
  cases call with
  | upsert kind write =>
      simp only [WriteCall.record, run_isAlive_eq hcovers] at hrecord
      simp only [WriteCall.onVersions]
      split at hrecord
      · rename_i halive
        have hrecord := Option.some.inj hrecord
        have hinternal : record.internalId = st.versions.next := by
          rw [← hrecord]
          rfl
        obtain ⟨done, hdone, hafter, hcovered⟩ := LogRecord.replays_update
          (congrArg LogRecord.op hrecord.symm) (congrArg LogRecord.vector hrecord.symm)
          (hinternal ▸ isDirectId_next hfirst) hlater plan
        refine ⟨done, hdone, hafter.trans ?_, hcovered⟩
        rw [if_pos halive, hsame, hinternal, ← hrecord]
        unfold Versions.update
        rw [← current_eq hcovers]
      · rename_i hdead
        have hrecord := Option.some.inj hrecord
        obtain ⟨done, hdone, hafter, hcovered⟩ := LogRecord.replays_insert
          (congrArg LogRecord.op hrecord.symm) (congrArg LogRecord.vector hrecord.symm)
          hlater plan
        refine ⟨done, hdone, hafter.trans ?_, hcovered⟩
        have hinternal : record.internalId =
            if st.versions.dead write.r then st.versions.next else write.r := by
          rw [← hrecord]
          rfl
        have hreal : record.realId = write.r := by rw [← hrecord]
        rw [if_neg hdead, hsame, hinternal, hreal]
        unfold Versions.insert
        cases st.versions.dead write.r with
        | true => rw [if_pos rfl, isDirectId_next hfirst, if_neg Bool.false_ne_true, if_pos rfl]
        | false =>
            have hdirect : isDirectId write.r = true :=
              (isDirectId_iff write.r).mpr ((le_kMaxRealId_iff write.r).mp hr)
            rw [if_neg Bool.false_ne_true, hdirect, if_pos rfl, if_neg Bool.false_ne_true]
  | delete r =>
      simp only [WriteCall.record, current_eq hcovers] at hrecord
      split at hrecord
      · rename_i hstored
        have hrecord := Option.some.inj hrecord
        obtain ⟨done, hdone, hafter, hcovered⟩ := LogRecord.replays_delete
          (congrArg LogRecord.op hrecord.symm) hlater plan
        refine ⟨done, hdone, hafter.trans ?_, hcovered⟩
        rw [hsame, ← hrecord]
        exact (if_pos hstored).symm
      · cases hrecord

/-- A reload builds the reverse map and the filter anew, and changes no version. -/
theorem State.Revives.versions (hrevives : base.Revives checkpoint)
    (hone : OneVersion checkpoint) : base.versions = checkpoint.versions := by
  have hdistinct : ∀ r r' i, checkpoint.tables.updatedRealToInternal.lookup r = some i →
      checkpoint.tables.updatedRealToInternal.lookup r' = some i → r = r' := by
    intro r r' i hmap hmap'
    have hreverse := (hone.inverse r i).mp hmap
    rw [(hone.inverse r' i).mp hmap'] at hreverse
    cases hreverse
    rfl
  have hreverse : ∀ i, checkpoint.tables.reload.updatedInternalToReal.lookup i =
      checkpoint.tables.updatedInternalToReal.lookup i := by
    intro i
    ext r
    rw [IdTables.lookup_reload hdistinct i r]
    exact hone.inverse r i
  unfold State.versions
  rw [hrevives.tables]
  simp only [hreverse, hrevives.stored]
  rfl

/-- Whatever the crash did to the pages and the rows, the records lead from the checkpoint
to these versions. -/
def Replays (checkpoint : State V Row) (records : List (LogRecord V Row)) (v : Versions) :
    Prop :=
  ∀ base : State V Row, base.Revives checkpoint →
    ∀ items : List (LogRecord V Row × Plan), items.map Prod.fst = records →
      ∃ st, replay items base = some st ∧ st.versions = v ∧ st.tables.BloomCovers

theorem replays_nil (hone : OneVersion checkpoint) :
    Replays checkpoint [] checkpoint.versions := by
  intro base hrevives items hitems
  obtain rfl := List.map_eq_nil_iff.mp hitems
  refine ⟨base, rfl, hrevives.versions hone, ?_⟩
  rw [hrevives.tables]
  exact IdTables.BloomCovers.reload _

theorem Replays.snoc {records : List (LogRecord V Row)}
    (hreplays : Replays checkpoint records st.versions) (hcovers : st.tables.BloomCovers)
    (hfirst : 2 ^ 63 ≤ st.versions.next) {call : WriteCall V Row} (hr : call.r ≤ kMaxRealId)
    {record : LogRecord V Row} (hrecord : call.record st = some record) :
    Replays checkpoint (records ++ [record]) (call.onVersions st.versions) := by
  intro base hrevives items hitems
  obtain ⟨before, last, rfl, hbefore, hlast⟩ := List.map_eq_append_iff.mp hitems
  obtain ⟨⟨_, plan⟩, rfl, rfl⟩ := List.map_eq_singleton_iff.mp hlast
  obtain ⟨later, hreplay, hversions, hlater⟩ := hreplays base hrevives before hbefore
  obtain ⟨done, hdone, hafter⟩ :=
    replayRecord_versions hcovers hfirst hr hrecord hlater hversions plan
  refine ⟨done, ?_, hafter⟩
  unfold replay at hreplay ⊢
  rw [List.foldlM_append, hreplay]
  change (replayRecord _ false plan later).bind some = _
  rw [hdone]
  rfl

end

/-! What the invariants of undisturbed runs say here -/

theorem Reached.covers {st : State V Row} (hreached : Reached st) :
    st.tables.BloomCovers := by
  obtain ⟨⟨owner, hquiet⟩, -, -⟩ := hreached.settled
  exact hquiet.good.covers

theorem Reached.first {st : State V Row} (hreached : Reached st) :
    2 ^ 63 ≤ st.versions.next := by
  obtain ⟨⟨owner, hquiet⟩, -, -⟩ := hreached.settled
  exact hquiet.good.first

theorem Reached.oneVersion {st : State V Row} (hreached : Reached st) : OneVersion st := by
  obtain ⟨⟨owner, hquiet⟩, -, -⟩ := hreached.settled
  exact hquiet.oneVersion

/-- The same call with a node that is linked to nothing. -/
def WriteCall.unlinked : WriteCall V Row → WriteCall V Row
  | .upsert kind write => .upsert kind { write with plan := { write.plan with selected := [] } }
  | .delete r => .delete r

/-- The versions a call leads to are those of a state that calls lead to. -/
theorem Reached.write {twin : State V Row} (hreached : Reached twin)
    (call : WriteCall V Row) (hr : call.r ≤ kMaxRealId) :
    ∃ after : State V Row, Reached after ∧
      after.versions = call.onVersions twin.versions := by
  have hcall : call.unlinked.r ≤ kMaxRealId ∧ call.unlinked.selected = [] ∧
      call.unlinked.onVersions = call.onVersions := by
    cases call with
    | upsert kind write => exact ⟨hr, rfl, rfl⟩
    | delete r => exact ⟨hr, rfl, rfl⟩
  obtain ⟨hr, hselected, hsame⟩ := hcall
  refine ⟨_, .wrote call.unlinked hreached hr ?_, ?_⟩
  · rw [hselected]
    simp
  · rw [WriteCall.versions hreached.covers, hsame]

namespace Journal

variable {j : Journal V Row}

/-- The versions of a store are those of a run without a crash, and so are the ones that
any part of its log leads to. -/
structure Sound (j : Journal V Row) : Prop where
  covers : j.st.tables.BloomCovers
  current : ∃ twin : State V Row, Dense.Reached twin ∧ twin.versions = j.st.versions
  prefixes : ∀ kept, ∃ twin : State V Row, Dense.Reached twin ∧
    Replays j.checkpoint (j.records.take kept) twin.versions
  logged : j.logging = true → Replays j.checkpoint j.records j.st.versions

theorem Sound.oneVersion (hsound : j.Sound) : OneVersion j.st := by
  obtain ⟨twin, hreached, hversions⟩ := hsound.current
  exact hreached.oneVersion.congr hreached.covers hsound.covers hversions

theorem Sound.first (hsound : j.Sound) : 2 ^ 63 ≤ j.st.versions.next := by
  obtain ⟨twin, hreached, hversions⟩ := hsound.current
  rw [← hversions]
  exact hreached.first

/-- A log that gets the record of a call. -/
theorem Sound.appended (hsound : j.Sound) {call : WriteCall V Row} (hr : call.r ≤ kMaxRealId)
    (hlogging : j.logging = true) :
    Replays j.checkpoint (j.records ++ j.pending call) (call.onVersions j.st.versions) := by
  unfold pending
  rw [if_pos hlogging]
  cases hrecord : call.record j.st with
  | none =>
      rw [WriteCall.onVersions_of_unlogged hsound.covers hrecord, Option.toList_none,
        List.append_nil]
      exact hsound.logged hlogging
  | some record =>
      exact (hsound.logged hlogging).snoc hsound.covers hsound.first hr hrecord

/-- Whatever is kept of the log, with a call in flight or without. -/
theorem Sound.kept (hsound : j.Sound) {call : WriteCall V Row} (hr : call.r ≤ kMaxRealId)
    (kept : Nat) :
    ∃ twin : State V Row, Dense.Reached twin ∧
      Replays j.checkpoint ((j.records ++ j.pending call).take kept) twin.versions := by
  rcases Nat.lt_or_ge kept (j.records ++ j.pending call).length with hlt | hge
  · have hpending : (j.pending call).length ≤ 1 := by
      unfold pending
      split
      · cases call.record j.st <;> simp
      · simp
    rw [List.length_append] at hlt
    rw [List.take_append_of_le_length (by omega)]
    exact hsound.prefixes kept
  · rw [List.take_of_length_le hge]
    cases hlogging : j.logging with
    | false =>
        have hpending : j.pending call = [] := by
          unfold pending
          rw [hlogging]
          rfl
        have hall := hsound.prefixes j.records.length
        rw [List.take_length] at hall
        rw [hpending, List.append_nil]
        exact hall
    | true =>
        obtain ⟨twin, hreached, hversions⟩ := hsound.current
        obtain ⟨after, hafter, hwritten⟩ := hreached.write call hr
        refine ⟨after, hafter, ?_⟩
        rw [hwritten, hversions]
        exact hsound.appended hr hlogging

/-- A store whose state is its checkpoint, with an empty log. -/
theorem Sound.of_checkpoint {st checkpoint : State V Row} {logging : Bool}
    (hcovers : st.tables.BloomCovers) (hone : OneVersion checkpoint)
    (hsame : st.versions = checkpoint.versions) {twin : State V Row}
    (hreached : Dense.Reached twin) (hversions : twin.versions = checkpoint.versions) :
    Sound ⟨st, checkpoint, [], logging⟩ := by
  have hreplays := replays_nil hone
  refine ⟨hcovers, ⟨twin, hreached, hversions.trans hsame.symm⟩, fun kept => ?_, fun _ => ?_⟩
  · refine ⟨twin, hreached, ?_⟩
    rw [List.take_nil, hversions]
    exact hreplays
  · rw [hsame]
    exact hreplays

theorem Sound.wrote (hsound : j.Sound) (call : WriteCall V Row) (hr : call.r ≤ kMaxRealId) :
    (j.wrote call).Sound := by
  have hversions := WriteCall.versions hsound.covers call
  obtain ⟨twin, hreached, hcurrent⟩ := hsound.current
  refine ⟨covers_run _ hsound.covers, ?_, hsound.kept hr, fun hlogging => ?_⟩
  · obtain ⟨after, hafter, hwritten⟩ := hreached.write call hr
    exact ⟨after, hafter, by rw [hwritten, hcurrent, ← hversions]; rfl⟩
  · change Replays _ _ (call.program.run exec j.st).2.versions
    rw [hversions]
    exact hsound.appended hr hlogging

/-- Payload calls log nothing, and concern no version. -/
theorem Sound.rows {st : State V Row} (hsound : j.Sound) (hcovers : st.tables.BloomCovers)
    (hsame : st.versions = j.st.versions) : Sound { j with st := st } := by
  obtain ⟨twin, hreached, hversions⟩ := hsound.current
  refine ⟨hcovers, ⟨twin, hreached, hversions.trans hsame.symm⟩, hsound.prefixes,
    fun hlogging => ?_⟩
  change Replays _ _ st.versions
  rw [hsame]
  exact hsound.logged hlogging

theorem Reached.sound (hreached : j.Reached) : j.Sound := by
  induction hreached with
  | empty logging =>
      have hempty : Dense.Reached (State.empty V Row) := .empty
      exact .of_checkpoint hempty.covers hempty.oneVersion rfl hempty rfl
  | wrote call _ hr ih => exact ih.wrote call hr
  | payload call _ ih =>
      exact ih.rows (covers_run _ ih.covers) (PayloadCall.versions ih.covers call)
  | payloads items _ ih =>
      exact ih.rows (covers_run _ ih.covers) (versions_setPayloadBatch items)
  | checkpointed _ ih =>
      obtain ⟨twin, htwin, hversions⟩ := ih.current
      exact .of_checkpoint ih.covers ih.oneVersion rfl htwin hversions
  | reopened logging _ ih =>
      rename_i j _
      obtain ⟨twin, htwin, hversions⟩ := ih.current
      have hrevives : j.st.reopen.Revives j.st := ⟨rfl, fun _ => rfl⟩
      exact .of_checkpoint (IdTables.BloomCovers.reload _) ih.oneVersion
        (hrevives.versions ih.oneVersion) htwin hversions
  | recovered inFlight kept items logging _ hr hrevives hitems hreplay ih =>
      obtain ⟨twin, htwin, hreplays⟩ := ih.kept hr kept
      obtain ⟨st, hst, hversions, hcovers⟩ := hreplays _ hrevives items hitems
      cases hst.symm.trans hreplay
      exact .of_checkpoint hcovers (htwin.oneVersion.congr htwin.covers hcovers hversions.symm)
        rfl htwin hversions.symm

/-- In every store that calls, reopenings and crashes lead to, the maps of the ids are
inverse, an id resolves as they say, no mapped id is dead, and an id has one live version
while it is alive and none while it is not. -/
theorem Reached.versions_consistent (hreached : j.Reached) : OneVersion j.st :=
  hreached.sound.oneVersion

/-- A node that becomes the entry point and is linked to nothing. -/
def lone : Plan := ⟨[], [], false, true⟩

/-- An id that is inserted, updated, deleted and inserted again. -/
def relived : Journal Nat Unit :=
  let upsert := fun kind vector => WriteCall.upsert kind ⟨1, vector, none, lone⟩
  (((((recovered (State.empty Nat Unit) true).wrote (upsert .insert 5)).wrote
    (upsert .update 6)).wrote (.delete 1)).wrote (upsert .insert 7))

theorem reached_relived : relived.Reached :=
  .wrote _ (.wrote _ (.wrote _ (.wrote _ (.empty true) (by decide)) (by decide)) (by decide))
    (by decide)

/-- The store is killed and the whole log is replayed over the empty store. -/
theorem relived_versions_consistent :
    ∃ j : Journal Nat Unit, j.Reached ∧ ((isAlive 1).run exec j.st).1 = true ∧
      OneVersion j.st := by
  have hsound := reached_relived.sound
  have hrecords : (relived.records.map (·, lone)).map Prod.fst = relived.records := by
    rw [List.map_map]
    exact List.map_id _
  obtain ⟨st, hreplay, hversions, hcovers⟩ := hsound.logged rfl (State.empty Nat Unit).reopen
    ⟨rfl, fun _ => rfl⟩ (relived.records.map (·, lone)) hrecords
  have hreached : (recovered st true).Reached :=
    .recovered (.delete 1) relived.records.length _ true reached_relived (by decide)
      ⟨rfl, fun _ => rfl⟩ (hrecords.trans List.take_left.symm) hreplay
  refine ⟨_, hreached, ?_, hreached.versions_consistent⟩
  change ((isAlive 1).run exec st).1 = true
  rw [run_isAlive_eq hcovers, hversions]
  rfl

end Journal

end Dense

end AsterVec

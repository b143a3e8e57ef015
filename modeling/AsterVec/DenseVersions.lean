import AsterVec.DenseReached

/-!
The versions of the ids: which internal id stands for an id, and which are dead.  The calls
act on them alone, whatever the payload rows and the graph are.
-/

namespace AsterVec.Dense

open AsterVec.IdTypes
open AsterVec.Programs
open Prog

variable {V Row : Type}

/-- The id maps without the filter, the dead and the stored internal ids, and the next
update id. -/
structure Versions where
  forward : Nat → Option Nat
  reverse : Nat → Option Nat
  dead : Nat → Bool
  stored : Nat → Bool
  next : Nat

namespace Versions

def current (v : Versions) (r : Nat) : Nat := (v.forward r).getD r

def alive (v : Versions) (r : Nat) : Bool := !v.dead (v.current r) && v.stored (v.current r)

/-- The reverse entries without the one of the mapping of `r`. -/
def cleared (v : Versions) (r : Nat) : Nat → Option Nat :=
  (v.forward r).elim v.reverse fun previous => Function.update v.reverse previous none

def record (v : Versions) (r i : Nat) : Versions :=
  { v with
    forward := Function.update v.forward r (some i)
    reverse := Function.update (v.cleared r) i (some r) }

def forget (v : Versions) (r : Nat) : Versions :=
  { v with forward := Function.update v.forward r none, reverse := v.cleared r }

def kill (v : Versions) (i : Nat) : Versions :=
  { v with dead := Function.update v.dead i true }

def store (v : Versions) (i : Nat) : Versions :=
  { v with stored := Function.update v.stored i true }

/-- The next update id is past `i`. -/
def observe (v : Versions) (i : Nat) : Versions := { v with next := max v.next (i + 1) }

/-- The first version of an id, or the one after its delete. -/
def insert (v : Versions) (r : Nat) : Versions :=
  if v.dead r then ((v.observe v.next).record r v.next).store v.next else v.store r

def update (v : Versions) (r : Nat) : Versions :=
  (((v.observe v.next).store v.next).record r v.next).kill (v.current r)

def delete (v : Versions) (r : Nat) : Versions :=
  if v.stored (v.current r) then (v.kill (v.current r)).forget r else v

end Versions

def State.versions (st : State V Row) : Versions where
  forward r := st.tables.updatedRealToInternal.lookup r
  reverse i := st.tables.updatedInternalToReal.lookup i
  dead i := st.tables.isTombstoned i
  stored i := (st.vectors i).isSome
  next := st.tables.nextUpdateInternalId

def WriteCall.onVersions : WriteCall V Row → Versions → Versions
  | .upsert _ write, v => if v.alive write.r then v.update write.r else v.insert write.r
  | .delete r, v => v.delete r

/-! Single calls -/

section

variable (st : State V Row) (r i : Nat)

theorem versions_record :
    (exec (.recordUpdateMapping r i : Call V Row) st).2.versions =
      st.versions.record r i := by
  obtain ⟨hforward, hreverse, hdead, hnext⟩ := st.tables.recordUpdateMapping_maps r i
  unfold State.versions Versions.record Versions.cleared exec
  simp only [hforward, hreverse, hnext, IdTables.isTombstoned, hdead, lookup_insert,
    Versions.mk.injEq, and_true]
  refine ⟨?_, ?_⟩
  · funext j
    rw [Function.update_apply]
  · funext j
    rw [Function.update_apply]
    cases st.tables.updatedRealToInternal.lookup r with
    | none => rfl
    | some previous =>
        simp only [Option.elim_some, lookup_erase, Function.update_apply]

theorem versions_forget :
    (exec (.forgetUpdateMapping r : Call V Row) st).2.versions = st.versions.forget r := by
  obtain ⟨hforward, hreverse, hdead, hnext⟩ := forgetUpdateMapping_maps st.tables r
  unfold State.versions Versions.forget Versions.cleared exec
  simp only [hforward, hreverse, hnext, IdTables.isTombstoned, hdead, Versions.mk.injEq,
    and_true]
  refine ⟨?_, ?_⟩
  · funext j
    rw [Function.update_apply]
  · funext j
    cases st.tables.updatedRealToInternal.lookup r with
    | none => rfl
    | some previous => simp only [Option.elim_some, lookup_erase, Function.update_apply]

theorem versions_tombstone :
    (exec (.tombstone i : Call V Row) st).2.versions = st.versions.kill i := by
  have hdead : (fun j => (st.tables.tombstone i).isTombstoned j) =
      Function.update st.tables.isTombstoned i true := by
    funext j
    rcases eq_or_ne j i with rfl | hne
    · simp [IdTables.isTombstoned, IdTables.tombstone]
    · simp [IdTables.isTombstoned, IdTables.tombstone, hne]
  exact congrArg (Versions.mk _ _ · _ _) hdead

theorem versions_allocate :
    (exec (.allocateUpdateId : Call V Row) st).2.versions =
      st.versions.observe st.versions.next := by
  unfold Versions.observe
  rw [max_eq_right (Nat.le_succ _)]
  rfl

theorem run_insertNode (st : State V Row) (i : Nat) (vector : V) (plan : Plan) :
    (insertNode i vector plan).run exec st = (match st.entryPoint with
      | none => do
          storeVector i vector
          let first ← casEntryPoint i
          bif first then pure () else linkNode i plan
      | some _ => do
          storeVector i vector
          linkNode i plan : Prog V Row Unit).run exec st := rfl

/-- What a new node is linked to does not matter here. -/
theorem versions_insertNode (vector : V) (plan : Plan) :
    ((insertNode i vector plan).run exec st).2.versions = st.versions.store i := by
  have hstored : (exec (.storeVector i vector : Call V Row) st).2.versions =
      st.versions.store i := by
    have hvectors : (fun j => (Function.update st.vectors i (some vector) j).isSome) =
        Function.update (fun j => (st.vectors j).isSome) i true := by
      funext j
      rcases eq_or_ne j i with rfl | hne
      · simp
      · simp [hne]
    exact congrArg (Versions.mk _ _ _ · _) hvectors
  have hlinked : ∀ later : State V Row,
      ((linkNode i plan).run exec later).2.versions = later.versions := by
    intro later
    obtain ⟨selected, dropped, upper, promoted⟩ := plan
    cases upper <;> cases promoted <;> rfl
  rw [← hstored, run_insertNode]
  cases hentry : st.entryPoint with
  | none =>
      change ((bif st.entryPoint.isNone then (pure () : Prog V Row Unit)
        else linkNode i plan).run exec _).2.versions = _
      rw [hentry]
      rfl
  | some entry => exact hlinked _

/-- Rows are not versions. -/
theorem versions_putMetadata (metadata : Option Row) :
    ((putMetadata i metadata : Prog V Row Unit).run exec st).2.versions = st.versions := by
  cases metadata <;> rfl

theorem versions_migrateMetadata (j : Nat) (metadata : Option Row) :
    ((migrateMetadata i j metadata : Prog V Row Unit).run exec st).2.versions =
      st.versions := by
  cases metadata with
  | none => exact versions_putMetadata st j (st.rows i)
  | some row => rfl

end

/-! Whole calls -/

section

variable {st : State V Row}

/-- The filter covers the map after every call. -/
theorem covers_exec (c : Call V Row) (hcovers : st.tables.BloomCovers) :
    (exec c st).2.tables.BloomCovers := by
  cases c with
  | recordUpdateMapping r i => exact hcovers.recordUpdateMapping r i
  | forgetUpdateMapping r => exact hcovers.forgetUpdateMapping r
  | _ => exact ⟨hcovers.bitCount, hcovers.capacity, hcovers.contains⟩

theorem covers_run {α : Type} (p : Prog V Row α) (hcovers : st.tables.BloomCovers) :
    (p.run exec st).2.tables.BloomCovers := by
  induction p generalizing st with
  | done value => exact hcovers
  | call c next ih => exact ih _ (covers_exec c hcovers)

theorem current_eq (hcovers : st.tables.BloomCovers) (r : Nat) :
    st.tables.resolveInternal r = st.versions.current r :=
  IdTables.resolveInternal_eq hcovers r

theorem run_isAlive_eq (hcovers : st.tables.BloomCovers) (r : Nat) :
    (isAlive r).run exec st = (st.versions.alive r, st) := by
  obtain ⟨alive, hrun, hiff⟩ := run_isAlive st r
  rw [hrun]
  congr 1
  rw [Bool.eq_iff_iff, hiff]
  unfold AliveIn Located Versions.alive
  rw [current_eq hcovers, Bool.and_eq_true, Bool.not_eq_true']
  rfl

theorem versions_insertDead (write : Write V Row) :
    ((insertDead write).run exec st).2.versions = st.versions.insert write.r := by
  have hrest : ∀ (i : Nat) (later : State V Row),
      ((insertNode i write.vector write.plan >>= fun _ =>
        putMetadata i write.metadata).run exec later).2.versions = later.versions.store i := by
    intro i later
    rw [Program.run_bind, versions_putMetadata, versions_insertNode]
  have hreinsert : (isTombstoned write.r : Prog V Row Bool).run exec st =
      (st.versions.dead write.r, st) := rfl
  unfold insertDead Versions.insert
  rw [Program.run_bind, hreinsert]
  cases st.versions.dead write.r with
  | false => exact hrest write.r st
  | true =>
      rw [if_pos rfl, ← versions_allocate, ← versions_record, ← hrest]
      rfl

theorem versions_updateAlive (hcovers : st.tables.BloomCovers) (write : Write V Row) :
    ((updateAlive write).run exec st).2.versions = st.versions.update write.r := by
  have hold := current_eq hcovers write.r
  unfold updateAlive
  change ((insertNode st.versions.next write.vector write.plan >>= fun _ => _).run exec
    (exec .allocateUpdateId st).2).2.versions = _
  rw [Program.run_bind]
  generalize hlater : ((insertNode st.versions.next write.vector write.plan).run exec
    (exec .allocateUpdateId st).2).2 = later
  have hversions : later.versions =
      (st.versions.observe st.versions.next).store st.versions.next := by
    rw [← hlater, versions_insertNode, versions_allocate]
  change ((migrateMetadata (st.tables.resolveInternal write.r) st.versions.next
    write.metadata >>= fun _ => deleteRow _).run exec
    (exec (.tombstone (st.tables.resolveInternal write.r))
      (exec (.recordUpdateMapping write.r st.versions.next) later).2).2).2.versions = _
  rw [Program.run_bind]
  change ((migrateMetadata _ _ _).run exec _).2.versions = _
  rw [versions_migrateMetadata, versions_tombstone, versions_record, hversions, hold]
  rfl

theorem versions_writeDense (hcovers : st.tables.BloomCovers) (kind : Kind)
    (write : Write V Row) :
    ((writeDense 2 kind write).run exec st).2.versions =
      if st.versions.alive write.r then st.versions.update write.r
      else st.versions.insert write.r := by
  have halive := run_isAlive_eq hcovers write.r
  cases hlive : st.versions.alive write.r with
  | false =>
      rw [hlive] at halive
      rw [if_neg Bool.false_ne_true, ← versions_insertDead write]
      cases kind <;> simp [writeDense, Program.run_bind, halive] <;> rfl
  | true =>
      rw [hlive] at halive
      rw [if_pos rfl, ← versions_updateAlive hcovers write]
      cases kind <;> simp [writeDense, Program.run_bind, halive] <;> rfl

theorem versions_deleteDense (hcovers : st.tables.BloomCovers) (r : Nat) :
    ((deleteDense r).run exec st).2.versions = st.versions.delete r := by
  have hresolve : (resolveInternal r : Prog V Row Nat).run exec st =
      (st.versions.current r, st) := Prod.ext (current_eq hcovers r) rfl
  have hpresent : (vectorExists (st.versions.current r) : Prog V Row Bool).run exec st =
      (st.versions.stored (st.versions.current r), st) := rfl
  unfold deleteDense Versions.delete
  rw [Program.run_bind, run_isAlive_eq hcovers, Program.run_bind, hresolve, Program.run_bind,
    hpresent]
  cases st.versions.stored (st.versions.current r) with
  | false => rfl
  | true =>
      rw [if_pos rfl, ← versions_tombstone]
      exact versions_forget _ r

/-- A call does to the versions what it says. -/
theorem WriteCall.versions (hcovers : st.tables.BloomCovers) (call : WriteCall V Row) :
    (call.program.run exec st).2.versions = call.onVersions st.versions := by
  cases call with
  | upsert kind write => exact versions_writeDense hcovers kind write
  | delete r => exact versions_deleteDense hcovers r

theorem PayloadCall.versions (hcovers : st.tables.BloomCovers) (call : PayloadCall Row) :
    ((call.program : Prog V Row Bool).run exec st).2.versions = st.versions := by
  cases call with
  | set r row =>
      change ((isAlive r >>= _).run exec st).2.versions = _
      rw [Program.run_bind, run_isAlive_eq hcovers]
      cases st.versions.alive r <;> rfl
  | update r patch =>
      change ((isAlive r >>= _).run exec st).2.versions = _
      rw [Program.run_bind, run_isAlive_eq hcovers]
      cases st.versions.alive r <;> rfl
  | deleteKeys r erase =>
      change ((deletePayloadKeysDense r erase).run exec st).2.versions = _
      rw [run_deletePayloadKeysDense]
      cases (st.rows (st.tables.resolveInternal r)).bind erase <;> rfl

theorem versions_setPayloadBatch (items : List (Nat × Row)) :
    ((setPayloadBatch items : Prog V Row Bool).run exec st).2.versions = st.versions := by
  obtain ⟨resolved, hrun, -⟩ := run_resolveItems st items
  unfold setPayloadBatch
  rw [Program.run_bind, hrun]
  cases resolved <;> rfl

end

/-! One version -/

/-- The internal id has a vector, is not dead and belongs to `r`. -/
def VersionOf (st : State V Row) (r i : Nat) : Prop :=
  Located st i ∧ st.tables.isTombstoned i = false ∧ st.tables.resolveReal i = r

/-- The maps of a store agree with each other, and no id has two live versions. -/
structure OneVersion (st : State V Row) : Prop where
  inverse : ∀ r i, st.tables.updatedRealToInternal.lookup r = some i ↔
    st.tables.updatedInternalToReal.lookup i = some r
  resolves : ∀ r, st.tables.resolveInternal r =
    (st.tables.updatedRealToInternal.lookup r).getD r
  mapped : ∀ r i, st.tables.updatedRealToInternal.lookup r = some i →
    st.tables.isTombstoned i = false
  alive : ∀ r ≤ kMaxRealId, ((isAlive r).run exec st).1 = true → ∃! i, VersionOf st r i
  dead : ∀ r ≤ kMaxRealId, ((isAlive r).run exec st).1 = false → ∀ i, ¬VersionOf st r i

theorem Quiet.oneVersion {owner : Nat → Option Nat} {st : State V Row}
    (hquiet : Quiet owner st) : OneVersion st := by
  have hlive : ∀ r, ((isAlive r).run exec st).1 = true ↔ AliveIn st r := by
    intro r
    obtain ⟨alive, hrun, hiff⟩ := run_isAlive st r
    rw [hrun]
    exact hiff
  have hversion : ∀ r i, VersionOf st r i →
      st.tables.resolveInternal r = i ∧ AliveIn st r := by
    rintro r i ⟨hlocated, hdead, rfl⟩
    obtain ⟨r, hr, rfl, halive⟩ := hquiet.version hlocated hdead
    rw [hquiet.resolveReal_resolveInternal hr]
    exact ⟨rfl, halive⟩
  refine ⟨fun r i => ?_, IdTables.resolveInternal_eq hquiet.good.covers, fun r i hmap => ?_,
    fun r hr halive => ?_, fun r _ hnot i hi => ?_⟩
  · rw [← hquiet.lookup_reloaded i]
    exact (IdTables.lookup_reload
      (fun _ _ _ hmap hmap' => hquiet.mapping_injective hmap hmap') i r).symm
  · have hr := hquiet.mapped r i hmap
    obtain ⟨hdead, -, -⟩ := Quiet.slice_at st ((hquiet.inv r hr).mapped i hmap).1
    rw [← hdead]
    exact ((hquiet.idle r hr).mapped i hmap).2.2
  · obtain ⟨hdead, hlocated⟩ := (hlive r).mp halive
    have hr := (le_kMaxRealId_iff r).mp hr
    exact ⟨st.tables.resolveInternal r,
      ⟨hlocated, hdead, hquiet.resolveReal_resolveInternal hr⟩,
      fun i hi => (hversion r i hi).1.symm⟩
  · rw [(hlive r).mpr (hversion r i hi).2] at hnot
    cases hnot

/-- The law is about the versions alone. -/
theorem OneVersion.congr {st st' : State V Row} (hone : OneVersion st)
    (hcovers : st.tables.BloomCovers) (hcovers' : st'.tables.BloomCovers)
    (hversions : st.versions = st'.versions) : OneVersion st' := by
  have hforward : ∀ r, st.tables.updatedRealToInternal.lookup r =
      st'.tables.updatedRealToInternal.lookup r :=
    congrFun (congrArg Versions.forward hversions)
  have hreverse : ∀ i, st.tables.updatedInternalToReal.lookup i =
      st'.tables.updatedInternalToReal.lookup i :=
    congrFun (congrArg Versions.reverse hversions)
  have hdead : ∀ i, st.tables.isTombstoned i = st'.tables.isTombstoned i :=
    congrFun (congrArg Versions.dead hversions)
  have hstored : ∀ i, (st.vectors i).isSome = (st'.vectors i).isSome :=
    congrFun (congrArg Versions.stored hversions)
  have halive : ∀ r, ((isAlive r).run exec st).1 = ((isAlive r).run exec st').1 := by
    intro r
    rw [run_isAlive_eq hcovers, run_isAlive_eq hcovers', hversions]
  have hversion : ∀ r, VersionOf st r = VersionOf st' r := by
    intro r
    funext i
    unfold VersionOf Located IdTables.resolveReal
    rw [hstored, hdead, hreverse]
  refine ⟨fun r i => ?_, IdTables.resolveInternal_eq hcovers', fun r i hmap => ?_,
    fun r hr hlive => ?_, fun r hr hnot => ?_⟩
  · rw [← hforward, ← hreverse]
    exact hone.inverse r i
  · rw [← hdead]
    exact hone.mapped r i ((hforward r).trans hmap)
  · rw [← hversion]
    exact hone.alive r hr ((halive r).trans hlive)
  · rw [← hversion]
    exact hone.dead r hr ((halive r).trans hnot)

end AsterVec.Dense

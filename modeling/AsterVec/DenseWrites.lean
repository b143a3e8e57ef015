import AsterVec.DenseSlices

/-!
Inserts, updates and deletes are safe over the slice of their id, and leave it ready
for the next one.
-/

namespace AsterVec.Dense

open AsterVec.IdTypes
open AsterVec.Programs
open Prog

variable {V Row α : Type}

/-- The program is safe over the slice of the id it writes. -/
abbrev SafeWrite (r : Nat) (p : Prog V Row α) (Post : α → Slice V Row → Prop)
    (s : Slice V Row) : Prop :=
  Safe (Slice.handler V Row r) (fun _ => True) p Post s

section Calls

variable {r i : Nat} {s : Slice V Row} {Post : α → Slice V Row → Prop}

theorem safe_resolveInternal {follow : Nat → Prog V Row α}
    (hnext : SafeWrite r (follow (s.current r)) Post s) :
    SafeWrite r (resolveInternal r >>= follow) Post s := by
  refine ⟨trivial, rfl, ?_⟩
  rintro _ _ ⟨rfl, rfl⟩
  exact hnext

theorem safe_isTombstoned {follow : Bool → Prog V Row α} (howned : s.owned i = true)
    (hnext : SafeWrite r (follow (s.tombstoned i)) Post s) :
    SafeWrite r (isTombstoned i >>= follow) Post s := by
  refine ⟨trivial, howned, ?_⟩
  rintro _ _ ⟨rfl, rfl⟩
  exact hnext

theorem safe_vectorExists {follow : Bool → Prog V Row α} (howned : s.owned i = true)
    (hnext : SafeWrite r (follow (s.vectors i).isSome) Post s) :
    SafeWrite r (vectorExists i >>= follow) Post s := by
  refine ⟨trivial, howned, ?_⟩
  rintro _ _ ⟨rfl, rfl⟩
  exact hnext

theorem safe_getRow {follow : Option Row → Prog V Row α} (howned : s.owned i = true)
    (hnext : SafeWrite r (follow (s.rows i)) Post s) :
    SafeWrite r (getRow i >>= follow) Post s := by
  refine ⟨trivial, howned, ?_⟩
  rintro _ _ ⟨rfl, rfl⟩
  exact hnext

theorem safe_allocateUpdateId {follow : Nat → Prog V Row α}
    (hnext : ∀ n, s.owned n = false → SafeWrite r (follow n) Post (s.allocate n)) :
    SafeWrite r (allocateUpdateId >>= follow) Post s := by
  refine ⟨trivial, trivial, ?_⟩
  rintro n _ ⟨hnew, -, rfl⟩
  exact hnext n hnew

theorem safe_recordUpdateMapping {follow : Unit → Prog V Row α}
    (hallowed : Slice.Allowed r (.recordUpdateMapping r i) s)
    (hnext : SafeWrite r (follow ()) Post (s.record r i)) :
    SafeWrite r (recordUpdateMapping r i >>= follow) Post s := by
  refine ⟨trivial, hallowed, ?_⟩
  rintro _ _ rfl
  exact hnext

theorem safe_forgetUpdateMapping {follow : Unit → Prog V Row α}
    (hallowed : Slice.Allowed r (.forgetUpdateMapping r) s)
    (hnext : SafeWrite r (follow ()) Post s.forget) :
    SafeWrite r (forgetUpdateMapping r >>= follow) Post s := by
  refine ⟨trivial, hallowed, ?_⟩
  rintro _ _ rfl
  exact hnext

theorem safe_tombstone {follow : Unit → Prog V Row α}
    (hallowed : Slice.Allowed r (.tombstone i) s)
    (hnext : SafeWrite r (follow ()) Post (s.tombstone i)) :
    SafeWrite r (tombstone i >>= follow) Post s := by
  refine ⟨trivial, hallowed, ?_⟩
  rintro _ _ rfl
  exact hnext

theorem safe_storeVector {vector : V} {follow : Unit → Prog V Row α}
    (hallowed : Slice.Allowed r (.storeVector i vector) s)
    (hnext : SafeWrite r (follow ()) Post (s.store i vector)) :
    SafeWrite r (storeVector i vector >>= follow) Post s := by
  refine ⟨trivial, hallowed, ?_⟩
  rintro _ _ rfl
  exact hnext

theorem safe_putRow {row : Row} {follow : Unit → Prog V Row α} (howned : s.owned i = true)
    (hnext : SafeWrite r (follow ()) Post (s.setRow i (some row))) :
    SafeWrite r (putRow i row >>= follow) Post s := by
  refine ⟨trivial, howned, ?_⟩
  rintro _ _ rfl
  exact hnext

theorem safe_deleteRow {follow : Unit → Prog V Row α} (howned : s.owned i = true)
    (hnext : SafeWrite r (follow ()) Post (s.setRow i none)) :
    SafeWrite r (deleteRow i >>= follow) Post s := by
  refine ⟨trivial, howned, ?_⟩
  rintro _ _ rfl
  exact hnext

/-- A call on the graph changes no slice. -/
theorem safe_graph (c : Call V Row) {follow : Reply c → Prog V Row α}
    (hallowed : Slice.Allowed r c s)
    (hquiet : ∀ reply s', Slice.Step r c s reply s' → s' = s)
    (hnext : ∀ reply, SafeWrite r (follow reply) Post s) :
    SafeWrite r (perform c >>= follow) Post s := by
  refine ⟨trivial, hallowed, fun reply s' hstep => ?_⟩
  obtain rfl := hquiet reply s' hstep
  exact hnext reply

end Calls

variable {r : Nat} {s : Slice V Row}

theorem safe_isAlive (hinv : s.Inv r) :
    SafeWrite r (isAlive r) (fun alive s' => s' = s ∧ (alive = true ↔ s.Alive r)) s := by
  have howned : s.owned (s.current r) = true := by
    unfold Slice.current
    cases hmap : s.mapping with
    | none => exact hinv.owned_self
    | some m => exact (hinv.mapped m hmap).1
  unfold isAlive
  apply safe_resolveInternal
  apply safe_isTombstoned howned
  cases hdead : s.tombstoned (s.current r) with
  | true =>
      refine ⟨rfl, by simp, fun halive => ?_⟩
      rw [halive.1] at hdead
      cases hdead
  | false =>
      refine ⟨trivial, howned, ?_⟩
      rintro _ _ ⟨rfl, rfl⟩
      exact ⟨rfl, fun hsome => ⟨hdead, hsome⟩, fun halive => halive.2⟩

theorem safe_linkNode (nodeId : Nat) (plan : Plan) :
    SafeWrite r (linkNode nodeId plan : Prog V Row Unit) (fun _ s' => s' = s) s := by
  have hpromoted : SafeWrite r
      (bif plan.promoted then promote nodeId else pure () : Prog V Row Unit)
      (fun _ s' => s' = s) s := by
    cases plan.promoted with
    | true => exact ⟨trivial, trivial, fun _ _ hstep => hstep⟩
    | false => exact rfl
  have hdropped : SafeWrite r
      (do deleteEdges plan.dropped
          bif plan.promoted then promote nodeId else pure () : Prog V Row Unit)
      (fun _ s' => s' = s) s :=
    safe_graph (.deleteEdges plan.dropped) trivial (fun _ _ hstep => hstep)
      fun _ => hpromoted
  unfold linkNode
  apply safe_graph (.addEdges nodeId plan.selected) trivial (fun _ _ hstep => hstep)
  intro _
  cases plan.upper with
  | true =>
      exact safe_graph (.linkUpper nodeId) trivial (fun _ _ hstep => hstep) fun _ => hdropped
  | false => exact hdropped

/-- A node insertion stores its vector; the rest happens in the graph. -/
theorem safe_insertNode {nodeId : Nat} {vector : V}
    (hallowed : Slice.Allowed r (.storeVector nodeId vector) s) (plan : Plan) :
    SafeWrite r (insertNode nodeId vector plan)
      (fun _ s' => s' = s.store nodeId vector) s := by
  unfold insertNode
  apply safe_graph .loadEntryPoint trivial (fun _ _ hstep => hstep)
  intro entry
  cases (entry : Option Nat) with
  | none =>
      apply safe_storeVector hallowed
      apply safe_graph (.casEntryPoint nodeId) trivial (fun _ _ hstep => hstep)
      intro first
      cases (first : Bool) with
      | true => exact rfl
      | false => exact safe_linkNode nodeId plan
  | some _ => exact safe_storeVector hallowed (safe_linkNode nodeId plan)

theorem safe_insertNode_bind {nodeId : Nat} {vector : V} {plan : Plan}
    {follow : Unit → Prog V Row α} {Post : α → Slice V Row → Prop}
    (hallowed : Slice.Allowed r (.storeVector nodeId vector) s)
    (hnext : SafeWrite r (follow ()) Post (s.store nodeId vector)) :
    SafeWrite r (insertNode nodeId vector plan >>= follow) Post s := by
  apply Safe.bind
  apply (safe_insertNode hallowed plan).mono
  rintro _ _ rfl
  exact hnext

theorem Slice.Inv.owned_current (hinv : s.Inv r) : s.owned (s.current r) = true := by
  unfold Slice.current
  cases hmap : s.mapping with
  | none => exact hinv.owned_self
  | some m => exact (hinv.mapped m hmap).1

/-- A dead id has no mapping and no rows. -/
theorem Slice.Idle.of_dead (hidle : s.Idle r) (hdead : ¬s.Alive r) :
    s.mapping = none ∧ ∀ i, s.rows i = none := by
  constructor
  · cases hmap : s.mapping with
    | none => rfl
    | some m =>
        obtain ⟨-, hvec, hlive⟩ := hidle.mapped m hmap
        refine absurd ?_ hdead
        unfold Slice.Alive Slice.current
        rw [hmap]
        exact ⟨hlive, hvec⟩
  · intro i
    cases hrow : s.rows i with
    | none => rfl
    | some row => exact absurd (hidle.rows i (by rw [hrow]; rfl)).2 hdead

/-- A row given with a write. -/
def Slice.putMetadata (s : Slice V Row) (i : Nat) (metadata : Option Row) : Slice V Row :=
  metadata.elim s fun row => s.setRow i (some row)

namespace Slice

theorem putMetadata_alive {i : Nat} (metadata : Option Row) :
    (s.putMetadata i metadata).Alive r ↔ s.Alive r := by
  cases metadata <;> exact Iff.rfl

theorem putMetadata_owned {i : Nat} (metadata : Option Row) :
    (s.putMetadata i metadata).owned = s.owned := by
  cases metadata <;> rfl

theorem putMetadata_current {i : Nat} (metadata : Option Row) :
    (s.putMetadata i metadata).current r = s.current r := by
  cases metadata <;> rfl

theorem putMetadata_vectors {i : Nat} (metadata : Option Row) :
    (s.putMetadata i metadata).vectors = s.vectors := by
  cases metadata <;> rfl

theorem putMetadata_rows {i : Nat} (metadata : Option Row) :
    (s.putMetadata i metadata).rows i = metadata.or (s.rows i) := by
  cases metadata with
  | none => rfl
  | some row => exact Function.update_self _ _ _

theorem putMetadata_cases {i : Nat} (metadata : Option Row) :
    s.putMetadata i metadata = s ∨ ∃ row, s.putMetadata i metadata = s.setRow i row := by
  cases metadata with
  | none => exact .inl rfl
  | some row => exact .inr ⟨some row, rfl⟩

end Slice

theorem safe_putMetadata {i : Nat} (howned : s.owned i = true) (metadata : Option Row) :
    SafeWrite r (putMetadata i metadata : Prog V Row Unit)
      (fun _ s' => s' = s.putMetadata i metadata) s := by
  cases metadata with
  | some row =>
      refine ⟨trivial, howned, ?_⟩
      rintro _ _ rfl
      rfl
  | none => exact rfl

theorem safe_migrateMetadata {oldInternal newInternal : Nat}
    (hold : s.owned oldInternal = true) (hnew : s.owned newInternal = true)
    (metadata : Option Row) :
    SafeWrite r (migrateMetadata oldInternal newInternal metadata : Prog V Row Unit)
      (fun _ s' => s' = s.putMetadata newInternal (metadata.or (s.rows oldInternal))) s := by
  cases metadata with
  | some row => exact safe_putMetadata hnew (some row)
  | none => exact safe_getRow hold (safe_putMetadata hnew _)

/-! What a write leads to -/

/-- The slice after the write of an id that is alive; `n` is the id of the new version. -/
def Slice.updated (write : Write V Row) (s : Slice V Row) (n : Nat) : Slice V Row :=
  (((((s.allocate n).store n write.vector).record write.r n).tombstone
    (s.current write.r)).putMetadata n (write.metadata.or (s.rows (s.current write.r)))).setRow
      (s.current write.r) none

/-- The slices a write can lead to.  A dead id gets its own place, or a new update id where the
version at its own place is dead. -/
inductive Slice.Writes (write : Write V Row) (s : Slice V Row) : Slice V Row → Prop
  | insert (hdead : ¬s.Alive write.r) (hlive : s.tombstoned write.r = false)
      (hnone : s.vectors write.r = none) :
      Writes write s ((s.store write.r write.vector).putMetadata write.r write.metadata)
  | reinsert (n : Nat) (hdead : ¬s.Alive write.r) (htomb : s.tombstoned write.r = true)
      (hnew : s.owned n = false) :
      Writes write s ((((s.allocate n).record write.r n).store n write.vector).putMetadata n
        write.metadata)
  | update (n : Nat) (halive : s.Alive write.r) (hnew : s.owned n = false) :
      Writes write s (s.updated write n)

/-- The slice after the delete of an id that has a vector. -/
def Slice.deleted (s : Slice V Row) (r : Nat) : Slice V Row :=
  ((s.tombstone (s.current r)).setRow (s.current r) none).forget

theorem Slice.current_of_unmapped (hmap : s.mapping = none) : s.current r = r := by
  unfold Slice.current
  rw [hmap]
  rfl

theorem Slice.Inv.ne_of_new (hinv : s.Inv r) {n : Nat} (hnew : s.owned n = false) : n ≠ r := by
  rintro rfl
  rw [hinv.owned_self] at hnew
  cases hnew

theorem Slice.Inv.current_ne_of_new (hinv : s.Inv r) {n : Nat} (hnew : s.owned n = false) :
    s.current r ≠ n := by
  rintro rfl
  rw [hinv.owned_current] at hnew
  cases hnew

theorem safe_insertDead {write : Write V Row} {s : Slice V Row} (hinv : s.Inv write.r)
    (hidle : s.Idle write.r) (hdead : ¬s.Alive write.r) :
    SafeWrite write.r (insertDead write) (fun _ s' => s.Writes write s') s := by
  have hcurrent : s.current write.r = write.r :=
    Slice.current_of_unmapped (hidle.of_dead hdead).1
  unfold insertDead
  apply safe_isTombstoned hinv.owned_self
  cases htomb : s.tombstoned write.r with
  | true =>
      -- The direct version is dead: the vector gets an update id.
      apply safe_allocateUpdateId
      intro n hnew
      obtain ⟨hlive, hnone, -, -⟩ := hinv.bare n hnew
      have howned : (s.allocate n).owned n = true := Function.update_self _ _ _
      apply safe_recordUpdateMapping
      · refine ⟨rfl, howned, hinv.ne_of_new hnew, hlive, ?_, fun h => ?_⟩
        · change (s.vectors (s.current write.r)).isSome = true
          rw [hcurrent]
          exact hinv.located _ htomb
        · exact absurd (htomb.symm.trans h) (by simp)
      have hallowed : Slice.Allowed write.r (.storeVector n write.vector)
          ((s.allocate n).record write.r n) := ⟨howned, hnone, hlive⟩
      apply safe_insertNode_bind hallowed
      refine (safe_putMetadata ?_ write.metadata).mono ?_
      · exact howned
      rintro _ _ rfl
      exact .reinsert n hdead htomb hnew
  | false =>
      have hnone : s.vectors write.r = none := by
        cases hvec : s.vectors write.r with
        | none => rfl
        | some vector =>
            refine absurd ?_ hdead
            unfold Slice.Alive
            rw [hcurrent, hvec]
            exact ⟨htomb, rfl⟩
      change SafeWrite write.r (insertNode write.r write.vector write.plan >>= fun _ =>
        putMetadata write.r write.metadata) _ s
      have hallowed : Slice.Allowed write.r (.storeVector write.r write.vector) s :=
        ⟨hinv.owned_self, hnone, htomb⟩
      apply safe_insertNode_bind hallowed
      refine (safe_putMetadata ?_ write.metadata).mono ?_
      · exact hinv.owned_self
      rintro _ _ rfl
      exact .insert hdead htomb hnone

theorem safe_updateAlive {write : Write V Row} {s : Slice V Row} (hinv : s.Inv write.r)
    (halive : s.Alive write.r) :
    SafeWrite write.r (updateAlive write) (fun _ s' => s.Writes write s') s := by
  unfold updateAlive
  apply safe_resolveInternal
  apply safe_allocateUpdateId
  intro n hnew
  obtain ⟨hlive, hnone, -, -⟩ := hinv.bare n hnew
  have hnc := hinv.current_ne_of_new hnew
  have howned : (s.allocate n).owned n = true := Function.update_self _ _ _
  have hkept : (s.allocate n).owned (s.current write.r) = true :=
    (Function.update_of_ne hnc _ _).trans hinv.owned_current
  apply safe_insertNode_bind
  · exact ⟨howned, hnone, hlive⟩
  have hstored : ((s.allocate n).store n write.vector).vectors n = some write.vector :=
    Function.update_self _ _ _
  have hother : (((s.allocate n).store n write.vector).vectors (s.current write.r)).isSome =
      true := by
    change (Function.update s.vectors n _ (s.current write.r)).isSome = true
    rw [Function.update_of_ne hnc]
    exact halive.2
  apply safe_recordUpdateMapping
  · exact ⟨rfl, howned, hinv.ne_of_new hnew, hlive, hother, fun _ => by rw [hstored]; rfl⟩
  apply safe_tombstone
  · exact ⟨hkept, hother, fun h => absurd (Option.some.inj h).symm hnc⟩
  apply Safe.bind
  refine (safe_migrateMetadata ?_ ?_ write.metadata).mono ?_
  · exact hkept
  · exact howned
  rintro _ _ rfl
  refine ⟨trivial, ?_, ?_⟩
  · change (Slice.putMetadata _ n _).owned (s.current write.r) = true
    rw [Slice.putMetadata_owned]
    exact hkept
  rintro _ _ rfl
  exact .update n halive hnew

/-- A write finds its way after at most one change of direction. -/
theorem writes_writeDense {write : Write V Row} {s : Slice V Row} (hinv : s.Inv write.r)
    (hidle : s.Idle write.r) (kind : Kind) :
    SafeWrite write.r (writeDense 2 kind write)
      (fun ok s' => ok = true ∧ s.Writes write s') s := by
  have hinsert : ∀ fuel, ¬s.Alive write.r →
      SafeWrite write.r (writeDense (fuel + 1) .insert write)
        (fun ok s' => ok = true ∧ s.Writes write s') s := by
    intro fuel hdead
    unfold writeDense
    apply Safe.bind
    apply (safe_isAlive hinv).mono
    rintro alive _ ⟨rfl, halive⟩
    cases alive with
    | true => exact absurd (halive.mp rfl) hdead
    | false =>
        apply Safe.bind
        apply (safe_insertDead hinv hidle hdead).mono
        exact fun _ s' hwrites => ⟨rfl, hwrites⟩
  have hupdate : ∀ fuel, s.Alive write.r →
      SafeWrite write.r (writeDense (fuel + 1) .update write)
        (fun ok s' => ok = true ∧ s.Writes write s') s := by
    intro fuel hlive
    unfold writeDense
    apply Safe.bind
    apply (safe_isAlive hinv).mono
    rintro alive _ ⟨rfl, halive⟩
    cases alive with
    | false => exact absurd (halive.mpr hlive) (by simp)
    | true =>
        apply Safe.bind
        apply (safe_updateAlive hinv hlive).mono
        exact fun _ s' hwrites => ⟨rfl, hwrites⟩
  rcases Classical.em (s.Alive write.r) with hlive | hdead
  · cases kind with
    | update => exact hupdate 1 hlive
    | insert =>
        unfold writeDense
        apply Safe.bind
        apply (safe_isAlive hinv).mono
        rintro alive _ ⟨rfl, halive⟩
        rw [halive.mpr hlive]
        exact hupdate 0 hlive
  · cases kind with
    | insert => exact hinsert 1 hdead
    | update =>
        unfold writeDense
        apply Safe.bind
        apply (safe_isAlive hinv).mono
        rintro alive _ ⟨rfl, halive⟩
        cases alive with
        | true => exact absurd (halive.mp rfl) hdead
        | false => exact hinsert 0 hdead

/-- Of a tombstoned current version, the direct one is dead too. -/
theorem Slice.Idle.tombstoned_direct (hidle : s.Idle r) :
    (s.tombstone (s.current r)).tombstoned r = true := by
  change Function.update s.tombstoned (s.current r) true r = true
  rw [Function.update_apply]
  split
  · rfl
  · rename_i hne
    cases hmap : s.mapping with
    | none => exact absurd (Slice.current_of_unmapped hmap).symm hne
    | some m => exact (hidle.mapped m hmap).1

theorem deletes_deleteDense {s : Slice V Row} (hinv : s.Inv r) (hidle : s.Idle r) :
    SafeWrite r (deleteDense r) (fun ok s' => ok = true ∧
      (s' = s ∧ s.vectors (s.current r) = none ∨ s' = s.deleted r)) s := by
  unfold deleteDense
  apply Safe.bind
  apply (safe_isAlive hinv).mono
  rintro alive _ ⟨rfl, -⟩
  rename_i s
  apply safe_resolveInternal
  apply safe_vectorExists hinv.owned_current
  cases hpresent : (s.vectors (s.current r)).isSome with
  | false => exact ⟨rfl, .inl ⟨rfl, by simpa using hpresent⟩⟩
  | true =>
      have hmapped : s.mapping = some (s.current r) → s.tombstoned r = true :=
        fun hmap => (hidle.mapped _ hmap).1
      have howned := hinv.owned_current
      apply safe_tombstone ⟨howned, hpresent, hmapped⟩
      apply safe_deleteRow
      · exact howned
      apply safe_forgetUpdateMapping
      · refine ⟨rfl, fun m hm => ⟨?_, hidle.tombstoned_direct⟩⟩
        have hmap : s.mapping = some m := hm
        have hcurrent : s.current r = m := by
          unfold Slice.current
          rw [hmap]
          rfl
        rw [← hcurrent]
        exact Function.update_self _ _ _
      exact ⟨rfl, .inr rfl⟩

/-! The slices are ready for the next call -/

/-- Only the row at `i` can change, and nothing else does. -/
theorem Slice.Idle.of_rowAt {s' : Slice V Row} {i : Nat}
    (hrow : s' = s ∨ ∃ row, s' = s.setRow i row)
    (hmapped : ∀ m, s.mapping = some m →
      s.tombstoned r = true ∧ (s.vectors m).isSome = true ∧ s.tombstoned m = false)
    (hreplaced : ∀ j, j ≠ s.current r → (s.vectors j).isSome = true →
      s.tombstoned j = true)
    (hi : i = s.current r) (halive : s.Alive r)
    (hrows : ∀ j, j ≠ i → s.rows j = none) : s'.Idle r := by
  have hbelongs : ∀ j, (s'.rows j).isSome = true → j = s.current r := by
    intro j hj
    by_contra hne
    have hrow' : s'.rows j = none := by
      rcases hrow with rfl | ⟨row, rfl⟩
      · exact hrows j (hi ▸ hne)
      · exact (Function.update_of_ne (hi ▸ hne) _ _).trans (hrows j (hi ▸ hne))
    rw [hrow'] at hj
    cases hj
  rcases hrow with rfl | ⟨row, rfl⟩
  · exact ⟨hmapped, hreplaced, fun j hj => ⟨hbelongs j hj, halive⟩⟩
  · exact ⟨hmapped, hreplaced, fun j hj => ⟨hbelongs j hj, halive⟩⟩

theorem Slice.Idle.updated {write : Write V Row} {s : Slice V Row} {n : Nat}
    (hinv : s.Inv write.r) (hidle : s.Idle write.r) (halive : s.Alive write.r)
    (hnew : s.owned n = false) : (s.updated write n).Idle write.r := by
  obtain ⟨hlive, -, -, -⟩ := hinv.bare n hnew
  have hnc := hinv.current_ne_of_new hnew
  have hstored : ((s.allocate n).store n write.vector).vectors n = some write.vector :=
    Function.update_self _ _ _
  have hdead : ((((s.allocate n).store n write.vector).record write.r n).tombstone
      (s.current write.r)).tombstoned n = false :=
    (Function.update_of_ne hnc.symm _ _).trans hlive
  -- The rows left are the new version's.
  have hfinal : s.updated write n =
        ((((s.allocate n).store n write.vector).record write.r n).tombstone
          (s.current write.r)).setRow (s.current write.r) none ∨
      ∃ row, s.updated write n =
        (((((s.allocate n).store n write.vector).record write.r n).tombstone
          (s.current write.r)).setRow (s.current write.r) none).setRow n row := by
    unfold Slice.updated
    rcases Slice.putMetadata_cases (s := ((((s.allocate n).store n write.vector).record write.r
      n).tombstone (s.current write.r))) (i := n)
      (write.metadata.or (s.rows (s.current write.r))) with hsame | ⟨row, hrow⟩
    · exact .inl (by rw [hsame])
    · refine .inr ⟨row, ?_⟩
      rw [hrow]
      unfold Slice.setRow
      congr 1
      exact Function.update_comm hnc.symm _ _ _
  apply Slice.Idle.of_rowAt hfinal
  · rintro m ⟨⟩
    refine ⟨?_, (congrArg Option.isSome hstored).trans rfl, hdead⟩
    exact hidle.tombstoned_direct
  · intro j hj hsome
    have hjn : j ≠ n := hj
    change (((s.allocate n).store n write.vector).vectors j).isSome = true at hsome
    rw [show ((s.allocate n).store n write.vector).vectors j = s.vectors j from
      Function.update_of_ne hjn _ _] at hsome
    change Function.update s.tombstoned (s.current write.r) true j = true
    rw [Function.update_apply]
    split
    · rfl
    · rename_i hjc
      exact hidle.replaced j hjc hsome
  · rfl
  · exact ⟨hdead, (congrArg Option.isSome hstored).trans rfl⟩
  · intro j hj
    change Function.update s.rows (s.current write.r) none j = none
    rw [Function.update_apply]
    split
    · rfl
    · rename_i hjc
      cases hrow : s.rows j with
      | none => rfl
      | some row => exact absurd (hidle.rows j (by rw [hrow]; rfl)).1 hjc

theorem Slice.Writes.idle {write : Write V Row} {s s' : Slice V Row} (hinv : s.Inv write.r)
    (hidle : s.Idle write.r) (hwrites : s.Writes write s') : s'.Idle write.r := by
  cases hwrites with
  | insert hdead hlive hnone =>
      obtain ⟨hmap, hrows⟩ := hidle.of_dead hdead
      have hcurrent := Slice.current_of_unmapped (r := write.r) hmap
      have hstored : (s.store write.r write.vector).vectors write.r = some write.vector :=
        Function.update_self _ _ _
      apply Slice.Idle.of_rowAt (Slice.putMetadata_cases write.metadata)
      · intro m hm
        exact absurd (hmap.symm.trans hm) (by simp)
      · intro j hj hsome
        have hjr : j ≠ write.r := fun h => hj (h.trans hcurrent.symm)
        refine hidle.replaced j hj ?_
        rw [← hsome]
        exact (congrArg Option.isSome (Function.update_of_ne hjr _ _)).symm
      · exact hcurrent.symm
      · refine ⟨?_, ?_⟩
        · change s.tombstoned (s.current write.r) = false
          rwa [hcurrent]
        · change ((s.store write.r write.vector).vectors (s.current write.r)).isSome = true
          rw [hcurrent, hstored]
          rfl
      · exact fun j _ => hrows j
  | reinsert n hdead htomb hnew =>
      obtain ⟨hmap, hrows⟩ := hidle.of_dead hdead
      have hcurrent := Slice.current_of_unmapped (r := write.r) hmap
      obtain ⟨hlive, -, -, -⟩ := hinv.bare n hnew
      have hstored : (((s.allocate n).record write.r n).store n write.vector).vectors n =
          some write.vector := Function.update_self _ _ _
      apply Slice.Idle.of_rowAt (Slice.putMetadata_cases write.metadata)
      · rintro m ⟨⟩
        exact ⟨htomb, by rw [hstored]; rfl, hlive⟩
      · intro j hj hsome
        have hjn : j ≠ n := hj
        have hsome' : (s.vectors j).isSome = true := by
          rw [← hsome]
          exact (congrArg Option.isSome (Function.update_of_ne hjn _ _)).symm
        rcases eq_or_ne j write.r with rfl | hjr
        · exact htomb
        · exact hidle.replaced j (by rwa [hcurrent]) hsome'
      · rfl
      · exact ⟨hlive, (congrArg Option.isSome hstored).trans rfl⟩
      · exact fun j _ => hrows j
  | update n halive hnew => exact hidle.updated hinv halive hnew

theorem Slice.Idle.deleted (hidle : s.Idle r) : (s.deleted r).Idle r := by
  refine ⟨by rintro m ⟨⟩, ?_, ?_⟩
  · intro j hj hsome
    change Function.update s.tombstoned (s.current r) true j = true
    rcases eq_or_ne j (s.current r) with rfl | hjc
    · exact Function.update_self _ _ _
    · rw [Function.update_of_ne hjc]
      exact hidle.replaced j hjc hsome
  · intro j hj
    change (Function.update s.rows (s.current r) none j).isSome = true at hj
    rw [Function.update_apply] at hj
    split at hj
    · cases hj
    · rename_i hjc
      exact absurd (hidle.rows j hj).1 hjc

theorem safe_deleteDense {s : Slice V Row} (hinv : s.Inv r) (hidle : s.Idle r) :
    SafeWrite r (deleteDense r) (fun ok s' => ok = true ∧ s'.Idle r) s := by
  apply (deletes_deleteDense hinv hidle).mono
  rintro ok s' ⟨hok, ⟨rfl, -⟩ | rfl⟩
  · exact ⟨hok, hidle⟩
  · exact ⟨hok, hidle.deleted⟩

theorem safe_writeDense {write : Write V Row} {s : Slice V Row} (hinv : s.Inv write.r)
    (hidle : s.Idle write.r) (kind : Kind) :
    SafeWrite write.r (writeDense 2 kind write)
      (fun ok s' => ok = true ∧ s'.Idle write.r) s :=
  (writes_writeDense hinv hidle kind).mono fun _ _ h => ⟨h.1, h.2.idle hinv hidle⟩

end AsterVec.Dense

import AsterVec.DenseReached

/-!
What writes and payload calls make of the vector and the payload of their id.  A write
keeps the payload of an id that is alive unless it brings one of its own.
-/

namespace AsterVec.Dense

open AsterVec.IdTypes
open AsterVec.Programs
open Prog

variable {V Row α : Type}

/-- What a store has for an id that is alive: its vector, and its row if there is one. -/
abbrev Doc (V Row : Type) := Option (V × Option Row)

/-- The payload of an id: `none` for an id that is not alive, `some none` for one without
a row. -/
abbrev Content (Row : Type) := Option (Option Row)

namespace Slice

variable {r : Nat} {s : Slice V Row}

def doc (s : Slice V Row) (r : Nat) : Doc V Row :=
  bif s.tombstoned (s.current r) then none
  else (s.vectors (s.current r)).map fun vector => (vector, s.rows (s.current r))

def content (s : Slice V Row) (r : Nat) : Content Row := (s.doc r).map Prod.snd

theorem Alive.doc (halive : s.Alive r) (vector : V)
    (hvector : s.vectors (s.current r) = some vector) :
    s.doc r = some (vector, s.rows (s.current r)) := by
  unfold Slice.doc
  rw [halive.1, hvector]
  rfl

theorem Alive.content (halive : s.Alive r) :
    s.content r = some (s.rows (s.current r)) := by
  obtain ⟨vector, hvector⟩ := Option.isSome_iff_exists.mp halive.2
  unfold Slice.content
  rw [halive.doc _ hvector]
  rfl

theorem doc_of_dead (hdead : ¬s.Alive r) : s.doc r = none := by
  unfold Slice.doc
  cases htomb : s.tombstoned (s.current r) with
  | true => rfl
  | false =>
      cases hvector : s.vectors (s.current r) with
      | none => rfl
      | some vector => exact absurd ⟨htomb, by rw [hvector]; rfl⟩ hdead

theorem alive_iff_doc : s.Alive r ↔ (s.doc r).isSome = true := by
  constructor
  · intro halive
    obtain ⟨vector, hvector⟩ := Option.isSome_iff_exists.mp halive.2
    rw [halive.doc vector hvector]
    rfl
  · intro hsome
    by_contra hdead
    rw [doc_of_dead hdead] at hsome
    cases hsome

theorem content_of_dead (hdead : ¬s.Alive r) : s.content r = none := by
  unfold Slice.content
  rw [doc_of_dead hdead]
  rfl

theorem alive_of_content {row : Option Row} (hcontent : s.content r = some row) :
    s.Alive r ∧ s.rows (s.current r) = row := by
  by_cases halive : s.Alive r
  · rw [halive.content] at hcontent
    exact ⟨halive, Option.some.inj hcontent⟩
  · rw [content_of_dead halive] at hcontent
    cases hcontent

theorem content_join : (s.content r).join = (s.doc r).bind Prod.snd := by
  unfold Slice.content
  cases s.doc r <;> rfl

end Slice

/-! What calls make of a document -/

def Write.onDoc (write : Write V Row) : Doc V Row → Doc V Row
  | none => some (write.vector, write.metadata)
  | some (_, row) => some (write.vector, write.metadata.or row)

def Write.onContent (write : Write V Row) : Content Row → Content Row
  | none => some write.metadata
  | some row => some (write.metadata.or row)

theorem Write.map_onDoc (write : Write V Row) (doc : Doc V Row) :
    (write.onDoc doc).map Prod.snd = write.onContent (doc.map Prod.snd) := by
  cases doc <;> rfl

def WriteCall.onDoc : WriteCall V Row → Doc V Row → Doc V Row
  | .upsert _ write => write.onDoc
  | .delete _ => fun _ => none

def WriteCall.onContent : WriteCall V Row → Content Row → Content Row
  | .upsert _ write => write.onContent
  | .delete _ => fun _ => none

theorem WriteCall.map_onDoc (call : WriteCall V Row) (doc : Doc V Row) :
    (call.onDoc doc).map Prod.snd = call.onContent (doc.map Prod.snd) := by
  cases call with
  | upsert _ write => exact write.map_onDoc doc
  | delete _ => rfl

def PayloadCall.onRow : PayloadCall Row → Option Row → Option Row
  | .set _ row => fun _ => some row
  | .update _ patch => fun existing => some (patch existing)
  | .deleteKeys _ erase => fun existing => (existing.bind erase).or existing

def PayloadCall.onDoc (call : PayloadCall Row) : Doc V Row → Doc V Row :=
  Option.map (Prod.map id call.onRow)

def PayloadCall.onContent (call : PayloadCall Row) : Content Row → Content Row :=
  Option.map call.onRow

theorem PayloadCall.map_onDoc (call : PayloadCall Row) (doc : Doc V Row) :
    (call.onDoc doc).map Prod.snd = call.onContent (doc.map Prod.snd) := by
  cases doc <;> rfl

section Writes

variable {r : Nat} {s : Slice V Row}

theorem Slice.doc_updated {write : Write V Row} {s : Slice V Row} {n : Nat}
    (hinv : s.Inv write.r) (hnew : s.owned n = false) :
    (s.updated write n).doc write.r =
      some (write.vector, write.metadata.or (s.rows (s.current write.r))) := by
  obtain ⟨hlive, -, -, hrow⟩ := hinv.bare n hnew
  have hnc := hinv.current_ne_of_new hnew
  unfold Slice.updated
  generalize hfound : ((((s.allocate n).store n write.vector).record write.r n).tombstone
    (s.current write.r)) = written
  have hcurrent : written.current write.r = n := by
    subst hfound
    rfl
  have hrows : written.rows = s.rows := by
    subst hfound
    rfl
  have hvector : written.vectors n = some write.vector := by
    subst hfound
    exact Function.update_self _ _ _
  have halive : written.Alive write.r := by
    refine ⟨?_, by rw [hcurrent, hvector]; rfl⟩
    subst hfound
    exact (Function.update_of_ne hnc.symm _ _).trans hlive
  have hfinal : ((written.putMetadata n (write.metadata.or
      (s.rows (s.current write.r)))).setRow (s.current write.r) none).Alive write.r :=
    (Slice.putMetadata_alive _).mpr halive
  refine (hfinal.doc write.vector ?_).trans ?_
  · change (written.putMetadata n _).vectors ((written.putMetadata n _).current write.r) = _
    rw [Slice.putMetadata_current, Slice.putMetadata_vectors, hcurrent]
    exact hvector
  · change some (_, Function.update (written.putMetadata n _).rows (s.current write.r) none
      ((written.putMetadata n _).current write.r)) = _
    rw [Slice.putMetadata_current, hcurrent, Function.update_of_ne hnc.symm,
      Slice.putMetadata_rows, hrows, hrow, Option.or_none]

/-- A dead id gets the vector and the payload of the write.  The new version of one that is
alive gets the payload of the write, or else that of the old version. -/
theorem Slice.Writes.doc {write : Write V Row} {s s' : Slice V Row} (hinv : s.Inv write.r)
    (hidle : s.Idle write.r) (hwrites : s.Writes write s') :
    s'.doc write.r = write.onDoc (s.doc write.r) := by
  cases hwrites with
  | insert hdead hlive hnone =>
      obtain ⟨hmap, hrows⟩ := hidle.of_dead hdead
      have hcurrent : (s.store write.r write.vector).current write.r = write.r :=
        Slice.current_of_unmapped hmap
      have hstored : (s.store write.r write.vector).vectors write.r = some write.vector :=
        Function.update_self _ _ _
      have halive : (s.store write.r write.vector).Alive write.r := by
        unfold Slice.Alive
        rw [hcurrent, hstored]
        exact ⟨hlive, rfl⟩
      have hbare : (s.store write.r write.vector).rows write.r = none := hrows _
      rw [Slice.doc_of_dead hdead]
      refine (((Slice.putMetadata_alive _).mpr halive).doc write.vector ?_).trans ?_
      · rw [Slice.putMetadata_current, Slice.putMetadata_vectors, hcurrent]
        exact hstored
      · rw [Slice.putMetadata_current, hcurrent, Slice.putMetadata_rows, hbare, Option.or_none]
        rfl
  | reinsert n hdead htomb hnew =>
      obtain ⟨hlive, -, -, hrow⟩ := hinv.bare n hnew
      have hstored : (((s.allocate n).record write.r n).store n write.vector).vectors n =
          some write.vector := Function.update_self _ _ _
      have halive : (((s.allocate n).record write.r n).store n write.vector).Alive write.r :=
        ⟨hlive, (congrArg Option.isSome hstored).trans rfl⟩
      have hbare : (((s.allocate n).record write.r n).store n write.vector).rows n = none :=
        hrow
      rw [Slice.doc_of_dead hdead]
      refine (((Slice.putMetadata_alive _).mpr halive).doc write.vector ?_).trans ?_
      · rw [Slice.putMetadata_current, Slice.putMetadata_vectors]
        exact hstored
      · rw [Slice.putMetadata_current]
        change some (_, (Slice.putMetadata _ n _).rows n) = _
        rw [Slice.putMetadata_rows, hbare, Option.or_none]
        rfl
  | update n halive hnew =>
      obtain ⟨vector, hvector⟩ := Option.isSome_iff_exists.mp halive.2
      rw [halive.doc _ hvector]
      exact Slice.doc_updated hinv hnew

theorem Slice.doc_deleted (hidle : s.Idle r) : (s.deleted r).doc r = none := by
  apply Slice.doc_of_dead
  rintro ⟨hlive, -⟩
  exact absurd (hidle.tombstoned_direct.symm.trans hlive) (by simp)

theorem doc_writeDense {write : Write V Row} {s : Slice V Row} (hinv : s.Inv write.r)
    (hidle : s.Idle write.r) (kind : Kind) :
    SafeWrite write.r (writeDense 2 kind write)
      (fun _ s' => s'.doc write.r = write.onDoc (s.doc write.r)) s :=
  (writes_writeDense hinv hidle kind).mono fun _ _ h => h.2.doc hinv hidle

theorem doc_deleteDense {s : Slice V Row} (hinv : s.Inv r) (hidle : s.Idle r) :
    SafeWrite r (deleteDense r) (fun _ s' => s'.doc r = none) s := by
  apply (deletes_deleteDense hinv hidle).mono
  rintro _ s' ⟨-, ⟨rfl, hnone⟩ | rfl⟩
  · apply Slice.doc_of_dead
    rintro ⟨-, hvector⟩
    rw [hnone] at hvector
    cases hvector
  · exact Slice.doc_deleted hidle

theorem doc_writeCall (call : WriteCall V Row) (hinv : s.Inv call.r)
    (hidle : s.Idle call.r) :
    SafeWrite call.r call.program
      (fun _ s' => s'.doc call.r = call.onDoc (s.doc call.r)) s := by
  cases call with
  | upsert kind write => exact doc_writeDense hinv hidle kind
  | delete r => exact doc_deleteDense hinv hidle

/-- The row of the current version is written. -/
theorem doc_putCurrentRow (hinv : s.Inv r) (halive : s.Alive r) (row : Row) :
    SafeWrite r (do putRow (s.current r) row; pure true : Prog V Row Bool)
      (fun _ s' => s'.doc r = (s.doc r).map (Prod.map id fun _ => some row)) s := by
  obtain ⟨vector, hvector⟩ := Option.isSome_iff_exists.mp halive.2
  apply safe_putRow hinv.owned_current
  have halive' : (s.setRow (s.current r) (some row)).Alive r := halive
  have hvector' : (s.setRow (s.current r) (some row)).vectors
      ((s.setRow (s.current r) (some row)).current r) = some vector := hvector
  change Slice.doc _ _ = _
  rw [halive'.doc _ hvector', halive.doc _ hvector]
  exact congrArg (fun row => some (vector, row)) (Function.update_self _ _ _)

theorem doc_deletePayloadKeysDense (hinv : s.Inv r) (hidle : s.Idle r)
    (erase : Row → Option Row) :
    SafeWrite r (deletePayloadKeysDense r erase : Prog V Row Bool)
      (fun _ s' => s'.doc r = (PayloadCall.deleteKeys r erase).onDoc (s.doc r)) s := by
  apply safe_resolveInternal
  apply safe_getRow hinv.owned_current
  cases herased : (s.rows (s.current r)).bind erase with
  | none =>
      change Slice.doc _ _ = Option.map _ _
      by_cases halive : s.Alive r
      · obtain ⟨vector, hvector⟩ := Option.isSome_iff_exists.mp halive.2
        rw [halive.doc _ hvector]
        change _ = some (vector, ((s.rows (s.current r)).bind erase).or _)
        rw [herased, Option.none_or]
      · rw [Slice.doc_of_dead halive]
        rfl
  | some row =>
      obtain ⟨existing, hrow, -⟩ := Option.bind_eq_some_iff.mp herased
      have halive := (hidle.rows (s.current r) (by rw [hrow]; rfl)).2
      obtain ⟨vector, hvector⟩ := Option.isSome_iff_exists.mp halive.2
      apply (doc_putCurrentRow hinv halive row).mono
      intro _ s' hdoc
      rw [hdoc, halive.doc _ hvector]
      change _ = some (vector, ((s.rows (s.current r)).bind erase).or _)
      rw [herased]
      rfl

theorem doc_payload (call : PayloadCall Row) (hinv : s.Inv call.r)
    (hidle : s.Idle call.r) :
    SafeWrite call.r (call.program : Prog V Row Bool)
      (fun _ s' => s'.doc call.r = call.onDoc (s.doc call.r)) s := by
  cases call with
  | set r row =>
      apply Safe.bind
      apply (safe_isAlive hinv).mono
      rintro alive _ ⟨rfl, halive⟩
      cases alive with
      | false =>
          have hdead : ¬Slice.Alive _ r := fun h => absurd (halive.mpr h) (by simp)
          change Slice.doc _ r = Option.map _ (Slice.doc _ r)
          rw [Slice.doc_of_dead hdead]
          rfl
      | true =>
          apply safe_resolveInternal
          exact doc_putCurrentRow hinv (halive.mp rfl) row
  | update r patch =>
      apply Safe.bind
      apply (safe_isAlive hinv).mono
      rintro alive _ ⟨rfl, halive⟩
      cases alive with
      | false =>
          have hdead : ¬Slice.Alive _ r := fun h => absurd (halive.mpr h) (by simp)
          change Slice.doc _ r = Option.map _ (Slice.doc _ r)
          rw [Slice.doc_of_dead hdead]
          rfl
      | true =>
          obtain ⟨vector, hvector⟩ := Option.isSome_iff_exists.mp (halive.mp rfl).2
          apply safe_resolveInternal
          apply safe_getRow hinv.owned_current
          apply (doc_putCurrentRow hinv (halive.mp rfl) _).mono
          intro _ s' hdoc
          have hbefore := (halive.mp rfl).doc _ hvector
          change Slice.doc _ r = some _ at hbefore
          change Slice.doc _ r = Option.map _ (Slice.doc _ r)
          rw [hbefore]
          refine hdoc.trans ?_
          change Option.map _ (Slice.doc _ r) = _
          rw [hbefore]
          rfl
  | deleteKeys r erase => exact doc_deletePayloadKeysDense hinv hidle erase

theorem content_writeCall (call : WriteCall V Row) (hinv : s.Inv call.r)
    (hidle : s.Idle call.r) :
    SafeWrite call.r call.program
      (fun _ s' => s'.content call.r = call.onContent (s.content call.r)) s := by
  apply (doc_writeCall call hinv hidle).mono
  intro _ s' hdoc
  exact (congrArg (Option.map Prod.snd) hdoc).trans (call.map_onDoc _)

theorem content_payload (call : PayloadCall Row) (hinv : s.Inv call.r)
    (hidle : s.Idle call.r) :
    SafeWrite call.r (call.program : Prog V Row Bool)
      (fun _ s' => s'.content call.r = call.onContent (s.content call.r)) s := by
  apply (doc_payload call hinv hidle).mono
  intro _ s' hdoc
  exact (congrArg (Option.map Prod.snd) hdoc).trans (call.map_onDoc _)

end Writes

namespace Quiet

variable {owner : Nat → Option Nat} {st : State V Row} {r : Nat}

/-- What the store has for the current version of an id. -/
theorem at_current (hquiet : Quiet owner st) (hr : r < 2 ^ 63) :
    (sliceOf r owner st).vectors ((sliceOf r owner st).current r) =
        st.vectors (st.tables.resolveInternal r) ∧
      (sliceOf r owner st).rows ((sliceOf r owner st).current r) =
        st.rows (st.tables.resolveInternal r) := by
  have howned := (hquiet.inv r hr).owned_current
  rw [hquiet.current_eq] at howned ⊢
  exact (slice_at st howned).2

theorem row_eq_content (hquiet : Quiet owner st) (hr : r < 2 ^ 63) :
    st.rows (st.tables.resolveInternal r) = ((sliceOf r owner st).content r).join := by
  rw [← (hquiet.at_current hr).2]
  rcases Classical.em ((sliceOf r owner st).Alive r) with halive | hdead
  · rw [halive.content]
    rfl
  · rw [Slice.content_of_dead hdead]
    exact ((hquiet.idle r hr).of_dead hdead).2 _

theorem row_eq (hquiet : Quiet owner st) (hr : r < 2 ^ 63) :
    st.rows (st.tables.resolveInternal r) =
      ((sliceOf r owner st).doc r).bind Prod.snd :=
  (hquiet.row_eq_content hr).trans Slice.content_join

end Quiet

end AsterVec.Dense

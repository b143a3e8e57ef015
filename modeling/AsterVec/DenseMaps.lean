import AsterVec.DenseContents
import Mathlib.Data.Set.Card

/-!
A dense store used by one caller at a time is a map from ids to documents.
-/

namespace AsterVec.Dense

open AsterVec.IdTypes
open AsterVec.Programs
open Prog

variable {X V Row : Type}

/-- What a caller asks for. -/
inductive Use (X Row : Type) where
  | upsert (kind : Kind) (r : Nat) (vector : X) (metadata : Option Row) (plan : Plan)
  | delete (r : Nat)
  | payload (call : PayloadCall Row)
  | get (r : Nat)
  | getPayload (r : Nat)
  | vectorCount
  | reopen

/-- What the caller is told; a payload `none` is `{}`. -/
inductive Answer (X Row : Type) where
  | invalidArgument
  | ioError
  | done (ok : Bool)
  | vector (found : Option X)
  | payload (row : Option Row)
  | count (n : Nat)

/-- A store with its count of live vectors. -/
structure Db (V Row : Type) where
  st : State V Row
  liveCount : Int

namespace Db

variable (encode : X → V) (decode : V → X)

def empty (V Row : Type) : Db V Row := ⟨State.empty V Row, 0⟩

def isAlive (db : Db V Row) (r : Nat) : Bool := ((Dense.isAlive r).run exec db.st).1

/-- An insert of an id that is not alive counts a vector. -/
def upsert (kind : Kind) (write : Write V Row) (db : Db V Row) : Bool × Db V Row :=
  let out := (writeDense 2 kind write).run exec db.st
  (out.1, ⟨out.2, bif db.isAlive write.r then db.liveCount else db.liveCount + 1⟩)

/-- A delete of an id that is alive discounts one. -/
def delete (r : Nat) (db : Db V Row) : Bool × Db V Row :=
  let out := (deleteDense r).run exec db.st
  (out.1, ⟨out.2, bif db.isAlive r then db.liveCount - 1 else db.liveCount⟩)

def vectorCount (db : Db V Row) : Nat :=
  if 0 < db.liveCount then db.liveCount.toNat else 0

/-- A count below zero would not be read back. -/
def reopen (db : Db V Row) : Db V Row :=
  ⟨db.st.reopen, if 0 ≤ db.liveCount then db.liveCount else 0⟩

def use : Use X Row → Db V Row → Answer X Row × Db V Row
  | .upsert kind r vector metadata plan, db =>
      if kMaxRealId < r then (.invalidArgument, db)
      else
        let out := db.upsert kind ⟨r, encode vector, metadata, plan⟩
        (.done out.1, out.2)
  | .delete r, db =>
      if kMaxRealId < r then (.invalidArgument, db)
      else
        let out := db.delete r
        (.done out.1, out.2)
  | .payload call, db =>
      if kMaxRealId < call.r then (.invalidArgument, db)
      else
        let out := (call.program : Prog V Row Bool).run exec db.st
        (.done out.1, ⟨out.2, db.liveCount⟩)
  | .get r, db =>
      if kMaxRealId < r then (.invalidArgument, db)
      else
        match ((getDense r).run exec db.st).1 with
        | .notFound => (.vector none, db)
        | .ioError => (.ioError, db)
        | .ok vector => (.vector (some (decode vector)), db)
  | .getPayload r, db =>
      if kMaxRealId < r then (.invalidArgument, db)
      else (.payload ((getPayloadDense r).run exec db.st).1, db)
  | .vectorCount, db => (.count db.vectorCount, db)
  | .reopen, db => (.done true, db.reopen)

def answers : List (Use X Row) → Db V Row → List (Answer X Row)
  | [], _ => []
  | u :: uses, db => (db.use encode decode u).1 :: answers uses (db.use encode decode u).2

end Db

/-! The map -/

/-- The vector and the payload of every id that was written and not deleted since. -/
abbrev Docs (X Row : Type) := Nat → Doc X Row

/-- What tells the caller of a payload call that it succeeded. -/
def PayloadCall.succeeds : PayloadCall Row → Doc X Row → Bool
  | .set _ _, doc => doc.isSome
  | .update _ _, doc => doc.isSome
  | .deleteKeys _ erase, doc => ((doc.bind Prod.snd).bind erase).isSome

namespace Docs

variable (encode : X → V) (decode : V → X)

def ids (docs : Docs X Row) : Set Nat := {r | (docs r).isSome = true}

/-- An upsert replaces the vector, and the payload if it brings one. -/
def written (vector : X) (metadata : Option Row) : Doc X Row → Doc X Row
  | none => some (vector, metadata)
  | some (_, row) => some (vector, metadata.or row)

noncomputable def use : Use X Row → Docs X Row → Answer X Row × Docs X Row
  | .upsert _ r vector metadata _, docs =>
      if kMaxRealId < r then (.invalidArgument, docs)
      else (.done true, Function.update docs r (written vector metadata (docs r)))
  | .delete r, docs =>
      if kMaxRealId < r then (.invalidArgument, docs)
      else (.done true, Function.update docs r none)
  | .payload call, docs =>
      if kMaxRealId < call.r then (.invalidArgument, docs)
      else (.done (call.succeeds (docs call.r)),
        Function.update docs call.r (call.onDoc (docs call.r)))
  | .get r, docs =>
      if kMaxRealId < r then (.invalidArgument, docs)
      else (.vector ((docs r).map fun doc => decode (encode doc.1)), docs)
  | .getPayload r, docs =>
      if kMaxRealId < r then (.invalidArgument, docs)
      else (.payload ((docs r).bind Prod.snd), docs)
  | .vectorCount, docs => (.count docs.ids.ncard, docs)
  | .reopen, docs => (.done true, docs)

noncomputable def answers : List (Use X Row) → Docs X Row → List (Answer X Row)
  | [], _ => []
  | u :: uses, docs =>
      (use encode decode u docs).1 :: answers uses (use encode decode u docs).2

end Docs

/-! Calls on a quiet store -/

section Runs

variable {owner : Nat → Option Nat} {st : State V Row} {r : Nat}

theorem Quiet.isAlive_eq (hquiet : Quiet owner st) (hr : r < 2 ^ 63) :
    ((isAlive r).run exec st).1 = ((sliceOf r owner st).doc r).isSome := by
  obtain ⟨alive, hrun, hiff⟩ := run_isAlive st r
  rw [hrun, Bool.eq_iff_iff, hiff, ← hquiet.alive_iff hr]
  exact Slice.alive_iff_doc

theorem Quiet.run_getDense (hquiet : Quiet owner st) (hr : r < 2 ^ 63) :
    ((getDense r).run exec st).1 =
      ((sliceOf r owner st).doc r).elim .notFound fun doc => .ok doc.1 := by
  obtain ⟨alive, hrun, hiff⟩ := run_isAlive st r
  rw [← hquiet.alive_iff hr] at hiff
  unfold getDense
  rw [Program.run_bind, hrun]
  cases alive with
  | false =>
      have hdead : ¬(sliceOf r owner st).Alive r := fun h => absurd (hiff.mpr h) (by simp)
      rw [Slice.doc_of_dead hdead]
      rfl
  | true =>
      have halive := hiff.mp rfl
      obtain ⟨vector, hvector⟩ := Option.isSome_iff_exists.mp halive.2
      rw [halive.doc vector hvector]
      rw [(hquiet.at_current hr).1] at hvector
      change (st.vectors (st.tables.resolveInternal r)).elim GetResult.ioError GetResult.ok = _
      rw [hvector]
      rfl

theorem Quiet.payload_succeeds (hquiet : Quiet owner st) (call : PayloadCall Row)
    (hr : call.r < 2 ^ 63) :
    ((call.program : Prog V Row Bool).run exec st).1 =
      call.succeeds ((sliceOf call.r owner st).doc call.r) := by
  cases call with
  | set r row =>
      have halive : ((isAlive r).run exec st).1 = ((sliceOf r owner st).doc r).isSome :=
        hquiet.isAlive_eq hr
      change ((isAlive r >>= fun alive => _ : Prog V Row Bool).run exec st).1 = _
      rw [Program.run_bind, halive]
      change _ = ((sliceOf r owner st).doc r).isSome
      cases ((sliceOf r owner st).doc r).isSome <;> rfl
  | update r patch =>
      have halive : ((isAlive r).run exec st).1 = ((sliceOf r owner st).doc r).isSome :=
        hquiet.isAlive_eq hr
      change ((isAlive r >>= fun alive => _ : Prog V Row Bool).run exec st).1 = _
      rw [Program.run_bind, halive]
      change _ = ((sliceOf r owner st).doc r).isSome
      cases ((sliceOf r owner st).doc r).isSome <;> rfl
  | deleteKeys r erase =>
      have hsame : st.rows (st.tables.resolveInternal r) =
          ((sliceOf r owner st).doc r).bind Prod.snd := hquiet.row_eq hr
      change ((deletePayloadKeysDense r erase).run exec st).1 =
        ((((sliceOf r owner st).doc r).bind Prod.snd).bind erase).isSome
      rw [run_deletePayloadKeysDense, hsame]
      cases (((sliceOf r owner st).doc r).bind Prod.snd).bind erase <;> rfl

end Runs

/-! The store represents the map -/

namespace Docs

variable {docs : Docs X Row} {r : Nat}

theorem ids_update_some (docs : Docs X Row) (r : Nat) (doc : X × Option Row) :
    Docs.ids (Function.update docs r (some doc)) = insert r docs.ids := by
  ext x
  rcases eq_or_ne x r with rfl | hne
  · simp [ids]
  · simp [ids, hne]

theorem ids_update_none (docs : Docs X Row) (r : Nat) :
    Docs.ids (Function.update docs r none) = docs.ids \ {r} := by
  ext x
  rcases eq_or_ne x r with rfl | hne
  · simp [ids]
  · simp [ids, hne]

theorem ids_update_same {doc : Doc X Row} (hsame : doc.isSome = (docs r).isSome) :
    Docs.ids (Function.update docs r doc) = docs.ids := by
  ext x
  rcases eq_or_ne x r with rfl | hne
  · simp [ids, hsame]
  · simp [ids, Function.update_of_ne hne]

end Docs

/-- The store has the documents of the map, and counts them. -/
structure Represents (encode : X → V) (db : Db V Row) (docs : Docs X Row) : Prop where
  slices : ∃ owner, Quiet owner db.st ∧ ∀ r < 2 ^ 63,
    (sliceOf r owner db.st).doc r = (docs r).map (Prod.map encode id)
  finite : docs.ids.Finite
  count : db.liveCount = docs.ids.ncard

section Represents

variable {encode : X → V} {decode : V → X} {db : Db V Row} {docs : Docs X Row} {r : Nat}

theorem Represents.isAlive (hrep : Represents encode db docs) (hr : r < 2 ^ 63) :
    db.isAlive r = (docs r).isSome := by
  obtain ⟨owner, hquiet, hdocs⟩ := hrep.slices
  unfold Db.isAlive
  rw [hquiet.isAlive_eq hr, hdocs r hr, Option.isSome_map]

/-- A call for one id that does to its document what the map does. -/
theorem Represents.run (hrep : Represents encode db docs) (hr : r < 2 ^ 63)
    {p : Prog V Row Bool} {doc : Doc X Row} {count : Int}
    (hsafe : ∀ owner, Quiet owner db.st →
      (sliceOf r owner db.st).doc r = (docs r).map (Prod.map encode id) →
      SafeWrite r p (fun _ s => s.Idle r ∧ s.doc r = doc.map (Prod.map encode id))
        (sliceOf r owner db.st))
    (hcount : count = (Docs.ids (Function.update docs r doc)).ncard) :
    Represents encode ⟨(p.run exec db.st).2, count⟩ (Function.update docs r doc) := by
  obtain ⟨owner, hquiet, hdocs⟩ := hrep.slices
  obtain ⟨owner', hquiet', hdoc, hsame⟩ :=
    hquiet.run_slices hr (hsafe owner hquiet (hdocs r hr))
  refine ⟨⟨owner', hquiet', fun x hx => ?_⟩, ?_, hcount⟩
  · rcases eq_or_ne x r with rfl | hne
    · rw [hdoc, Function.update_self]
    · rw [hsame x hx hne, Function.update_of_ne hne]
      exact hdocs x hx
  · apply (hrep.finite.insert r).subset
    intro x hx
    rcases eq_or_ne x r with rfl | hne
    · exact Set.mem_insert _ _
    · refine Set.mem_insert_of_mem _ ?_
      unfold Docs.ids at hx
      rwa [Set.mem_ofPred_eq, Function.update_of_ne hne] at hx

theorem Represents.upsert (hrep : Represents encode db docs) (hr : r < 2 ^ 63)
    (kind : Kind) (vector : X) (metadata : Option Row) (plan : Plan) :
    (db.upsert kind ⟨r, encode vector, metadata, plan⟩).1 = true ∧
      Represents encode (db.upsert kind ⟨r, encode vector, metadata, plan⟩).2
        (Function.update docs r (Docs.written vector metadata (docs r))) := by
  have hsafe : ∀ owner, Quiet owner db.st →
      SafeWrite r (writeDense 2 kind ⟨r, encode vector, metadata, plan⟩)
        (fun ok s => ok = true ∧ s.Idle r) (sliceOf r owner db.st) := fun owner hquiet =>
    @safe_writeDense _ _ ⟨r, encode vector, metadata, plan⟩ _ (hquiet.inv r hr)
      (hquiet.idle r hr) kind
  constructor
  · obtain ⟨owner, hquiet, -⟩ := hrep.slices
    have hok := (hsafe owner hquiet).mono fun _ _ h => And.intro h.2 h.1
    obtain ⟨-, -, htrue, -⟩ := hquiet.run_slices hr hok
    exact htrue
  · apply hrep.run hr
    · intro owner hquiet hdoc
      apply (Safe.and (hsafe owner hquiet) (@doc_writeDense _ _
        ⟨r, encode vector, metadata, plan⟩ _ (hquiet.inv r hr) (hquiet.idle r hr) kind)).mono
      rintro _ s ⟨⟨-, hidle⟩, hwritten⟩
      refine ⟨hidle, hwritten.trans ?_⟩
      change Write.onDoc _ ((sliceOf r owner db.st).doc r) = _
      rw [hdoc]
      cases docs r <;> rfl
    · change (bif db.isAlive r then _ else _) = _
      rw [hrep.isAlive hr, hrep.count]
      cases hfound : docs r with
      | none =>
          have hnew : r ∉ docs.ids := by simp [Docs.ids, hfound]
          change ((docs.ids.ncard : Int) + 1) = _
          rw [Docs.written, Docs.ids_update_some, Set.ncard_insert_of_notMem hnew hrep.finite]
          rfl
      | some doc =>
          rw [Docs.written, Docs.ids_update_same (by rw [hfound]; rfl)]
          rfl

theorem Represents.delete (hrep : Represents encode db docs) (hr : r < 2 ^ 63) :
    (db.delete r).1 = true ∧
      Represents encode (db.delete r).2 (Function.update docs r none) := by
  constructor
  · obtain ⟨owner, hquiet, -⟩ := hrep.slices
    have hok := (safe_deleteDense (hquiet.inv r hr) (hquiet.idle r hr)).mono
      fun _ _ h => And.intro h.2 h.1
    obtain ⟨-, -, htrue, -⟩ := hquiet.run_slices hr hok
    exact htrue
  · apply hrep.run hr
    · intro owner hquiet _
      apply (Safe.and (safe_deleteDense (hquiet.inv r hr) (hquiet.idle r hr))
        (doc_deleteDense (hquiet.inv r hr) (hquiet.idle r hr))).mono
      rintro _ s ⟨⟨-, hidle⟩, hdoc⟩
      exact ⟨hidle, hdoc⟩
    · rw [hrep.isAlive hr, hrep.count]
      cases hfound : docs r with
      | none =>
          rw [Docs.ids_update_same (by rw [hfound])]
          rfl
      | some doc =>
          have hmem : r ∈ docs.ids := by simp [Docs.ids, hfound]
          have hpos := Set.ncard_sdiff_singleton_add_one hmem hrep.finite
          change ((docs.ids.ncard : Int) - 1) = _
          rw [Docs.ids_update_none]
          omega

theorem Represents.payload (hrep : Represents encode db docs) (call : PayloadCall Row)
    (hr : call.r < 2 ^ 63) :
    ((call.program : Prog V Row Bool).run exec db.st).1 = call.succeeds (docs call.r) ∧
      Represents encode ⟨((call.program : Prog V Row Bool).run exec db.st).2, db.liveCount⟩
        (Function.update docs call.r (call.onDoc (docs call.r))) := by
  constructor
  · obtain ⟨owner, hquiet, hdocs⟩ := hrep.slices
    rw [hquiet.payload_succeeds call hr, hdocs _ hr]
    cases call <;> cases docs _ <;> rfl
  · apply hrep.run hr
    · intro owner hquiet hdoc
      apply (Safe.and (safe_payload (hquiet.inv _ hr) (hquiet.idle _ hr) call rfl)
        (doc_payload call (hquiet.inv _ hr) (hquiet.idle _ hr))).mono
      rintro _ s ⟨hidle, hpayload⟩
      refine ⟨hidle, hpayload.trans ?_⟩
      rw [hdoc]
      cases docs call.r <;> rfl
    · rw [hrep.count, Docs.ids_update_same]
      cases docs call.r <;> rfl

theorem Represents.reopen (hrep : Represents encode db docs) :
    Represents encode db.reopen docs := by
  obtain ⟨owner, hquiet, hdocs⟩ := hrep.slices
  refine ⟨⟨owner, hquiet.reopen, fun r hr => ?_⟩, hrep.finite, ?_⟩
  · change (sliceOf r owner db.st.reopen).doc r = _
    rw [hquiet.slice_reopen r]
    exact hdocs r hr
  · unfold Db.reopen
    have hcount := hrep.count
    rw [if_pos (by omega)]
    exact hcount

/-- One use: the same answer, and the store represents the map again. -/
theorem Represents.use (hrep : Represents encode db docs) (u : Use X Row) :
    (db.use encode decode u).1 = (Docs.use encode decode u docs).1 ∧
      Represents encode (db.use encode decode u).2 (Docs.use encode decode u docs).2 := by
  have hlt : ∀ {r : Nat}, ¬kMaxRealId < r → r < 2 ^ 63 :=
    fun h => (le_kMaxRealId_iff _).mp (Nat.not_lt.mp h)
  cases u with
  | upsert kind r vector metadata plan =>
      rcases Nat.lt_or_ge kMaxRealId r with hmax | hle
      · rw [Db.use, Docs.use, if_pos hmax, if_pos hmax]
        exact ⟨rfl, hrep⟩
      · have hmax := Nat.not_lt.mpr hle
        rw [Db.use, Docs.use, if_neg hmax, if_neg hmax]
        obtain ⟨hok, hafter⟩ := hrep.upsert (hlt hmax) kind vector metadata plan
        exact ⟨congrArg Answer.done hok, hafter⟩
  | delete r =>
      rcases Nat.lt_or_ge kMaxRealId r with hmax | hle
      · rw [Db.use, Docs.use, if_pos hmax, if_pos hmax]
        exact ⟨rfl, hrep⟩
      · have hmax := Nat.not_lt.mpr hle
        rw [Db.use, Docs.use, if_neg hmax, if_neg hmax]
        obtain ⟨hok, hafter⟩ := hrep.delete (hlt hmax)
        exact ⟨congrArg Answer.done hok, hafter⟩
  | payload call =>
      rcases Nat.lt_or_ge kMaxRealId call.r with hmax | hle
      · rw [Db.use, Docs.use, if_pos hmax, if_pos hmax]
        exact ⟨rfl, hrep⟩
      · have hmax := Nat.not_lt.mpr hle
        rw [Db.use, Docs.use, if_neg hmax, if_neg hmax]
        obtain ⟨hok, hafter⟩ := hrep.payload call (hlt hmax)
        exact ⟨congrArg Answer.done hok, hafter⟩
  | get r =>
      rcases Nat.lt_or_ge kMaxRealId r with hmax | hle
      · rw [Db.use, Docs.use, if_pos hmax, if_pos hmax]
        exact ⟨rfl, hrep⟩
      · have hmax := Nat.not_lt.mpr hle
        rw [Db.use, Docs.use, if_neg hmax, if_neg hmax]
        obtain ⟨owner, hquiet, hdocs⟩ := hrep.slices
        rw [hquiet.run_getDense (hlt hmax), hdocs r (hlt hmax)]
        cases docs r <;> exact ⟨rfl, hrep⟩
  | getPayload r =>
      rcases Nat.lt_or_ge kMaxRealId r with hmax | hle
      · rw [Db.use, Docs.use, if_pos hmax, if_pos hmax]
        exact ⟨rfl, hrep⟩
      · have hmax := Nat.not_lt.mpr hle
        rw [Db.use, Docs.use, if_neg hmax, if_neg hmax]
        obtain ⟨owner, hquiet, hdocs⟩ := hrep.slices
        have hrow := hquiet.row_eq (hlt hmax)
        rw [hdocs r (hlt hmax)] at hrow
        refine ⟨congrArg Answer.payload (hrow.trans ?_), hrep⟩
        cases docs r <;> rfl
  | vectorCount =>
      refine ⟨congrArg Answer.count ?_, hrep⟩
      have hcount := hrep.count
      unfold Db.vectorCount
      split <;> omega
  | reopen => exact ⟨rfl, hrep.reopen⟩

end Represents

theorem represents_empty (encode : X → V) :
    Represents encode (Db.empty V Row) (fun _ => none) := by
  have hids : Docs.ids (fun _ => none : Docs X Row) = ∅ := by
    ext r
    simp [Docs.ids]
  refine ⟨⟨_, quiet_empty, fun r _ => ?_⟩, ?_, ?_⟩
  · apply Slice.doc_of_dead
    rintro ⟨-, hvector⟩
    have hnone : (sliceOf r (fun _ => none) (Db.empty V Row).st).vectors
        ((sliceOf r (fun _ => none) (Db.empty V Row).st).current r) = none := ite_self none
    rw [hnone] at hvector
    cases hvector
  · rw [hids]
    exact Set.finite_empty
  · rw [hids, Set.ncard_empty]
    rfl

/-- Whatever one caller asks of a new store, the answers are those of the map. -/
theorem Db.answers_eq (encode : X → V) (decode : V → X) (uses : List (Use X Row)) :
    (Db.empty V Row).answers encode decode uses =
      Docs.answers encode decode uses fun _ => none := by
  have hall : ∀ (uses : List (Use X Row)) (db : Db V Row) (docs : Docs X Row),
      Represents encode db docs →
        db.answers encode decode uses = Docs.answers encode decode uses docs := by
    intro uses
    induction uses with
    | nil => exact fun _ _ _ => rfl
    | cons u uses ih =>
        intro db docs hrep
        obtain ⟨hanswer, hafter⟩ := hrep.use u
        exact congrArg₂ List.cons hanswer (ih _ _ hafter)
  exact hall uses _ _ (represents_empty encode)

end AsterVec.Dense

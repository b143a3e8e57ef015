import AsterVec.LoggedSlices

/-!
The replay of a record over the slice of its id.  Killed at any moment, it leaves what it
takes to start again.
-/

namespace AsterVec.Dense

open AsterVec.IdTypes
open AsterVec.OpLog (OpType)
open AsterVec.Programs
open Prog

variable {V Row α : Type}

/-- The slice of an id, and its part of the count of live ids. -/
structure Tallied (V Row : Type) where
  slice : Slice V Row
  tally : Int

namespace Tallied

/-- The replay takes no update ids. -/
def Allowed (r : Nat) : LoggedCall V Row → Tallied V Row → Prop
  | .store c, x => c ≠ .allocateUpdateId ∧ Slice.Allowed r c x.slice
  | .count _, _ => True
  | .append _, _ | .observe _, _ => False

def Step (r : Nat) :
    (c : LoggedCall V Row) → Tallied V Row → LoggedReply c → Tallied V Row → Prop
  | .store c, x, reply, x' => ∃ s, Slice.Step r c x.slice reply s ∧ x' = { x with slice := s }
  | .count change, x, _, x' => x' = { x with tally := x.tally + change }
  | .append _, _, _, _ | .observe _, _, _, _ => False

def handler (V Row : Type) (r : Nat) :
    Handler (LoggedCall V Row) LoggedReply (Tallied V Row) :=
  ⟨Allowed r, Step r⟩

end Tallied

/-- The replay of the records of an id has come to `rest`. -/
structure ReplayedTo (r : Nat) (saved : Slice V Row) (done rest : List (LogRecord V Row))
    (x : Tallied V Row) (doc : Doc V Row) : Prop where
  inv : x.slice.Inv r
  tidy : saved.Tidy r
  versions : x.slice.bare = replayed saved done
  legal : Legal r saved (done ++ rest)
  owned : ∀ record ∈ rest, record.Inserts → x.slice.owned record.internalId = true
  recoverable : Recoverable r saved (done ++ rest) x.slice.rows doc
  committed : rest = [] → Committed r saved (done ++ rest) x.slice.rows doc
  live : ∀ i, (x.slice.rows i).isSome = true → x.slice.tombstoned i = false
  tally : x.tally = countOf (x.slice.doc r)

/-- A part of the replay, which can be killed while the rows are as `Stops` says. -/
abbrev SafeReplay (r : Nat) (Stops : (Nat → Option Row) → Prop) (p : LoggedProg V Row α)
    (Post : α → Tallied V Row → Prop) (x : Tallied V Row) : Prop :=
  Safe (Tallied.handler V Row r) (fun x => Stops x.slice.rows) p Post x

section Rules

variable {r i : Nat} {s t : Slice V Row} {tally change : Int}
  {Stops : (Nat → Option Row) → Prop}

theorem safe_versions (Stops : (Nat → Option Row) → Prop) {p : Prog V Row α}
    {Post : α → Slice V Row → Prop} (hplain : p.All IsPlain) (hsafe : SafeWrite r p Post s)
    (hinv : s.Inv r) (hstops : Stops s.rows) :
    SafeReplay r Stops (LoggedProg.ofProg p) (fun value x => ∃ s', x = ⟨s', tally⟩ ∧
      Post value s' ∧ s'.Inv r ∧ s'.rows = s.rows) ⟨s, tally⟩ := by
  induction p generalizing s with
  | done value => exact ⟨s, rfl, hsafe, hinv, rfl⟩
  | call c next ih =>
      obtain ⟨hone, hplain⟩ := hplain
      obtain ⟨-, hallowed, hnext⟩ := hsafe
      have hold : c ≠ .allocateUpdateId := by
        rintro rfl
        exact hone
      refine ⟨hstops, ⟨hold, hallowed⟩, ?_⟩
      rintro reply _ ⟨s', hstep, rfl⟩
      have hrows := hstep.rows hone
      refine (ih reply (hplain reply) (hnext reply s' hstep) (hinv.step hallowed hstep)
        (hrows ▸ hstops)).mono ?_
      rintro value x ⟨s'', hx, hpost, hinv', hsame⟩
      exact ⟨s'', hx, hpost, hinv', hsame.trans hrows⟩

theorem safe_isAlive_replay {follow : Bool → LoggedProg V Row α}
    {Post : α → Tallied V Row → Prop} (hinv : s.Inv r) (hstops : Stops s.rows)
    (hnext : ∀ wasAlive, (wasAlive = true ↔ s.Alive r) →
      SafeReplay r Stops (follow wasAlive) Post ⟨s, tally⟩) :
    SafeReplay r Stops (LoggedProg.ofProg (isAlive r) >>= follow) Post ⟨s, tally⟩ := by
  apply Safe.bind
  refine (safe_versions Stops (plain_isAlive r) (safe_isAlive hinv) hinv hstops).mono ?_
  rintro wasAlive _ ⟨_, rfl, ⟨rfl, halive⟩, -, -⟩
  exact hnext wasAlive halive

/-- The count goes up for an id that was dead. -/
theorem safe_countAlive (Stops : (Nat → Option Row) → Prop) {wasAlive : Bool}
    (halive : wasAlive = true ↔ s.Alive r)
    {follow : Unit → LoggedProg V Row α} {Post : α → Tallied V Row → Prop}
    (hstops : Stops t.rows) (hnext : SafeReplay r Stops (follow ()) Post ⟨t, 1⟩) :
    SafeReplay r Stops ((bif wasAlive then pure () else LoggedProg.addLiveCount 1) >>= follow)
      Post ⟨t, countOf (s.doc r)⟩ := by
  cases wasAlive with
  | true =>
      rw [Slice.countOf_of_alive (halive.mp rfl)]
      exact hnext
  | false =>
      rw [Slice.countOf_of_dead fun h => absurd (halive.mpr h) (by simp)]
      refine ⟨hstops, trivial, ?_⟩
      rintro _ _ rfl
      exact hnext

/-- The count goes down for an id that was alive. -/
theorem safe_countDead (Stops : (Nat → Option Row) → Prop) {wasAlive : Bool}
    (halive : wasAlive = true ↔ s.Alive r)
    {Post : Unit → Tallied V Row → Prop} (hstops : Stops t.rows) (hpost : Post () ⟨t, 0⟩) :
    SafeReplay r Stops (bif wasAlive then LoggedProg.addLiveCount (-1) else pure ()) Post
      ⟨t, countOf (s.doc r)⟩ := by
  cases wasAlive with
  | true =>
      rw [Slice.countOf_of_alive (halive.mp rfl)]
      refine ⟨hstops, trivial, ?_⟩
      rintro _ _ rfl
      exact hpost
  | false =>
      rw [Slice.countOf_of_dead fun h => absurd (halive.mpr h) (by simp)]
      exact hpost

theorem safe_fillRow_replay {p : Prog V Row Unit} {Post : Unit → Tallied V Row → Prop}
    (howned : s.owned i = true) (hstops : Stops s.rows)
    (hfound : ∀ row, s.rows i = some row → Post () ⟨s, tally⟩)
    (hnone : s.rows i = none → SafeReplay r Stops (LoggedProg.ofProg p) Post ⟨s, tally⟩) :
    SafeReplay r Stops (LoggedProg.ofProg (fillRow i p)) Post ⟨s, tally⟩ := by
  refine ⟨hstops, ⟨nofun, howned⟩, ?_⟩
  rintro found _ ⟨_, ⟨hreply, rfl⟩, rfl⟩
  cases hrow : (found : Option Row) with
  | some row => exact hfound row (hreply.symm.trans hrow)
  | none => exact hnone (hreply.symm.trans hrow)

theorem safe_putMetadata_replay (howned : s.owned i = true) (hstops : Stops s.rows)
    (metadata : Option Row) :
    SafeReplay r Stops (LoggedProg.ofProg (putMetadata i metadata))
      (fun _ x => x = ⟨s.putMetadata i metadata, tally⟩) ⟨s, tally⟩ := by
  cases metadata with
  | none => exact rfl
  | some row =>
      refine ⟨hstops, ⟨nofun, howned⟩, ?_⟩
      rintro _ _ ⟨_, rfl, rfl⟩
      rfl

theorem safe_migrateMetadata_replay {n : Nat} (hold : s.owned i = true)
    (hnew : s.owned n = true) (hstops : Stops s.rows) (metadata : Option Row) :
    SafeReplay r Stops (LoggedProg.ofProg (migrateMetadata i n metadata))
      (fun _ x => x = ⟨s.putMetadata n (metadata.or (s.rows i)), tally⟩) ⟨s, tally⟩ := by
  cases metadata with
  | some row => exact safe_putMetadata_replay hnew hstops (some row)
  | none =>
      refine ⟨hstops, ⟨nofun, hold⟩, ?_⟩
      rintro _ _ ⟨_, ⟨rfl, rfl⟩, rfl⟩
      exact safe_putMetadata_replay hnew hstops _

end Rules

section Replay

variable {r : Nat} {saved s t : Slice V Row} {tally : Int}
  {done rest : List (LogRecord V Row)} {record : LogRecord V Row} {doc : Doc V Row}

/-- The record is replayed. -/
theorem ReplayedTo.next {n : Int}
    (hreplaying : ReplayedTo r saved done (record :: rest) ⟨s, tally⟩ doc)
    (htally : countOf (t.doc r) = n) (hinv : t.Inv r) (howned : t.owned = s.owned)
    (hversions : t.bare = record.onSlice s.bare)
    (hredone : Redone r saved done record rest t.rows doc)
    (hlive : ∀ i, (t.rows i).isSome = true → t.tombstoned i = false) :
    ReplayedTo r saved (done ++ [record]) rest ⟨t, n⟩ doc := by
  have hrecords : done ++ [record] ++ rest = done ++ record :: rest := by
    rw [List.append_assoc, List.singleton_append]
  obtain ⟨-, htidy, hversions₀, hlegal, howned₀, -, -, -, -⟩ := hreplaying
  refine ⟨hinv, htidy, ?_, hrecords ▸ hlegal, fun later hlater hinserts => ?_,
    hrecords ▸ hredone.1, hrecords ▸ hredone.2, hlive, htally.symm⟩
  · rw [replayed_snoc, ← hversions₀]
    exact hversions
  · change t.owned later.internalId = true
    rw [howned]
    exact howned₀ later (List.mem_cons_of_mem _ hlater) hinserts

theorem ReplayedTo.fits (hreplaying : ReplayedTo r saved done (record :: rest) ⟨s, tally⟩ doc) :
    record.Fits r s.bare := by
  rw [show s.bare = replayed saved done from hreplaying.versions]
  exact (legal_append.mp hreplaying.legal).2.1

/-- The replay fills in the row of the record where there is none. -/
theorem ReplayedTo.fill {n : Int}
    (hreplaying : ReplayedTo r saved done (record :: rest) ⟨s, tally⟩ doc)
    (hinserts : record.Inserts) {p : Prog V Row Unit} (hinv : t.Inv r)
    (hsame : t.owned = s.owned) (hrows : t.rows = s.rows)
    (hfill : SafeReplay r (fun rows => Recoverable r saved (done ++ record :: rest) rows doc)
      (LoggedProg.ofProg p)
      (fun _ x => x = ⟨t.putMetadata record.internalId (record.fill t.rows), n⟩) ⟨t, n⟩) :
    SafeReplay r (fun rows => Recoverable r saved (done ++ record :: rest) rows doc)
      (LoggedProg.ofProg (fillRow record.internalId p))
      (fun _ x => ∃ rows, x = ⟨{ t with rows := rows }, n⟩ ∧
        Slice.Inv r { t with rows := rows } ∧ Redone r saved done record rest rows doc ∧
        ∀ i, i ≠ record.internalId → rows i = s.rows i) ⟨t, n⟩ := by
  have hmissing := hreplaying.recoverable.missing
  have howned : t.owned record.internalId = true :=
    hsame ▸ hreplaying.owned record List.mem_cons_self hinserts
  have hstops : Recoverable r saved (done ++ record :: rest) t.rows doc :=
    hrows ▸ hreplaying.recoverable
  refine safe_fillRow_replay howned hstops (fun row hrow => ?_) fun hrow => ?_
  · refine ⟨t.rows, rfl, hinv, ?_, fun i _ => by rw [hrows]⟩
    rw [hrows]
    exact hmissing.keep hreplaying.legal hinserts (by rw [← hrows, hrow]; rfl)
  · refine Safe.mono hfill ?_
    rintro _ _ rfl
    have hput := Slice.putMetadata_rows_eq t (record.fill t.rows) hrow
    have hsame : t.putMetadata record.internalId (record.fill t.rows) =
        { t with rows := (t.putMetadata record.internalId (record.fill t.rows)).rows } := by
      cases record.fill t.rows <;> rfl
    refine ⟨_, congrArg (Tallied.mk · n) hsame, hsame ▸ hinv.putMetadata howned _, ?_,
      fun i hne => ?_⟩
    · rw [hput, hrows]
      exact hmissing.fill hreplaying.legal hinserts (hrows ▸ hrow)
    · rw [hput, Function.update_of_ne hne, hrows]

/-- An insert whose node is made by `p`. -/
theorem ReplayedTo.insertBy
    (hreplaying : ReplayedTo r saved done (record :: rest) ⟨s, tally⟩ doc)
    (hop : record.op = .kInsert) (hreal : record.realId = r) {vector : V} {plan : Plan}
    (hplain : (bif isDirectId record.internalId then pure ()
      else recordUpdateMapping record.realId record.internalId :
      Prog V Row Unit).All IsPlain)
    (hsafe : SafeWrite r (do
      bif isDirectId record.internalId then pure ()
      else recordUpdateMapping record.realId record.internalId
      insertNode record.internalId vector plan) (fun _ s' => s' = t) s)
    (howned : t.owned = s.owned) (htomb : t.tombstoned = s.tombstoned)
    (hversions : t.bare = record.onSlice s.bare) :
    SafeReplay r (fun rows => Recoverable r saved (done ++ record :: rest) rows doc)
      (LoggedProg.replayInsert record vector plan)
      (fun _ x => ReplayedTo r saved (done ++ [record]) rest x doc) ⟨s, tally⟩ := by
  have hinserts : record.Inserts := .inl hop
  have hnew := hreplaying.fits.inserted hinserts
  have halive : t.Alive r := by
    have halive := hnew.alive
    rw [← hversions] at halive
    exact halive
  have hcounted : tally = countOf (s.doc r) := hreplaying.tally
  subst hcounted
  subst hreal
  refine safe_isAlive_replay hreplaying.inv hreplaying.recoverable fun wasAlive hwas => ?_
  apply Safe.bind
  refine (safe_versions (fun rows => Recoverable record.realId saved _ rows doc)
    (hplain.bind fun _ => plain_insertNode _ _ _) hsafe hreplaying.inv
    hreplaying.recoverable).mono ?_
  rintro _ _ ⟨u, rfl, rfl, hinv, hrows⟩
  refine safe_countAlive (fun rows => Recoverable record.realId saved _ rows doc) hwas
    (hrows ▸ hreplaying.recoverable) ?_
  have hfill : record.fill u.rows = record.payload := by
    unfold LogRecord.fill
    rw [if_neg (by rw [hop]; rintro ⟨⟩), Option.or_none]
  refine (hreplaying.fill hinserts hinv howned hrows ?_).mono ?_
  · rw [hfill]
    exact safe_putMetadata_replay
      (howned ▸ hreplaying.owned record List.mem_cons_self hinserts)
      (hrows ▸ hreplaying.recoverable) record.payload
  · rintro _ _ ⟨rows, rfl, hinv', hredone, hothers⟩
    refine hreplaying.next (Slice.countOf_of_alive halive) hinv' howned hversions hredone
      fun i hi => ?_
    change u.tombstoned i = false
    rw [htomb]
    rcases eq_or_ne i record.internalId with rfl | hne
    · exact hnew.live
    · exact hreplaying.live i (hothers i hne ▸ hi)

theorem ReplayedTo.insert
    (hreplaying : ReplayedTo r saved done (record :: rest) ⟨s, tally⟩ doc) (hr : r < 2 ^ 63)
    (hop : record.op = .kInsert) {vector : V} (hvector : record.vector = some vector)
    (plan : Plan) :
    SafeReplay r (fun rows => Recoverable r saved (done ++ record :: rest) rows doc)
      (LoggedProg.replayInsert record vector plan)
      (fun _ x => ReplayedTo r saved (done ++ [record]) rest x doc) ⟨s, tally⟩ := by
  have hinv := hreplaying.inv
  have howned := hreplaying.owned record List.mem_cons_self (.inl hop)
  cases hreplaying.fits with
  | insert _ payload _ hmap hlive hnone =>
      cases hvector
      have hdirect : isDirectId r = true := (isDirectId_iff r).mpr hr
      refine hreplaying.insertBy hop rfl (t := s.store r vector) ?_ ?_ rfl rfl ?_
      · simp only [hdirect, cond_true]
        exact trivial
      · simp only [hdirect, cond_true]
        exact safe_insertNode ⟨hinv.owned_self, hnone, hlive⟩ plan
      · rw [LogRecord.onSlice_insert hr]
        rfl
  | reinsert n _ payload hmap htomb hnew =>
      cases hvector
      have hupdate : isDirectId n = false := (isDirectId_eq_false_iff n).mpr hnew.update
      have hne : n ≠ r := fun h => absurd (h ▸ hnew.update) (Nat.not_le.mpr hr)
      refine hreplaying.insertBy hop rfl (t := (s.record r n).store n vector) ?_ ?_ rfl rfl ?_
      · simp only [hupdate, cond_false]
        exact ⟨trivial, fun _ => trivial⟩
      · simp only [hupdate, cond_false]
        exact safe_reinsertNode hinv hmap htomb howned hne
          ⟨hnew.update, hnew.vector, hnew.live⟩ vector plan
      · rw [LogRecord.onSlice_reinsert hnew.update]
        rfl
  | update => cases hop
  | delete => cases hop

theorem ReplayedTo.update
    (hreplaying : ReplayedTo r saved done (record :: rest) ⟨s, tally⟩ doc) (hr : r < 2 ^ 63)
    (hop : record.op = .kUpdate) {vector : V} (hvector : record.vector = some vector)
    (plan : Plan) :
    SafeReplay r (fun rows => Recoverable r saved (done ++ record :: rest) rows doc)
      (LoggedProg.replayUpdate record vector plan)
      (fun _ x => ReplayedTo r saved (done ++ [record]) rest x doc) ⟨s, tally⟩ := by
  have hinv := hreplaying.inv
  have hinserts : record.Inserts := .inr hop
  have howned := hreplaying.owned record List.mem_cons_self hinserts
  have hinserted := hreplaying.fits.inserted hinserts
  have hcounted : tally = countOf (s.doc r) := hreplaying.tally
  subst hcounted
  cases hreplaying.fits with
  | insert => cases hop
  | delete => cases hop
  | reinsert => cases hop
  | update n _ payload halive hnew =>
      cases hvector
      have hne : n ≠ r := fun h => absurd (h ▸ hnew.update) (Nat.not_le.mpr hr)
      have halive' : s.Alive r := halive
      have hnew' : s.Fresh n := ⟨hnew.update, hnew.vector, hnew.live⟩
      refine safe_isAlive_replay hinv hreplaying.recoverable fun wasAlive hwas => ?_
      apply Safe.bind
      refine (safe_versions (fun rows => Recoverable r saved _ rows doc)
        (plain_replaceNode vector plan _)
        (safe_replaceNode hinv halive' howned hne hnew' vector plan) hinv
        hreplaying.recoverable).mono ?_
      rintro _ _ ⟨_, rfl, rfl, hinv', -⟩
      refine safe_countAlive (fun rows => Recoverable r saved _ rows doc) hwas
        hreplaying.recoverable ?_
      rw [LoggedProg.ofProg_bind]
      apply Safe.bind
      refine (hreplaying.fill hinserts hinv' rfl rfl ?_).mono ?_
      · refine safe_migrateMetadata_replay
          (s := ((s.store n vector).record r n).tombstone (s.current r)) hinv.owned_current
          howned ?_ payload
        exact hreplaying.recoverable
      · rintro _ _ ⟨rows, rfl, hinv'', hredone, hothers⟩
        refine ⟨hredone.1, ⟨nofun, hinv.owned_current⟩, ?_⟩
        rintro _ _ ⟨_, rfl, rfl⟩
        refine hreplaying.next (Slice.countOf_of_alive hinserted.alive)
          (hinv''.setRow hinv.owned_current none) rfl rfl (hredone.move rfl) fun i hi => ?_
        change Function.update s.tombstoned (s.current r) true i = false
        change (Function.update rows (s.current r) none i).isSome = true at hi
        rcases eq_or_ne i (s.current r) with rfl | hold
        · rw [Function.update_self] at hi
          cases hi
        · rw [Function.update_of_ne hold] at hi ⊢
          rcases eq_or_ne i n with rfl | hin
          · exact hnew.live
          · exact hreplaying.live i (hothers i hin ▸ hi)

theorem ReplayedTo.delete
    (hreplaying : ReplayedTo r saved done (record :: rest) ⟨s, tally⟩ doc)
    (hop : record.op = .kDelete) :
    SafeReplay r (fun rows => Recoverable r saved (done ++ record :: rest) rows doc)
      (LoggedProg.replayDelete record)
      (fun _ x => ReplayedTo r saved (done ++ [record]) rest x doc) ⟨s, tally⟩ := by
  have hinv := hreplaying.inv
  have htidy : s.bare.Tidy r := by
    rw [show s.bare = replayed saved done from hreplaying.versions]
    exact (legal_append.mp hreplaying.legal).1.tidy hreplaying.tidy
  obtain ⟨hdead, -⟩ := hreplaying.fits.deleted htidy hop
  have hcounted : tally = countOf (s.doc r) := hreplaying.tally
  subst hcounted
  cases hreplaying.fits with
  | insert => cases hop
  | reinsert => cases hop
  | update => cases hop
  | delete hvector =>
      have hremoved := hreplaying.recoverable.missing.remove hreplaying.legal
        hreplaying.tidy rfl
      have htomb : Slice.Allowed r (.tombstone (s.current r)) s :=
        ⟨hinv.owned_current, hvector, fun hmap => (htidy.mapped _ hmap).2.1⟩
      refine safe_isAlive_replay hinv hreplaying.recoverable fun wasAlive hwas => ?_
      apply Safe.bind
      refine ⟨hreplaying.recoverable, ⟨nofun, htomb⟩, ?_⟩
      rintro _ _ ⟨_, rfl, rfl⟩
      refine ⟨hreplaying.recoverable, ⟨nofun, hinv.owned_current⟩, ?_⟩
      rintro _ _ ⟨_, rfl, rfl⟩
      have hinv' : ((s.tombstone (s.current r)).setRow (s.current r) none).Inv r :=
        (hinv.tombstone hinv.owned_current hvector htomb.2.2).setRow hinv.owned_current none
      have hforget : Slice.Allowed r (.forgetUpdateMapping r)
          ((s.tombstone (s.current r)).setRow (s.current r) none) := by
        refine ⟨rfl, fun m hm => ⟨?_, htidy.tombstoned_direct⟩⟩
        have hcurrent : s.current r = m := by
          unfold Slice.current
          rw [show s.mapping = some m from hm]
          rfl
        rw [← hcurrent]
        exact Function.update_self _ _ _
      refine ⟨hremoved.1, ⟨nofun, hforget⟩, ?_⟩
      rintro _ _ ⟨_, rfl, rfl⟩
      refine safe_countDead (fun rows => Recoverable r saved _ rows doc) hwas hremoved.1 ?_
      refine hreplaying.next (Slice.countOf_of_dead hdead) hinv'.forget rfl rfl hremoved
        fun i hi => ?_
      change Function.update s.tombstoned (s.current r) true i = false
      change (Function.update s.rows (s.current r) none i).isSome = true at hi
      rcases eq_or_ne i (s.current r) with rfl | hold
      · rw [Function.update_self] at hi
        cases hi
      · rw [Function.update_of_ne hold] at hi ⊢
        exact hreplaying.live i hi

/-- All records are replayed. -/
theorem ReplayedTo.ready (hreplaying : ReplayedTo r saved done [] ⟨s, tally⟩ doc) :
    Ready r saved s done doc := by
  obtain ⟨hinv, htidy, hversions, hlegal, -, -, hcommitted, hlive, -⟩ := hreplaying
  dsimp only at hinv hversions hcommitted hlive
  rw [List.append_nil] at hlegal hcommitted
  have htidy' : s.bare.Tidy r := by
    rw [hversions]
    exact hlegal.tidy htidy
  refine ⟨hinv, ⟨fun m hm => (htidy'.mapped m hm).2, htidy'.replaced, fun i hi => ?_⟩, htidy,
    hversions, hlegal, hcommitted rfl⟩
  obtain ⟨had, row, hrowed, -⟩ := hcommitted rfl
  have hstored := hrowed.stored i (hrowed.known i hi)
  rw [← hversions] at hstored
  have hlast := hlive i hi
  have hcurrent : i = s.current r := by
    by_contra hne
    exact absurd ((htidy'.replaced i hne hstored).symm.trans hlast) (by simp)
  subst hcurrent
  exact ⟨rfl, hlast, hstored⟩

end Replay

end AsterVec.Dense

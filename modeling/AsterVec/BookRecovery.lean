import Mathlib.Algebra.Order.BigOperators.Group.Finset
import Mathlib.Data.Finsupp.Basic
import AsterVec.SliceRecovery

/-!
The replay of a whole log over the slices of all ids, with the count of live ids.
-/

namespace AsterVec.Dense

open AsterVec.IdTypes
open AsterVec.OpLog (OpType)
open AsterVec.Programs
open Prog

variable {V Row α : Type}

/-- The documents of the caller ids add up to the count. -/
def Counts (docs : Nat → Doc V Row) (n : Int) : Prop :=
  ∃ tallies : Nat →₀ Int, (∀ r, tallies r = if r < 2 ^ 63 then countOf (docs r) else 0) ∧
    (tallies.sum fun _ tally => tally) = n

/-- The tally of one id changes. -/
theorem sum_update (tallies : Nat →₀ Int) (r : Nat) (tally : Int) :
    ((tallies.update r tally).sum fun _ tally => tally) =
      (tallies.sum fun _ tally => tally) + (tally - tallies r) := by
  have hsum := tallies.sum_update_add r tally (fun _ tally => tally) (fun _ => rfl)
    fun _ _ _ => rfl
  omega

section Counts

variable {docs docs' : Nat → Doc V Row} {n : Int}

theorem Counts.congr (hcounts : Counts docs n)
    (hsame : ∀ r < 2 ^ 63, countOf (docs' r) = countOf (docs r)) : Counts docs' n := by
  obtain ⟨tallies, htallies, hsum⟩ := hcounts
  refine ⟨tallies, fun r => (htallies r).trans ?_, hsum⟩
  split
  · rename_i hr
    exact (hsame r hr).symm
  · rfl

theorem Counts.nonneg (hcounts : Counts docs n) : 0 ≤ n := by
  obtain ⟨tallies, htallies, rfl⟩ := hcounts
  refine Finset.sum_nonneg fun r _ => ?_
  change 0 ≤ tallies r
  rw [htallies r]
  split
  · exact countOf_nonneg _
  · exact Int.le_refl 0

/-- The document of one id changes. -/
theorem Counts.update (hcounts : Counts docs n) {r : Nat} (hr : r < 2 ^ 63)
    (hsame : ∀ x < 2 ^ 63, x ≠ r → docs' x = docs x) :
    Counts docs' (n + (countOf (docs' r) - countOf (docs r))) := by
  obtain ⟨tallies, htallies, hsum⟩ := hcounts
  have hold : tallies r = countOf (docs r) := by rw [htallies r, if_pos hr]
  refine ⟨tallies.update r (countOf (docs' r)), fun x => ?_, ?_⟩
  · rw [Finsupp.coe_update]
    rcases eq_or_ne x r with rfl | hne
    · rw [Function.update_self, if_pos hr]
    · rw [Function.update_of_ne hne, htallies x]
      split
      · rename_i hx
        rw [hsame x hx hne]
      · rfl
  · rw [sum_update, hsum, hold]

end Counts

theorem Slice.countOf_bare (s : Slice V Row) (r : Nat) :
    countOf (s.bare.doc r) = countOf (s.doc r) := by
  by_cases halive : s.Alive r
  · exact (Slice.countOf_of_alive (s := s.bare) halive).trans
      (Slice.countOf_of_alive halive).symm
  · exact (Slice.countOf_of_dead (s := s.bare) halive).trans (Slice.countOf_of_dead halive).symm

/-- The slices of all ids, the counter of the update ids, and the count of live ids. -/
structure Book (V Row : Type) where
  slices : Nat → Slice V Row
  next : Nat
  count : Int

namespace Book

/-- The replay takes no update ids; it keeps to the slice of one id at a time. -/
def Allowed : LoggedCall V Row → Book V Row → Prop
  | .store c, b => c ≠ .allocateUpdateId ∧ ∃ r < 2 ^ 63, Slice.Allowed r c (b.slices r)
  | .append _, _ => False
  | .observe _, _ | .count _, _ => True

def Step : (c : LoggedCall V Row) → Book V Row → LoggedReply c → Book V Row → Prop
  | .store c, b, reply, b' =>
      b'.next = b.next ∧ b'.count = b.count ∧ ∀ r < 2 ^ 63, Slice.Allowed r c (b.slices r) →
        Slice.Step r c (b.slices r) reply (b'.slices r) ∧
          ∀ x < 2 ^ 63, x ≠ r → b'.slices x = b.slices x
  | .append _, _, _, _ => False
  | .observe i, b, _, b' => b' = { b with next := max b.next (i + 1) }
  | .count change, b, _, b' => b' = { b with count := b.count + change }

def handler (V Row : Type) : Handler (LoggedCall V Row) LoggedReply (Book V Row) :=
  ⟨Allowed, Step⟩

end Book

/-- The records of one id. -/
def recordsOf (log : List (LogRecord V Row)) (r : Nat) : List (LogRecord V Row) :=
  log.filter fun record => record.realId = r

theorem recordsOf_append (log later : List (LogRecord V Row)) (r : Nat) :
    recordsOf (log ++ later) r = recordsOf log r ++ recordsOf later r :=
  List.filter_append ..

theorem recordsOf_cons_self (record : LogRecord V Row) (log : List (LogRecord V Row)) :
    recordsOf (record :: log) record.realId = record :: recordsOf log record.realId :=
  List.filter_cons_of_pos (decide_eq_true rfl)

theorem recordsOf_cons_other {record : LogRecord V Row} {r : Nat} (hne : r ≠ record.realId)
    (log : List (LogRecord V Row)) : recordsOf (record :: log) r = recordsOf log r :=
  List.filter_cons_of_neg (by simpa using hne.symm)

section Replay

variable {saved : Nat → Slice V Row} {docs : Nat → Doc V Row}
  {log done rest : List (LogRecord V Row)} {b : Book V Row}

/-- What has to be at any moment the replay can be killed. -/
def Book.Stops (saved : Nat → Slice V Row) (log : List (LogRecord V Row))
    (docs : Nat → Doc V Row) (b : Book V Row) : Prop :=
  ∀ r < 2 ^ 63, Recoverable r (saved r) (recordsOf log r) (b.slices r).rows (docs r)

abbrev SafeBook (saved : Nat → Slice V Row) (log : List (LogRecord V Row))
    (docs : Nat → Doc V Row) (p : LoggedProg V Row α) (Post : α → Book V Row → Prop)
    (b : Book V Row) : Prop :=
  Safe (Book.handler V Row) (Book.Stops saved log docs) p Post b

/-- The replay of the log has come to `rest`, and the update ids before are observed. -/
structure Book.At (saved : Nat → Slice V Row) (docs : Nat → Doc V Row)
    (done rest : List (LogRecord V Row)) (first : Nat) (b : Book V Row) : Prop where
  slices : ∀ r < 2 ^ 63, ReplayedTo r (saved r) (recordsOf done r) (recordsOf rest r)
    ⟨b.slices r, countOf ((b.slices r).doc r)⟩ (docs r)
  counted : Counts (fun r => (b.slices r).doc r) b.count
  observed : ∀ record ∈ done, record.Inserts → 2 ^ 63 ≤ record.internalId →
    record.internalId < b.next
  first : first ≤ b.next

theorem Book.At.stops {first : Nat} (hat : b.At saved docs done rest first) :
    b.Stops saved (done ++ rest) docs := by
  intro r hr
  rw [recordsOf_append]
  exact (hat.slices r hr).recoverable

/-- A part of the replay that keeps to the slice of one id. -/
theorem safe_book {r : Nat} (hr : r < 2 ^ 63) {p : LoggedProg V Row α}
    {Post : α → Tallied V Row → Prop} {tally : Int}
    (hothers : ∀ x < 2 ^ 63, x ≠ r →
      Recoverable x (saved x) (recordsOf log x) (b.slices x).rows (docs x))
    (hsafe : SafeReplay r
      (fun rows => Recoverable r (saved r) (recordsOf log r) rows (docs r)) p Post
      ⟨b.slices r, tally⟩) :
    SafeBook saved log docs p (fun value b' =>
      Post value ⟨b'.slices r, tally + (b'.count - b.count)⟩ ∧
      b'.next = b.next ∧ ∀ x < 2 ^ 63, x ≠ r → b'.slices x = b.slices x) b := by
  induction p generalizing b tally with
  | done value =>
      refine ⟨?_, rfl, fun _ _ _ => rfl⟩
      rw [sub_self, add_zero]
      exact hsafe
  | call c next ih =>
      obtain ⟨hown, hallowed, hnext⟩ := hsafe
      have hstops : b.Stops saved log docs := by
        intro x hx
        rcases eq_or_ne x r with rfl | hne
        · exact hown
        · exact hothers x hx hne
      cases c with
      | store c =>
          obtain ⟨hold, hallowed⟩ := hallowed
          refine ⟨hstops, ⟨hold, r, hr, hallowed⟩, ?_⟩
          rintro reply b' ⟨hkept, hcount, hsteps⟩
          obtain ⟨hstep, hsame⟩ := hsteps r hr hallowed
          refine (ih reply (fun x hx hne => ?_) (hnext reply _ ⟨_, hstep, rfl⟩)).mono ?_
          · rw [hsame x hx hne]
            exact hothers x hx hne
          · rintro value b'' ⟨hpost, hkept', hsame'⟩
            rw [hcount] at hpost
            exact ⟨hpost, hkept'.trans hkept,
              fun x hx hne => (hsame' x hx hne).trans (hsame x hx hne)⟩
      | count change =>
          refine ⟨hstops, trivial, ?_⟩
          rintro reply _ rfl
          refine (ih (b := { b with count := b.count + change }) reply hothers
            (hnext reply _ rfl)).mono ?_
          rintro value b'' ⟨hpost, hrest⟩
          have htally : tally + change + (b''.count - (b.count + change)) =
              tally + (b''.count - b.count) := by omega
          rw [htally] at hpost
          exact ⟨hpost, hrest⟩
      | append | observe => exact hallowed.elim

theorem safe_observe {i : Nat} {follow : Unit → LoggedProg V Row α}
    {Post : α → Book V Row → Prop} (hstops : b.Stops saved log docs)
    (hnext : ∀ next, b.next ≤ next → (2 ^ 63 ≤ i → i < next) →
      SafeBook saved log docs (follow ()) Post { b with next := next }) :
    SafeBook saved log docs (LoggedProg.observeUpdateId i >>= follow) Post b := by
  unfold LoggedProg.observeUpdateId
  cases hdirect : isDirectId i with
  | true =>
      have hlt := (isDirectId_iff i).mp hdirect
      exact hnext b.next (Nat.le_refl _) fun hupdate => absurd hlt (Nat.not_lt.mpr hupdate)
  | false =>
      refine ⟨hstops, trivial, ?_⟩
      rintro _ _ rfl
      exact hnext _ (Nat.le_max_left ..) fun _ => Nat.lt_of_lt_of_le (Nat.lt_succ_self i)
        (Nat.le_max_right ..)

/-- The record is replayed. -/
theorem Book.At.next {record : LogRecord V Row} {first : Nat} {b' : Book V Row}
    (hat : b.At saved docs done (record :: rest) first) (hr : record.realId < 2 ^ 63)
    (hreplayed : ReplayedTo record.realId (saved record.realId)
      (recordsOf done record.realId ++ [record]) (recordsOf rest record.realId)
      ⟨b'.slices record.realId,
        countOf ((b.slices record.realId).doc record.realId) + (b'.count - b.count)⟩
      (docs record.realId))
    (hothers : ∀ x < 2 ^ 63, x ≠ record.realId → b'.slices x = b.slices x)
    (hnext : b.next ≤ b'.next)
    (hobserved : record.Inserts → 2 ^ 63 ≤ record.internalId → record.internalId < b'.next) :
    b'.At saved docs (done ++ [record]) rest first := by
  have htally : countOf ((b.slices record.realId).doc record.realId) + (b'.count - b.count) =
      countOf ((b'.slices record.realId).doc record.realId) := hreplayed.tally
  refine ⟨fun r hr => ?_, ?_, fun other hother hinserts hupdate => ?_, hat.first.trans hnext⟩
  · rw [recordsOf_append]
    rcases eq_or_ne r record.realId with rfl | hne
    · rw [recordsOf_cons_self, ← htally]
      exact hreplayed
    · rw [hothers r hr hne, recordsOf_cons_other hne]
      have hslice := hat.slices r hr
      rw [recordsOf_cons_other hne] at hslice
      rwa [show recordsOf [] r = ([] : List (LogRecord V Row)) from rfl, List.append_nil]
  · have hcounted : Counts (fun r => (b'.slices r).doc r) _ :=
      hat.counted.update hr fun x hx hne => congrArg (Slice.doc · x) (hothers x hx hne)
    have hcount : b.count + (countOf ((b'.slices record.realId).doc record.realId) -
        countOf ((b.slices record.realId).doc record.realId)) = b'.count := by
      rw [← htally]
      omega
    rw [hcount] at hcounted
    exact hcounted
  · rcases List.mem_append.mp hother with hold | hlast
    · exact (hat.observed other hold hinserts hupdate).trans_le hnext
    · obtain rfl := List.mem_singleton.mp hlast
      exact hobserved hinserts hupdate

theorem Book.At.current {record : LogRecord V Row} {first : Nat}
    (hat : b.At saved docs done (record :: rest) first) (hr : record.realId < 2 ^ 63) :
    ReplayedTo record.realId (saved record.realId) (recordsOf done record.realId)
      (record :: recordsOf rest record.realId)
      ⟨b.slices record.realId, countOf ((b.slices record.realId).doc record.realId)⟩
      (docs record.realId) := by
  have hslice := hat.slices record.realId hr
  rwa [recordsOf_cons_self] at hslice

/-- What replays a record over the slice of its id. -/
theorem Book.At.replay {record : LogRecord V Row} {first next : Nat}
    (hat : b.At saved docs done (record :: rest) first) (hr : record.realId < 2 ^ 63)
    (hnext : b.next ≤ next)
    (hobserved : record.Inserts → 2 ^ 63 ≤ record.internalId → record.internalId < next)
    {p : LoggedProg V Row Unit}
    (hsafe : SafeReplay record.realId (fun rows => Recoverable record.realId
      (saved record.realId) (recordsOf done record.realId ++
        record :: recordsOf rest record.realId) rows (docs record.realId)) p
      (fun _ x => ReplayedTo record.realId (saved record.realId)
        (recordsOf done record.realId ++ [record]) (recordsOf rest record.realId) x
        (docs record.realId))
      ⟨b.slices record.realId, countOf ((b.slices record.realId).doc record.realId)⟩) :
    SafeBook saved (done ++ record :: rest) docs (p >>= fun _ => pure true)
      (fun ok b' => ok = true ∧ b'.At saved docs (done ++ [record]) rest first)
      { b with next := next } := by
  have hstops := hat.stops
  rw [← recordsOf_cons_self, ← recordsOf_append] at hsafe
  apply Safe.bind
  refine (safe_book (b := { b with next := next }) hr (fun x hx _ => hstops x hx) hsafe).mono ?_
  rintro _ b' ⟨hreplayed, hkept, hothers⟩
  have hcounted : next = b'.next := hkept.symm
  exact ⟨rfl, hat.next hr hreplayed hothers (hcounted ▸ hnext) (hcounted ▸ hobserved)⟩

theorem safe_replayRecord {entry : LogEntry V Row} {first : Nat}
    (hat : b.At saved docs done (entry.record :: rest) first)
    (hr : entry.record.realId < 2 ^ 63) (haborted : entry.aborted = false) (plan : Plan) :
    SafeBook saved (done ++ entry.record :: rest) docs (entry.replayRecord plan)
      (fun ok b' => ok = true ∧ b'.At saved docs (done ++ [entry.record]) rest first) b := by
  have hstops := hat.stops
  have hcurrent := hat.current hr
  unfold LogEntry.replayRecord
  cases hop : entry.record.op with
  | kInsert =>
      obtain ⟨vector, hvector⟩ := hcurrent.fits.vector (.inl hop)
      refine safe_observe hstops fun next hnext hobserved => ?_
      rw [haborted, hvector]
      exact hat.replay hr hnext (fun _ => hobserved) (hcurrent.insert hr hop hvector plan)
  | kUpdate =>
      obtain ⟨vector, hvector⟩ := hcurrent.fits.vector (.inr hop)
      refine safe_observe hstops fun next hnext hobserved => ?_
      rw [haborted, hvector]
      exact hat.replay hr hnext (fun _ => hobserved) (hcurrent.update hr hop hvector plan)
  | kDelete =>
      rw [haborted]
      have hnew : entry.record.Inserts → 2 ^ 63 ≤ entry.record.internalId →
          entry.record.internalId < b.next := by
        rintro (hins | hins)
        · rw [hop] at hins
          cases hins
        · rw [hop] at hins
          cases hins
      exact hat.replay hr (Nat.le_refl _) hnew (hcurrent.delete hop)
  | kAbort | other =>
      rcases hcurrent.fits.inserts_or with (hins | hins) | hins <;>
        exact absurd (hop.symm.trans hins) (by simp)

/-- The replay of the whole log. -/
theorem safe_recoverFromOpLog (done : List (LogRecord V Row))
    {items : List (LogEntry V Row × Plan)} {first : Nat}
    (hitems : ∀ item ∈ items, item.1.aborted = false ∧ item.1.record.realId < 2 ^ 63)
    (hat : b.At saved docs done (items.map fun item => item.1.record) first)
    (hlog : log = done ++ items.map fun item => item.1.record) :
    SafeBook saved log docs (recoverFromOpLog items)
      (fun ok b' => ok = true ∧ b'.At saved docs log [] first) b := by
  induction items generalizing done b with
  | nil =>
      rw [hlog, List.map_nil, List.append_nil]
      exact ⟨rfl, hat⟩
  | cons item items ih =>
      obtain ⟨entry, plan⟩ := item
      obtain ⟨haborted, hr⟩ := hitems _ List.mem_cons_self
      rw [List.map_cons] at hat hlog
      subst hlog
      unfold recoverFromOpLog
      apply Safe.bind
      refine (safe_replayRecord hat hr haborted plan).mono ?_
      rintro ok b' ⟨rfl, hat'⟩
      refine ih _ (fun item hitem => hitems item (List.mem_cons_of_mem _ hitem)) hat' ?_
      rw [List.append_assoc, List.singleton_append]

end Replay

end AsterVec.Dense

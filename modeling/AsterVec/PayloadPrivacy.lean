import AsterVec.PayloadOrigins

/-!
No id reads what was given for another one.  A store whose log is on in every session keeps
to this through every kill, since no row lies under an id that the crash takes back; without
the log it takes the rows of an update id to be gone when the id is taken again.
-/

namespace AsterVec.Dense.Lifetime

open AsterVec.IdTypes
open AsterVec.OpLog (OpType)
open AsterVec.Programs
open Prog

variable {V Row : Type} {g g' : Lifetime V Row} {P : Nat → Row → Prop}
  {owner : Nat → Option Nat} {role : Role} {k : Holdings} {Session : Bool → Prop}
  {Condition : Lifetime V Row → Nat → Prop}

/-- No row lies under an id that a crash would take back. -/
def RowsDurable (g : Lifetime V Row) : Prop :=
  ∀ i row, g.st.rows i = some row → g.Durable i

/-- A program puts rows only under ids that are durable. -/
theorem RowsDurable.called (hrows : g.RowsDurable)
    (hk : k.Hold owner g) {c : LoggedCall V Row} (hallowed : Holdings.Allowed P role c k) :
    (g.called c).RowsDurable := by
  have hplaced : ∀ (items : List (Nat × Row)) (rows : Nat → Option Row),
      (∀ item ∈ items, k.kept item.1) → (∀ i row, rows i = some row → g.Durable i) →
      ∀ i row, items.foldl (fun (rows : Nat → Option Row) item =>
        Function.update rows item.1 (some item.2)) rows i = some row → g.Durable i := by
    intro items
    induction items with
    | nil => exact fun rows _ hrows => hrows
    | cons item items ih =>
        intro rows hitems hrows
        obtain ⟨hitem, hitems⟩ := List.forall_mem_cons.mp hitems
        refine ih _ hitems fun i row hrow => ?_
        change Function.update rows item.1 (some item.2) i = some row at hrow
        rcases eq_or_ne i item.1 with rfl | hne
        · exact hk.kept _ hitem
        · rw [Function.update_of_ne hne] at hrow
          exact hrows i row hrow
  intro i row hrow
  refine Durable.called ?_ c
  cases c with
  | append | observe | count => exact hrows i row hrow
  | store c =>
      cases c with
      | putRow j other =>
          exact hplaced [(j, other)] g.st.rows (List.forall_mem_singleton.mpr hallowed.1) hrows
            i row hrow
      | putRows items =>
          exact hplaced items g.st.rows (fun item hitem => (hallowed item hitem).1) hrows i row
            hrow
      | deleteRow j =>
          change Function.update g.st.rows j none i = some row at hrow
          rcases eq_or_ne i j with rfl | hne
          · rw [Function.update_self] at hrow
            cases hrow
          · rw [Function.update_of_ne hne] at hrow
            exact hrows i row hrow
      | _ => exact hrows i row hrow

/-- Nothing lies where the next update id will be. -/
theorem RowsDurable.vacant (hrows : g.RowsDurable) (hlogging : g.logging = true)
    (hsound : g.Sound P owner) (hopen : g.recovery = none) :
    g.st.rows g.st.tables.nextUpdateInternalId = none := by
  cases hrow : g.st.rows g.st.tables.nextUpdateInternalId with
  | none => rfl
  | some row =>
      have hfirst := hsound.owned.first
      have hlater := hsound.owned.later
      rcases hrows _ row hrow hlogging with hlt | hlt | ⟨entry, hentry, -, heq⟩
      · omega
      · omega
      · have hlt := hsound.lt_of_owner hopen (hsound.owned.log entry hentry).internal
        omega

theorem RowsDurable.recovered (hrows : g.RowsDurable) (hlogging : g.logging = true)
    (hsound : g.Sound P owner) (hrecovery : g.recovery = some (.done true)) :
    RowsDurable { g with
      checkpoint := if g.log.isEmpty then g.checkpoint else g.st
      log := []
      recovery := none } := by
  obtain ⟨k, hk, htaken⟩ := hsound.recovery _ hrecovery
  have hlater := hsound.owned.later
  intro i row hrow _
  change i < 2 ^ 63 ∨
    i < (if g.log.isEmpty then g.checkpoint else g.st).tables.nextUpdateInternalId ∨ _
  rcases hrows i row hrow hlogging with hlt | hlt | ⟨entry, hentry, hinserts, rfl⟩
  · exact .inl hlt
  · refine .inr (.inl ?_)
    split
    · exact hlt
    · exact Nat.lt_of_lt_of_le hlt hlater
  · refine .inr (.inl ?_)
    rw [if_neg fun hempty => ?_]
    · exact hk.taken _ (htaken rfl entry hentry hinserts)
    · rw [List.isEmpty_iff.mp hempty] at hentry
      cases hentry

theorem RowsDurable.step (hrows : g.RowsDurable) (hlogging : g.logging = true)
    {calls : List (PublicCall V Row)} (hsound : g.Sound (Derived calls) owner)
    (hstep : Step (· = true) Condition g g') : g'.RowsDurable ∧ g'.logging = true := by
  cases hstep with
  | begins | ends => exact ⟨hrows, hlogging⟩
  | runs before after t c next hthreads hrest =>
      have ht : t ∈ g.threads := by
        rw [hthreads]
        exact List.mem_append_right _ List.mem_cons_self
      obtain ⟨k, hk, hconfined⟩ := hsound.threads t ht
      rw [hrest] at hconfined
      exact ⟨hrows.called hk hconfined.2.1, hlogging⟩
  | fails before after t aborts hthreads =>
      refine ⟨fun i row hrow => (hrows i row hrow).of_records ?_ (before ++ after), hlogging⟩
      split
      · exact records_logAbort _ _
      · rfl
  | built st hopen hidle htables hst =>
      refine ⟨fun i row hrow => ?_, hlogging⟩
      rw [show st.rows = g.st.rows from hst] at hrow
      exact hrows i row hrow
  | checkpointed hopen =>
      exact ⟨fun i row hrow => hsound.durable_checkpointed hopen (hrows i row hrow), hlogging⟩
  | reopens base items logging hsession hrevives hst =>
      refine ⟨fun i row hrow _ => ?_, hsession⟩
      rw [show base.rows = g.st.rows from hst] at hrow
      exact hrows i row hrow hlogging
  | replays c next hrecovery =>
      obtain ⟨k, hk, -, hallowed, -⟩ := hsound.recovery _ hrecovery
      refine ⟨fun i row hrow => ?_, hlogging⟩
      have hdurable := hrows.called hk hallowed i row hrow
      intro hlogs
      have hcalled := hdurable hlogs
      rw [show (g.called c).log = g.log from logAfter_of_allowed hallowed] at hcalled
      exact hcalled
  | recovered hrecovery =>
      exact ⟨hrows.recovered hlogging hsound hrecovery, hlogging⟩

/-- With the log on, what a write finds under the update id it takes is nothing. -/
theorem Runs.sound_of_logging (hruns : Runs (· = true) Condition g)
    {calls : List (PublicCall V Row)} (hcalls : g.calls ⊆ calls) :
    (∃ owner, g.Sound (Derived calls) owner) ∧ g.RowsDurable ∧ g.logging = true := by
  induction hruns with
  | new logging hsession =>
      exact ⟨⟨_, sound_new _ logging⟩, by rintro i row ⟨⟩, hsession⟩
  | step _ hstep ih =>
      obtain ⟨⟨owner, hsound⟩, hrows, hlogging⟩ := ih (List.Subset.trans hstep.calls hcalls)
      refine ⟨hsound.step (hstep.mono fun hthreads r _ row hrow => ?_) hcalls,
        hrows.step hlogging hsound hstep⟩
      have hvacant := hrows.vacant hlogging hsound (by_contra fun hopening =>
        hthreads (hsound.opening hopening).1)
      rw [hvacant] at hrow
      cases hrow

/-! Calls one after another -/

/-- The thread runs to its end. -/
def finished (call : PublicCall V Row) : LoggedProg V Row Unit → Option Nat → Lifetime V Row →
    Lifetime V Row
  | .done _, _, g => { g with threads := [] }
  | .call c next, lsn, g =>
      finished call (next (execLogged c g.st).1) (g.lsnAfter lsn c)
        (g.ran [] [] ⟨call, .call c next, lsn⟩ c next)

/-- The store once the call ran alone. -/
def performed (g : Lifetime V Row) (call : PublicCall V Row) : Lifetime V Row :=
  finished call call.program none { g with calls := call :: g.calls }

/-- The store opened at its checkpoint, with what the replay leaves. -/
def opened (g : Lifetime V Row) (logging : Bool) (plan : Plan) : Lifetime V Row :=
  let base := { g.checkpoint with tables := g.checkpoint.tables.reload, rows := g.st.rows }
  let st := ((recoverFromOpLog (g.log.map fun entry => (entry, plan))).run execLogged base).2
  { g with
    st := st
    threads := []
    checkpoint := if g.log.isEmpty then g.checkpoint else st
    log := []
    logging := logging
    recovery := none
    seen := [] }

theorem Runs.finished (call : PublicCall V Row)
    (hcondition : ∀ r, call.lock = some r → ∀ g, Condition g r) (p : LoggedProg V Row Unit)
    (lsn : Option Nat) (g : Lifetime V Row)
    (hruns : Runs Session Condition { g with threads := [⟨call, p, lsn⟩] }) :
    Runs Session Condition (finished call p lsn g) := by
  induction p generalizing lsn g with
  | done value => exact hruns.step (.ends _ [] [] ⟨call, .done value, lsn⟩ rfl rfl)
  | call c next ih =>
      refine ih _ _ _ (hruns.step ?_)
      exact .runs _ [] [] ⟨call, .call c next, lsn⟩ c next rfl rfl
        fun _ r hlock => hcondition r hlock _

theorem Runs.performed (hruns : Runs Session Condition g) (call : PublicCall V Row)
    (hcondition : ∀ r, call.lock = some r → ∀ g, Condition g r) (hopen : g.recovery = none)
    (hidle : g.threads = []) (hids : ∀ r ∈ call.ids, r ≤ kMaxRealId) :
    Runs Session Condition (g.performed call) := by
  refine Runs.finished call hcondition call.program none _ ?_
  have hbegins := hruns.step (.begins g call hopen hids (by
    rw [hidle]
    exact List.forall_mem_nil _))
  rw [hidle] at hbegins
  exact hbegins

theorem Runs.replayed (p : LoggedProg V Row Bool) (g : Lifetime V Row)
    (hruns : Runs Session Condition { g with recovery := some p }) :
    Runs Session Condition { g with
      st := (p.run execLogged g.st).2
      recovery := some (.done (p.run execLogged g.st).1) } := by
  induction p generalizing g with
  | done value => exact hruns
  | call c next ih =>
      exact ih _ { g with st := (execLogged c g.st).2 } (hruns.step (.replays _ c next rfl))

theorem Runs.opened (hruns : Runs Session Condition g) {logging : Bool}
    (hsession : Session logging) (plan : Plan)
    (hclean : ((recoverFromOpLog (g.log.map fun entry => (entry, plan))).run execLogged
      { g.checkpoint with tables := g.checkpoint.tables.reload, rows := g.st.rows }).1 = true) :
    Runs Session Condition (g.opened logging plan) := by
  have hreopens := hruns.step (.reopens g
    { g.checkpoint with tables := g.checkpoint.tables.reload, rows := g.st.rows }
    (g.log.map fun entry => (entry, plan)) logging hsession ⟨rfl, fun _ => rfl⟩ rfl (by
      rw [List.map_map]
      exact List.map_id _))
  have hreplayed := Runs.replayed _ { g with
    st := { g.checkpoint with tables := g.checkpoint.tables.reload, rows := g.st.rows }
    threads := []
    logging := logging
    seen := [] } hreopens
  exact hreplayed.step (.recovered _ (congrArg (fun ok => some (Program.done ok)) hclean))

/-! What is read for an id -/

def noPlan : Plan := ⟨[], [], false, false⟩

/-- Write `r`, with or without a payload. -/
def upserts (kind : Kind) (r : Nat) (metadata : Option Bool) : PublicCall Unit Bool :=
  .change (.write (.upsert kind ⟨r, (), metadata, noPlan⟩))

/-- A store of vectors for the id 1. -/
def bulk : State Unit Bool :=
  { State.empty Unit Bool with vectors := fun i => bif i == 1 then some () else none }

/-- With the log on in every session this holds of every run: calls at once, failures of the
storage, and kills at any step, also while the store is opened. -/
theorem private_of_logging (hruns : Runs (· = true) Condition g) : g.Private := by
  obtain ⟨⟨owner, hsound⟩, -, -⟩ := hruns.sound_of_logging (List.Subset.refl g.calls)
  exact hsound.private

def killed (logging : Bool) : Lifetime Unit Bool :=
  let inserted := (Lifetime.new logging).performed (upserts .insert 1 none)
  { inserted with checkpoint := inserted.st, log := [] }.performed (upserts .update 1 (some true))

/-- The id 1 gets a payload, then the process is killed; the id 2 is updated with none. -/
def reopened (logging : Bool) : Lifetime Unit Bool :=
  (((killed logging).opened logging noPlan).performed (upserts .insert 2 none)).performed
    (upserts .update 2 none)

theorem killed_runs (logging : Bool) {Session : Bool → Prop} (hsession : Session logging) :
    Runs Session (fun _ _ => True) (killed logging) := by
  have hinsert := (Runs.new logging hsession : Runs Session (fun _ _ => True) _).performed
    (upserts .insert 1 none) (fun _ _ _ => trivial) rfl rfl (by decide)
  have hcheckpoint := hinsert.step (.checkpointed _ (by cases logging <;> rfl)
    (by cases logging <;> exact List.forall_mem_nil _))
  exact hcheckpoint.performed (upserts .update 1 (some true)) (fun _ _ _ => trivial)
    (by cases logging <;> rfl) (by cases logging <;> rfl) (by decide)

theorem reopened_runs (logging : Bool) {Session : Bool → Prop} (hsession : Session logging) :
    Runs Session (fun _ _ => True) (reopened logging) := by
  have hopened := (killed_runs logging hsession).opened hsession noPlan
    (by cases logging <;> rfl)
  have hinsert := hopened.performed (upserts .insert 2 none) (fun _ _ _ => trivial)
    (by cases logging <;> rfl) (by cases logging <;> rfl) (by decide)
  exact hinsert.performed (upserts .update 2 none) (fun _ _ _ => trivial)
    (by cases logging <;> rfl) (by cases logging <;> rfl) (by decide)

theorem private_of_logging_kill :
    (((reopened true).performed (.getPayload 1)).performed (.getPayload 2)).Private ∧
    (((reopened true).performed (.getPayload 1)).performed (.getPayload 2)).got =
      [(1, true)] := by
  have hreopened : Runs (· = true) (fun _ _ => True) (reopened true) := reopened_runs true rfl
  have hfirst := hreopened.performed (.getPayload 1) (fun _ _ _ => trivial) rfl rfl (by decide)
  have hsecond := hfirst.performed (.getPayload 2) (fun _ _ _ => trivial) rfl rfl (by decide)
  exact ⟨private_of_logging hsecond, by decide⟩

/-- Without the log, what was written for the id 1 is read for the id 2. -/
theorem not_private_without_log :
    Runs (fun _ => True) (fun _ _ => True) ((reopened false).performed (.getPayload 2)) ∧
      ¬((reopened false).performed (.getPayload 2)).Private := by
  refine ⟨(reopened_runs false trivial).performed (.getPayload 2) (fun _ _ _ => trivial) rfl rfl
    (by decide), fun hprivate => ?_⟩
  have hread : (2, true) ∈ ((reopened false).performed (.getPayload 2)).got := by decide
  have hcalls : ((reopened false).performed (.getPayload 2)).calls =
      [.getPayload 2, upserts .update 2 none, upserts .insert 2 none,
        upserts .update 1 (some true), upserts .insert 1 none] := rfl
  have hother : ∀ r row, Derived ((reopened false).performed (.getPayload 2)).calls r row →
      r = 1 := by
    intro r row hderived
    rw [hcalls] at hderived
    induction hderived with
    | written kind write row hcall hrow =>
        simp only [List.mem_cons, upserts, PublicCall.change.injEq, DbCall.write.injEq,
          WriteCall.upsert.injEq, reduceCtorEq, List.not_mem_nil, false_or, or_false] at hcall
        rcases hcall with ⟨-, rfl⟩ | ⟨-, rfl⟩ | ⟨-, rfl⟩ | ⟨-, rfl⟩
        · cases hrow
        · cases hrow
        · rfl
        · rfl
    | set r row hcall => simp [upserts] at hcall
    | listed items r row hcall => simp [upserts] at hcall
    | patched r patch existing hcall => simp [upserts] at hcall
    | erased r erase existing row hcall => simp [upserts] at hcall
  exact absurd (hother 2 true (hprivate.1 _ hread)) (by decide)

end AsterVec.Dense.Lifetime

import AsterVec.BookRecovery
import AsterVec.DenseReached

/-!
The life of a store with an operation log.  Calls on different ids run at once, the calls
on one id one after another; the process can be killed between any two steps, also while
it opens the store.
-/

namespace AsterVec.Dense

open AsterVec.IdTypes
open AsterVec.Programs
open Prog

variable {V Row α : Type}

/-- The store opened at a checkpoint: the id tables and the vectors are those saved, the
rows those of the moment, and nothing is known of the graph. -/
structure State.Restores (base checkpoint st : State V Row) : Prop where
  tables : base.tables = checkpoint.tables.reload
  vectors : base.vectors = checkpoint.vectors
  rows : base.rows = st.rows

/-- A call under way; `committed` tells whether it counts already. -/
structure Running (V Row : Type) where
  call : IdCall V Row
  rest : LoggedProg V Row Bool
  committed : Bool

/-- A store with its checkpoint and its log.  `running r` works on the id `r`, `recovery` is
what is left of the replay while the store is opened, and `counted` are the calls that
count, in their order.  `liveCount` is the count of live ids, which the checkpoint has as
well. -/
structure LoggedStore (V Row : Type) where
  st : State V Row
  running : Nat → Option (Running V Row)
  checkpoint : State V Row
  log : List (LogRecord V Row)
  recovery : Option (LoggedProg V Row Bool)
  counted : List (IdCall V Row)
  liveCount : Int
  checkpointLiveCount : Int

/-- What the calls make of an id, from nothing. -/
def docAfter (calls : List (IdCall V Row)) (r : Nat) : Doc V Row :=
  (calls.filter fun call => call.r = r).foldl (fun doc call => call.onDoc doc) none

theorem docAfter_append_self (calls : List (IdCall V Row)) (call : IdCall V Row) :
    docAfter (calls ++ [call]) call.r = call.onDoc (docAfter calls call.r) := by
  unfold docAfter
  rw [List.filter_append, List.filter_cons_of_pos (by simp), List.foldl_append]
  rfl

theorem docAfter_append_other (calls : List (IdCall V Row)) {call : IdCall V Row} {r : Nat}
    (hne : r ≠ call.r) : docAfter (calls ++ [call]) r = docAfter calls r := by
  unfold docAfter
  rw [List.filter_append, List.filter_cons_of_neg (by simpa using hne.symm),
    List.filter_nil, List.append_nil]

namespace LoggedStore

/-- A new store, with the checkpoint of an empty one. -/
def new (V Row : Type) : LoggedStore V Row where
  st := State.empty V Row
  running := fun _ => none
  checkpoint := State.empty V Row
  log := []
  recovery := none
  counted := []
  liveCount := 0
  checkpointLiveCount := 0

def logAfter (g : LoggedStore V Row) : LoggedCall V Row → List (LogRecord V Row)
  | .append record => g.log ++ [record]
  | _ => g.log

/-- After one call of `t`, which works on `r`.  It counts from its committing call on. -/
def ran (g : LoggedStore V Row) (r : Nat) (t : Running V Row) (c : LoggedCall V Row)
    (next : LoggedReply c → LoggedProg V Row Bool) : LoggedStore V Row :=
  { g with
    st := (execLogged c g.st).2
    running := Function.update g.running r
      (some ⟨t.call, next (execLogged c g.st).1, t.committed || t.call.commits c⟩)
    log := g.logAfter c
    liveCount := g.liveCount + c.change
    counted := if t.call.commits c = true ∧ t.committed = false then g.counted ++ [t.call]
      else g.counted }

/-- One step.  A call that returns counts. -/
inductive Step : LoggedStore V Row → LoggedStore V Row → Prop
  | begins (g : LoggedStore V Row) (call : IdCall V Row) (hopen : g.recovery = none)
      (hr : call.r ≤ kMaxRealId) (hfree : g.running call.r = none) :
      Step g { g with
        running := Function.update g.running call.r (some ⟨call, call.program, false⟩) }
  | runs (g : LoggedStore V Row) (r : Nat) (t : Running V Row) (c : LoggedCall V Row)
      (next : LoggedReply c → LoggedProg V Row Bool) (hrunning : g.running r = some t)
      (hrest : t.rest = .call c next) : Step g (g.ran r t c next)
  | ends (g : LoggedStore V Row) (r : Nat) (t : Running V Row) (ok : Bool)
      (hrunning : g.running r = some t) (hrest : t.rest = .done ok) :
      Step g { g with
        running := Function.update g.running r none
        counted := if t.committed then g.counted else g.counted ++ [t.call] }
  | checkpointed (g : LoggedStore V Row) (hopen : g.recovery = none)
      (hidle : ∀ r, g.running r = none) : Step g { g with
        checkpoint := g.st
        log := []
        checkpointLiveCount := g.liveCount }
  -- The process is killed, or ends after `Close`, and the store is opened again.  The file
  -- with the count is for checkpoints that have none.
  | reopens (g : LoggedStore V Row) (base : State V Row)
      (items : List (LogEntry V Row × Plan)) (loadCount : Nat)
      (hrestores : base.Restores g.checkpoint g.st)
      (hitems : items.map Prod.fst = g.log.map fun record => ⟨record, false⟩) :
      Step g { g with
        st := base
        running := fun _ => none
        recovery := some (recoverFromOpLog items)
        liveCount := if 0 ≤ g.checkpointLiveCount then g.checkpointLiveCount else loadCount }
  | replays (g : LoggedStore V Row) (c : LoggedCall V Row)
      (next : LoggedReply c → LoggedProg V Row Bool)
      (hrecovery : g.recovery = some (.call c next)) :
      Step g { g with
        st := (execLogged c g.st).2
        recovery := some (next (execLogged c g.st).1)
        liveCount := g.liveCount + c.change }
  -- What was replayed is checkpointed.
  | recovered (g : LoggedStore V Row) (hrecovery : g.recovery = some (.done true)) :
      Step g { g with
        checkpoint := if g.log.isEmpty then g.checkpoint else g.st
        log := []
        recovery := none
        checkpointLiveCount :=
          if g.log.isEmpty then g.checkpointLiveCount else g.liveCount }

/-- What `VectorCount` returns. -/
def vectorCount (g : LoggedStore V Row) : Nat := if 0 < g.liveCount then g.liveCount.toNat else 0

/-- The runs of a new store. -/
inductive Runs : LoggedStore V Row → Prop
  | new : Runs (new V Row)
  | step {g g' : LoggedStore V Row} : Runs g → Step g g' → Runs g'

end LoggedStore

/-! The counter of the update ids aside -/

namespace State

def raised (st : State V Row) (n : Nat) : State V Row :=
  { st with tables := { st.tables with nextUpdateInternalId := n } }

theorem raised_next (st : State V Row) : st.raised st.tables.nextUpdateInternalId = st := rfl

end State

theorem recordUpdateMapping_raised (tables : IdTables) (n r i : Nat) :
    ({ tables with nextUpdateInternalId := n } : IdTables).recordUpdateMapping r i =
      { tables.recordUpdateMapping r i with nextUpdateInternalId := n } := by
  unfold IdTables.recordUpdateMapping
  simp only
  split <;> rfl

theorem forgetUpdateMapping_raised (tables : IdTables) (n r : Nat) :
    ({ tables with nextUpdateInternalId := n } : IdTables).forgetUpdateMapping r =
      { tables.forgetUpdateMapping r with nextUpdateInternalId := n } := by
  unfold IdTables.forgetUpdateMapping
  simp only
  split <;> rfl

/-- The counter is for the allocation of ids only. -/
theorem exec_raised {c : Call V Row} (hold : c ≠ .allocateUpdateId) (st : State V Row)
    (n : Nat) :
    (exec c (st.raised n)).1 = (exec c st).1 ∧
      (exec c (st.raised n)).2 = (exec c st).2.raised n ∧
      (exec c st).2.tables.nextUpdateInternalId = st.tables.nextUpdateInternalId := by
  cases c with
  | allocateUpdateId => exact absurd rfl hold
  | recordUpdateMapping r i =>
      refine ⟨rfl, ?_, (st.tables.recordUpdateMapping_maps r i).2.2.2⟩
      exact congrArg (fun tables => ({ st with tables := tables } : State V Row))
        (recordUpdateMapping_raised st.tables n r i)
  | forgetUpdateMapping r =>
      refine ⟨rfl, ?_, (forgetUpdateMapping_maps st.tables r).2.2.2⟩
      exact congrArg (fun tables => ({ st with tables := tables } : State V Row))
        (forgetUpdateMapping_raised st.tables n r)
  | _ => exact ⟨rfl, rfl, rfl⟩

theorem ownerAfter_of_kept {c : Call V Row} (hold : c ≠ .allocateUpdateId) (r : Nat)
    (reply : Reply c) (owner : Nat → Option Nat) : ownerAfter r c reply owner = owner := by
  cases c with
  | allocateUpdateId => exact absurd rfl hold
  | _ => rfl

end AsterVec.Dense

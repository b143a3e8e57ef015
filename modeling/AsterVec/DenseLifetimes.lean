import AsterVec.LoggedPrograms
import AsterVec.DenseFilter

/-!
The life of a dense store over its sessions.  Calls run at once, one step of one of them at
a time; the process can be killed between any two steps, also while it opens the store.
-/

namespace AsterVec.Dense

open AsterVec.IdTypes
open AsterVec.Programs
open Prog

variable {V Row α β : Type}

/-- The call changes nothing of the store. -/
def IsRead : Call V Row → Prop
  | .resolveReal _ | .isTombstoned _ | .vectorExists _ | .readVector _ | .getRow _
  | .loadEntryPoint | .getEdges _ => True
  | _ => False

/-- A read of the walk from where a search starts. -/
def IsWalk : Call V Row → Prop
  | .resolveReal _ | .isTombstoned _ | .readVector _ | .getRow _ | .getEdges _ => True
  | _ => False

theorem IsWalk.read {c : Call V Row} (hwalk : IsWalk c) : IsRead c := by
  cases c with
  | resolveReal | isTombstoned | readVector | getRow | getEdges => trivial
  | _ => exact hwalk.elim

/-- What a search does: it reads. -/
structure Search (V Row : Type) where
  program : Prog V Row Unit
  reads : program.All IsRead

theorem all_translate {D : Type} (limit : Option Nat) (results out : List (D × Nat)) :
    (translate limit out results : Prog V Row _).All IsWalk := by
  induction results generalizing out with
  | nil => exact trivial
  | cons result results ih =>
      refine ⟨trivial, fun dead => ?_⟩
      cases dead with
      | true => exact ih out
      | false =>
          refine ⟨trivial, fun id => ?_⟩
          change (if _ then _ else _ : Prog V Row _).All IsWalk
          split
          · exact trivial
          · exact ih _

section Filtered

variable {D : Type} [LinearOrder D] (metric : Metric V D) (query : V) (k : Nat)
  (filter : Filter Row)

theorem all_scanNeighbors (neighbors : List Nat) (state : ScanState D) :
    (scanNeighbors metric query k filter neighbors state).All IsWalk := by
  induction neighbors generalizing state with
  | nil => exact trivial
  | cons nb neighbors ih =>
      unfold scanNeighbors
      split
      · exact ih state
      · refine ⟨trivial, fun vector => ?_⟩
        cases vector with
        | none => exact trivial
        | some vector => exact ⟨trivial, fun row => ih _⟩

theorem all_scanLoop (maxScan fuel : Nat) (state : ScanState D) :
    (scanLoop metric query k filter maxScan fuel state : Prog V Row _).All IsWalk := by
  induction fuel generalizing state with
  | zero => exact trivial
  | succ fuel ih =>
      unfold scanLoop
      split
      · exact trivial
      · dsimp only
        split
        · exact trivial
        · split
          · exact trivial
          · refine ⟨trivial, fun neighborList => (all_scanNeighbors ..).bind fun scanned => ?_⟩
            cases scanned with
            | none => exact trivial
            | some state => exact ih state

theorem all_searchLayerFiltered (maxScanCandidates : Int) (fuel entryPointId : Nat) :
    (searchLayerFiltered metric query k filter maxScanCandidates fuel entryPointId).All
      IsWalk := by
  refine ⟨trivial, fun entry => ?_⟩
  cases entry with
  | none => exact trivial
  | some vector =>
      refine ⟨trivial, fun row => (all_scanLoop ..).bind fun found => ?_⟩
      exact trivial

theorem all_searchDense (descent : Nat → Nat) (fuel : Nat) (k maxScanCandidates : Int) :
    (searchDense metric descent fuel query k filter maxScanCandidates).All IsRead := by
  unfold searchDense
  split
  · exact trivial
  · refine Program.All.bind ⟨trivial, fun ep => ?_⟩ fun results => ?_
    · cases ep with
      | none => exact trivial
      | some ep => exact (all_searchLayerFiltered ..).mono fun _ => IsWalk.read
    · cases results with
      | hits scan =>
          refine Program.All.bind ?_ fun out => trivial
          exact (all_translate ..).mono fun _ => IsWalk.read
      | _ => exact trivial

/-- A search with a filter. -/
def Search.filtered (descent : Nat → Nat) (fuel : Nat) (k maxScanCandidates : Int) :
    Search V Row where
  program := searchDense metric descent fuel query k filter maxScanCandidates >>=
    fun _ => pure ()
  reads := (all_searchDense ..).bind fun _ => trivial

end Filtered

/-- A public call on a dense store. -/
inductive PublicCall (V Row : Type) where
  | change (call : DbCall V Row)
  | getPayload (r : Nat)
  | search (search : Search V Row)

namespace PublicCall

def ids : PublicCall V Row → List Nat
  | change call => call.ids
  | getPayload r => [r]
  | search _ => []

/-- The id whose lock the call holds. -/
def lock : PublicCall V Row → Option Nat
  | change (.write call) => some call.r
  | _ => none

/-- The call holds the write gate that keeps checkpoints out. -/
def writes : PublicCall V Row → Bool
  | change _ => true
  | _ => false

def program : PublicCall V Row → LoggedProg V Row Unit
  | change (.write (.upsert kind write)) => do
      let _ ← LoggedProg.writeDense 2 kind write
      pure ()
  | change (.write (.delete r)) => do
      let _ ← LoggedProg.deleteDense r
      pure ()
  | change (.rows call) => LoggedProg.ofProg do
      let _ ← call.program
      pure ()
  | getPayload r => LoggedProg.ofProg do
      let _ ← getPayloadDense r
      pure ()
  | search s => LoggedProg.ofProg s.program

/-- A document that `GetPayload` reads for its id. -/
def got : PublicCall V Row → (c : LoggedCall V Row) → LoggedReply c → List (Nat × Row)
  | getPayload r, .store (.getRow _), some row => [(r, row)]
  | _, _, _ => []

/-- A document that a search reads for a node. -/
def seen : PublicCall V Row → (c : LoggedCall V Row) → LoggedReply c → List (Nat × Row)
  | search _, .store (.getRow i), some row => [(i, row)]
  | _, _, _ => []

end PublicCall

/-- A call under way; `lsn` is the place of its record in the log. -/
structure Thread (V Row : Type) where
  call : PublicCall V Row
  rest : LoggedProg V Row Unit
  lsn : Option Nat

/-- The store with its files.  `recovery` is what is left of the replay while the store is
opened; `calls` are all the calls so far, `got` the documents read for ids and `seen`
those the searches of this session read for nodes. -/
structure Lifetime (V Row : Type) where
  st : State V Row
  threads : List (Thread V Row)
  checkpoint : State V Row
  log : List (LogEntry V Row)
  logging : Bool
  recovery : Option (LoggedProg V Row Bool)
  calls : List (PublicCall V Row)
  got : List (Nat × Row)
  seen : List (Nat × Row)

namespace Lifetime

/-- A new store, with the checkpoint of an empty one. -/
def new (logging : Bool) : Lifetime V Row where
  st := State.empty V Row
  threads := []
  checkpoint := State.empty V Row
  log := []
  logging := logging
  recovery := none
  calls := []
  got := []
  seen := []

def logAfter (g : Lifetime V Row) : LoggedCall V Row → List (LogEntry V Row)
  | .append record => if g.logging then g.log ++ [⟨record, false⟩] else g.log
  | _ => g.log

theorem logAfter_append (g : Lifetime V Row) (record : LogRecord V Row) :
    g.logAfter (.append record) =
      if g.logging = true then g.log ++ [⟨record, false⟩] else g.log := rfl

def lsnAfter (g : Lifetime V Row) (lsn : Option Nat) : LoggedCall V Row → Option Nat
  | .append _ => if g.logging then some g.log.length else lsn
  | _ => lsn

/-- After one call of the thread `t`. -/
def ran (g : Lifetime V Row) (before after : List (Thread V Row)) (t : Thread V Row)
    (c : LoggedCall V Row) (next : LoggedReply c → LoggedProg V Row Unit) :
    Lifetime V Row :=
  let reply := (execLogged c g.st).1
  { g with
    st := (execLogged c g.st).2
    threads := before ++ ⟨t.call, next reply, g.lsnAfter t.lsn c⟩ :: after
    log := g.logAfter c
    got := t.call.got c reply ++ g.got
    seen := t.call.seen c reply ++ g.seen }

/-- The record of a call that failed is not replayed. -/
def logAbort (log : List (LogEntry V Row)) : Option Nat → List (LogEntry V Row)
  | none => log
  | some lsn => log.modify lsn fun entry => { entry with aborted := true }

/-- One step.  `Session` is asked of `enable_oplog` when the store is opened, `Condition` when
a write of an id takes an update id. -/
inductive Step (Session : Bool → Prop) (Condition : Lifetime V Row → Nat → Prop) :
    Lifetime V Row → Lifetime V Row → Prop
  | begins (g : Lifetime V Row) (call : PublicCall V Row) (hopen : g.recovery = none)
      (hids : ∀ r ∈ call.ids, r ≤ kMaxRealId)
      (hlock : ∀ t ∈ g.threads, ∀ r, t.call.lock = some r → call.lock ≠ some r) :
      Step Session Condition g { g with
        threads := ⟨call, call.program, none⟩ :: g.threads
        calls := call :: g.calls }
  | runs (g : Lifetime V Row) (before after : List (Thread V Row)) (t : Thread V Row)
      (c : LoggedCall V Row) (next : LoggedReply c → LoggedProg V Row Unit)
      (hthreads : g.threads = before ++ t :: after) (hrest : t.rest = .call c next)
      (hcondition : c = .store .allocateUpdateId → ∀ r, t.call.lock = some r →
        Condition g r) :
      Step Session Condition g (g.ran before after t c next)
  | ends (g : Lifetime V Row) (before after : List (Thread V Row)) (t : Thread V Row)
      (hthreads : g.threads = before ++ t :: after) (hrest : t.rest = .done ()) :
      Step Session Condition g { g with threads := before ++ after }
  -- A storage call fails, and the call returns an error.
  | fails (g : Lifetime V Row) (before after : List (Thread V Row)) (t : Thread V Row)
      (aborts : Bool) (hthreads : g.threads = before ++ t :: after) :
      Step Session Condition g { g with
        threads := before ++ after
        log := if aborts then logAbort g.log t.lsn else g.log }
  -- `BulkBuild` fills an empty store with vectors and edges.
  | built (g : Lifetime V Row) (st : State V Row) (hopen : g.recovery = none)
      (hidle : ∀ t ∈ g.threads, t.call.writes = false) (htables : st.tables = g.st.tables)
      (hrows : st.rows = g.st.rows) : Step Session Condition g { g with st := st }
  | checkpointed (g : Lifetime V Row) (hopen : g.recovery = none)
      (hidle : ∀ t ∈ g.threads, t.call.writes = false) :
      Step Session Condition g { g with checkpoint := g.st, log := [] }
  -- The process is killed, or ends after `Close`, and the store is opened again.
  | reopens (g : Lifetime V Row) (base : State V Row) (items : List (LogEntry V Row × Plan))
      (logging : Bool) (hsession : Session logging) (hrevives : base.Revives g.checkpoint)
      (hrows : base.rows = g.st.rows) (hitems : items.map Prod.fst = g.log) :
      Step Session Condition g { g with
        st := base
        threads := []
        logging := logging
        recovery := some (recoverFromOpLog items)
        seen := [] }
  | replays (g : Lifetime V Row) (c : LoggedCall V Row)
      (next : LoggedReply c → LoggedProg V Row Bool)
      (hrecovery : g.recovery = some (.call c next)) :
      Step Session Condition g { g with
        st := (execLogged c g.st).2
        recovery := some (next (execLogged c g.st).1) }
  -- What was replayed is checkpointed.
  | recovered (g : Lifetime V Row) (hrecovery : g.recovery = some (.done true)) :
      Step Session Condition g { g with
        checkpoint := if g.log.isEmpty then g.checkpoint else g.st
        log := []
        recovery := none }

/-- The runs of a new store. -/
inductive Runs (Session : Bool → Prop) (Condition : Lifetime V Row → Nat → Prop) :
    Lifetime V Row → Prop
  | new (logging : Bool) (hsession : Session logging) : Runs Session Condition (new logging)
  | step {g g' : Lifetime V Row} : Runs Session Condition g → Step Session Condition g g' →
      Runs Session Condition g'

end Lifetime

end AsterVec.Dense

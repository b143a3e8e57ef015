import AsterVec.DenseContents

/-!
Writes and payload calls at once.  Writes hold the lock of their id; a payload call takes
none, so what it has read can be out of date when it writes its row.
-/

namespace AsterVec.Dense

open AsterVec.IdTypes
open AsterVec.Programs
open Prog

variable {V Row κ : Type}

/-- A payload call, for one id or for several. -/
inductive RowCall (Row : Type) where
  | one (call : PayloadCall Row)
  | batch (items : List (Nat × Row))

namespace RowCall

def ids : RowCall Row → List Nat
  | one call => [call.r]
  | batch items => items.map Prod.fst

def program : RowCall Row → Prog V Row Bool
  | one call => call.program
  | batch items => setPayloadBatch items

end RowCall

inductive DbCall (V Row : Type) where
  | write (call : WriteCall V Row)
  | rows (call : RowCall Row)

def DbCall.program : DbCall V Row → Prog V Row Bool
  | write call => call.program
  | rows call => call.program

def DbCall.ids : DbCall V Row → List Nat
  | write call => [call.r]
  | rows call => call.ids

/-- A call that is over, and when. -/
structure Finished (V Row : Type) where
  call : DbCall V Row
  began : Nat
  ended : Nat
  ok : Bool

/-- A write under way. -/
structure Writing (V Row : Type) where
  call : WriteCall V Row
  began : Nat
  rest : Prog V Row Bool

/-- A payload call under way; `found` is the row it has read. -/
structure Serving (V Row : Type) where
  call : RowCall Row
  began : Nat
  rest : Prog V Row Bool
  found : Option (Option Row)

/-- `writers r` holds the lock of `r`; the calls that are over come latest first. -/
structure Traffic (V Row κ : Type) where
  st : State V Row
  clock : Nat
  writers : Nat → Option (Writing V Row)
  serving : κ → Option (Serving V Row)
  finished : List (Finished V Row)

namespace Traffic

/-- The row a payload call knows of after a reply. -/
def foundAfter : (c : Call V Row) → Reply c → Option (Option Row) → Option (Option Row)
  | .getRow _, row, _ => some row
  | _, _, found => found

/-- The rows a call writes. -/
def rowsOf : Call V Row → Option (List (Nat × Row))
  | .putRow i row => some [(i, row)]
  | .putRows rows => some rows
  | _ => none

/-- When a payload call writes its rows: nobody writes its ids, they are alive and still
resolve to where the rows go, and a row that was read is still there. -/
def Current (t : Traffic V Row κ) (s : Serving V Row) (c : Call V Row) : Prop :=
  ∀ rows, rowsOf c = some rows →
    rows.map Prod.fst = s.call.ids.map t.st.tables.resolveInternal ∧
      (∀ r ∈ s.call.ids, t.writers r = none ∧ AliveIn t.st r) ∧
      ∀ row ∈ rows, ∀ existing, s.found = some existing → t.st.rows row.1 = existing

/-- One step; the steps of payload calls satisfy `Allowed`.  A payload call is over with its
last step. -/
inductive Step [DecidableEq κ]
    (Allowed : Traffic V Row κ → Serving V Row → Call V Row → Prop) :
    Traffic V Row κ → Traffic V Row κ → Prop
  | writeBegins (t : Traffic V Row κ) (call : WriteCall V Row) (hr : call.r ≤ kMaxRealId)
      (hfree : t.writers call.r = none) :
      Step Allowed t { t with
        clock := t.clock + 1
        writers := Function.update t.writers call.r (some ⟨call, t.clock, call.program⟩) }
  | writeCalls (t : Traffic V Row κ) (r : Nat) (call : WriteCall V Row) (began : Nat)
      (c : Call V Row) (next : Reply c → Prog V Row Bool)
      (hwriter : t.writers r = some ⟨call, began, .call c next⟩) :
      Step Allowed t { t with
        st := (exec c t.st).2
        clock := t.clock + 1
        writers := Function.update t.writers r (some ⟨call, began, next (exec c t.st).1⟩) }
  | writeEnds (t : Traffic V Row κ) (r : Nat) (call : WriteCall V Row) (began : Nat)
      (ok : Bool) (hwriter : t.writers r = some ⟨call, began, .done ok⟩) :
      Step Allowed t { t with
        clock := t.clock + 1
        writers := Function.update t.writers r none
        finished := ⟨.write call, began, t.clock, ok⟩ :: t.finished }
  | rowsBegins (t : Traffic V Row κ) (k : κ) (call : RowCall Row)
      (hids : ∀ r ∈ call.ids, r ≤ kMaxRealId) (hfree : t.serving k = none) :
      Step Allowed t { t with
        clock := t.clock + 1
        serving := Function.update t.serving k (some ⟨call, t.clock, call.program, none⟩) }
  | rowsCalls (t : Traffic V Row κ) (k : κ) (s : Serving V Row) (c : Call V Row)
      (next : Reply c → Prog V Row Bool) (hserving : t.serving k = some s)
      (hrest : s.rest = .call c next) (hallowed : Allowed t s c)
      (hmore : (next (exec c t.st).1).result? = none) :
      Step Allowed t { t with
        st := (exec c t.st).2
        clock := t.clock + 1
        serving := Function.update t.serving k (some { s with
          rest := next (exec c t.st).1
          found := foundAfter c (exec c t.st).1 s.found }) }
  | rowsLast (t : Traffic V Row κ) (k : κ) (s : Serving V Row) (c : Call V Row)
      (next : Reply c → Prog V Row Bool) (ok : Bool) (hserving : t.serving k = some s)
      (hrest : s.rest = .call c next) (hallowed : Allowed t s c)
      (hlast : (next (exec c t.st).1).result? = some ok) :
      Step Allowed t { t with
        st := (exec c t.st).2
        clock := t.clock + 1
        serving := Function.update t.serving k none
        finished := ⟨.rows s.call, s.began, t.clock, ok⟩ :: t.finished }

/-- No call is under way. -/
def Idle (t : Traffic V Row κ) : Prop :=
  (∀ r, t.writers r = none) ∧ ∀ k, t.serving k = none

def start (st : State V Row) : Traffic V Row κ := ⟨st, 0, fun _ => none, fun _ => none, []⟩

end Traffic

namespace State

/-- What `GetPayload` finds for an id; `none` for `{}`. -/
def payload (st : State V Row) (r : Nat) : Option Row :=
  st.rows (st.tables.resolveInternal r)

/-- The rows that are stored, with the ids they belong to. -/
def StoredRows (st : State V Row) : Set (Nat × Row) :=
  {x | ∃ i, st.rows i = some x.2 ∧ st.tables.resolveReal i = x.1}

/-- The calls one after another. -/
def sequentially (calls : List (DbCall V Row)) (st : State V Row) : State V Row :=
  calls.foldl (fun st call => (call.program.run exec st).2) st

end State

/-- The payloads and the stored rows are those of an order of the calls in which a call
that was over before another began comes first. -/
def Serialisable (st : State V Row) (t : Traffic V Row κ) : Prop :=
  ∃ order : List (Finished V Row), order.Perm t.finished ∧
    order.Pairwise (fun a b => ¬b.ended < a.began) ∧
    (∀ r ≤ kMaxRealId,
      t.st.payload r = (st.sequentially (order.map Finished.call)).payload r) ∧
    t.st.StoredRows = (st.sequentially (order.map Finished.call)).StoredRows

end AsterVec.Dense

import AsterVec.DenseRecovery
import AsterVec.DenseTraffic

/-!
The writes of a store with an operation log.  A write logs what it is about to do when it
has its update id and has changed nothing yet, and counts the id once it is alive or dead.
-/

namespace AsterVec.Dense

open AsterVec.IdTypes
open AsterVec.OpLog (OpType)
open AsterVec.Programs
open Prog

variable {V Row α : Type}

/-- A call on the store, a record for the log, an update id that the log shows in use, or a
change of the count of live ids. -/
inductive LoggedCall (V Row : Type) where
  | store (c : Call V Row)
  | append (record : LogRecord V Row)
  | observe (i : Nat)
  | count (change : Int)

def LoggedReply : LoggedCall V Row → Type
  | .store c => Reply c
  | .append _ | .observe _ | .count _ => Unit

/-- What a call does to the count of live ids. -/
def LoggedCall.change : LoggedCall V Row → Int
  | .count change => change
  | _ => 0

/-- What a call of a program does to the store. -/
def execLogged : (c : LoggedCall V Row) → State V Row → LoggedReply c × State V Row
  | .store c, st => exec c st
  | .append _, st | .count _, st => ((), st)
  | .observe i, st => ((), { st with tables := st.tables.observeUpdateId i })

abbrev LoggedProg (V Row : Type) := Program (LoggedCall V Row) LoggedReply

namespace LoggedProg

/-- A program that logs nothing. -/
def ofProg (p : Prog V Row α) : LoggedProg V Row α := p.lift .store fun _ reply => reply

theorem ofProg_bind {β : Type} (p : Prog V Row α) (follow : α → Prog V Row β) :
    ofProg (p >>= follow) = ofProg p >>= fun value => ofProg (follow value) :=
  Program.lift_bind _ _ p follow

def logOp (record : LogRecord V Row) : LoggedProg V Row Unit :=
  Program.perform (LoggedCall.append record)

def observeUpdateId (i : Nat) : LoggedProg V Row Unit :=
  bif isDirectId i then pure () else Program.perform (LoggedCall.observe i)

def addLiveCount (change : Int) : LoggedProg V Row Unit :=
  Program.perform (LoggedCall.count change)

def insertDead (write : Write V Row) : LoggedProg V Row Unit := do
  let reinsert ← ofProg (isTombstoned write.r)
  let targetInternal ← ofProg (bif reinsert then allocateUpdateId else pure write.r)
  logOp ⟨.kInsert, write.r, targetInternal, 0, some write.vector, write.metadata⟩
  ofProg do
    bif reinsert then recordUpdateMapping write.r targetInternal else pure ()
    insertNode targetInternal write.vector write.plan
  addLiveCount 1
  ofProg (putMetadata targetInternal write.metadata)

def updateAlive (write : Write V Row) : LoggedProg V Row Unit := do
  let oldInternal ← ofProg (resolveInternal write.r)
  let newInternal ← ofProg allocateUpdateId
  logOp ⟨.kUpdate, write.r, newInternal, oldInternal, some write.vector, write.metadata⟩
  ofProg do
    insertNode newInternal write.vector write.plan
    recordUpdateMapping write.r newInternal
    tombstone oldInternal
    migrateMetadata oldInternal newInternal write.metadata
    deleteRow oldInternal

def writeDense : Nat → Kind → Write V Row → LoggedProg V Row Bool
  | 0, _, _ => pure false
  | fuel + 1, .insert, write => do
      let alive ← ofProg (isAlive write.r)
      bif alive then writeDense fuel .update write
      else do
        insertDead write
        pure true
  | fuel + 1, .update, write => do
      let alive ← ofProg (isAlive write.r)
      bif alive then do
        updateAlive write
        pure true
      else writeDense fuel .insert write

/-- An id that is dead already is not counted again. -/
def deleteDense (r : Nat) : LoggedProg V Row Bool := do
  let wasAlive ← ofProg (isAlive r)
  let i ← ofProg (resolveInternal r)
  let present ← ofProg (vectorExists i)
  bif present then do
    logOp ⟨.kDelete, r, i, 0, none, none⟩
    ofProg do
      tombstone i
      deleteRow i
      forgetUpdateMapping r
    bif wasAlive then addLiveCount (-1) else pure ()
    pure true
  else pure true

section Replay

variable (record : LogRecord V Row)

def replayInsert (vector : V) (plan : Plan) : LoggedProg V Row Unit := do
  let wasAlive ← ofProg (isAlive record.realId)
  ofProg do
    bif isDirectId record.internalId then pure ()
    else recordUpdateMapping record.realId record.internalId
    insertNode record.internalId vector plan
  bif wasAlive then pure () else addLiveCount 1
  ofProg (fillRow record.internalId (putMetadata record.internalId record.payload))

def replayUpdate (vector : V) (plan : Plan) : LoggedProg V Row Unit := do
  let wasAlive ← ofProg (isAlive record.realId)
  ofProg do
    insertNode record.internalId vector plan
    recordUpdateMapping record.realId record.internalId
    tombstone record.aux
  bif wasAlive then pure () else addLiveCount 1
  ofProg do
    fillRow record.internalId (migrateMetadata record.aux record.internalId record.payload)
    deleteRow record.aux

def replayDelete : LoggedProg V Row Unit := do
  let wasAlive ← ofProg (isAlive record.realId)
  ofProg record.replayDelete
  bif wasAlive then addLiveCount (-1) else pure ()

end Replay

/-- The program without the log. -/
def unlogged : LoggedProg V Row α → Prog V Row α
  | .done value => .done value
  | .call (.store c) next => .call c fun reply => unlogged (next reply)
  | .call (.append _) next | .call (.observe _) next | .call (.count _) next =>
      unlogged (next ())

theorem unlogged_ofProg (p : Prog V Row α) : unlogged (ofProg p) = p := by
  induction p with
  | done value => rfl
  | call c next ih => exact congrArg (Program.call c) (funext fun reply => ih reply)

theorem unlogged_bind {β : Type} (p : LoggedProg V Row α)
    (follow : α → LoggedProg V Row β) :
    unlogged (p >>= follow) = unlogged p >>= fun value => unlogged (follow value) := by
  induction p with
  | done value => rfl
  | call c next ih =>
      cases c with
      | store c => exact congrArg (Program.call c) (funext fun reply => ih reply)
      | append | observe | count => exact ih ()

theorem unlogged_insertDead (write : Write V Row) :
    unlogged (insertDead write) = Dense.insertDead write := by
  unfold insertDead Dense.insertDead
  simp only [unlogged_bind, unlogged_ofProg, Program.bind_assoc]
  rfl

theorem unlogged_updateAlive (write : Write V Row) :
    unlogged (updateAlive write) = Dense.updateAlive write := by
  unfold updateAlive Dense.updateAlive
  simp only [unlogged_bind, unlogged_ofProg]
  rfl

/-- The log and the count aside, these are the writes of a store without them. -/
theorem unlogged_writeDense (fuel : Nat) (kind : Kind) (write : Write V Row) :
    unlogged (writeDense fuel kind write) = Dense.writeDense fuel kind write := by
  induction fuel generalizing kind with
  | zero => rfl
  | succ fuel ih =>
      cases kind with
      | insert =>
          unfold writeDense Dense.writeDense
          rw [unlogged_bind, unlogged_ofProg]
          congr 1
          funext alive
          cases alive with
          | true => exact ih .update
          | false =>
              change unlogged (insertDead write >>= fun _ => pure true) = _
              rw [unlogged_bind, unlogged_insertDead]
              rfl
      | update =>
          unfold writeDense Dense.writeDense
          rw [unlogged_bind, unlogged_ofProg]
          congr 1
          funext alive
          cases alive with
          | true =>
              change unlogged (updateAlive write >>= fun _ => pure true) = _
              rw [unlogged_bind, unlogged_updateAlive]
              rfl
          | false => exact ih .insert

theorem unlogged_deleteDense (r : Nat) :
    unlogged (deleteDense r : LoggedProg V Row Bool) = Dense.deleteDense r := by
  unfold deleteDense Dense.deleteDense
  simp only [unlogged_bind, unlogged_ofProg]
  congr 1
  funext wasAlive
  congr 1
  funext i
  congr 1
  funext present
  cases present with
  | true => cases wasAlive <;> rfl
  | false => rfl

end LoggedProg

/-- The record is that of an insert or an update. -/
def LogRecord.Inserts (record : LogRecord V Row) : Prop :=
  record.op = .kInsert ∨ record.op = .kUpdate

/-- A record, and whether the call that logged it failed. -/
structure LogEntry (V Row : Type) where
  record : LogRecord V Row
  aborted : Bool

/-- `false` is a corrupt record. -/
def LogEntry.replayRecord (entry : LogEntry V Row) (plan : Plan) : LoggedProg V Row Bool :=
  match entry.record.op with
  | .kAbort => pure true
  | .kInsert => do
      LoggedProg.observeUpdateId entry.record.internalId
      bif entry.aborted then pure true
      else match entry.record.vector with
        | none => pure false
        | some vector => do
            LoggedProg.replayInsert entry.record vector plan
            pure true
  | .kUpdate => do
      LoggedProg.observeUpdateId entry.record.internalId
      bif entry.aborted then pure true
      else match entry.record.vector with
        | none => pure false
        | some vector => do
            LoggedProg.replayUpdate entry.record vector plan
            pure true
  | .kDelete =>
      bif entry.aborted then pure true
      else do
        LoggedProg.replayDelete entry.record
        pure true
  | .other _ => pure false

/-- The records after the checkpoint, in the order of the log. -/
def recoverFromOpLog : List (LogEntry V Row × Plan) → LoggedProg V Row Bool
  | [] => pure true
  | (entry, plan) :: items => do
      let ok ← entry.replayRecord plan
      bif ok then recoverFromOpLog items else pure false

/-- The calls that store a node and link it. -/
def PlacesNode : Call V Row → Prop
  | .loadEntryPoint | .storeVector _ _ | .casEntryPoint _ | .promote _ | .linkUpper _
  | .addEdges _ _ | .deleteEdges _ => True
  | _ => False

theorem all_linkNode (nodeId : Nat) (plan : Plan) :
    (linkNode nodeId plan : Prog V Row Unit).All PlacesNode := by
  have hone : ∀ c : Call V Row, PlacesNode c → (perform c).All PlacesNode :=
    fun c hplaces => ⟨hplaces, fun _ => trivial⟩
  unfold linkNode
  refine .bind (hone (.addEdges nodeId plan.selected) trivial) fun _ => .bind ?_ fun _ =>
    .bind (hone (.deleteEdges plan.dropped) trivial) fun _ => ?_
  · cases plan.upper with
    | true => exact hone (.linkUpper nodeId) trivial
    | false => exact trivial
  · cases plan.promoted with
    | true => exact hone (.promote nodeId) trivial
    | false => exact trivial

theorem all_insertNode (nodeId : Nat) (vector : V) (plan : Plan) :
    (insertNode nodeId vector plan : Prog V Row Unit).All PlacesNode := by
  unfold insertNode
  refine ⟨trivial, fun entry => ?_⟩
  cases (entry : Option Nat) with
  | some _ => exact ⟨trivial, fun _ => all_linkNode nodeId plan⟩
  | none =>
      refine ⟨trivial, fun _ => ⟨trivial, fun first => ?_⟩⟩
      cases (first : Bool) with
      | true => exact trivial
      | false => exact all_linkNode nodeId plan

end AsterVec.Dense

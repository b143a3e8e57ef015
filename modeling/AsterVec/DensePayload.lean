import AsterVec.DenseWrites

/-!
Payload calls.  A row is opaque here; what a merge patch or a key deletion makes of it
is given with the call.
-/

namespace AsterVec.Dense

open AsterVec.IdTypes
open AsterVec.Programs
open Prog

variable {V Row : Type}

/-- A payload call for one id.  `erase` answers `none` when the row is not an object. -/
inductive PayloadCall (Row : Type) where
  | set (r : Nat) (row : Row)
  | update (r : Nat) (patch : Option Row → Row)
  | deleteKeys (r : Nat) (erase : Row → Option Row)

def setPayloadDense (r : Nat) (row : Row) : Prog V Row Bool := do
  let alive ← isAlive r
  bif alive then do
    let i ← resolveInternal r
    putRow i row
    pure true
  else pure false

/-- A missing row is patched like an empty object; `patch` knows both cases. -/
def updatePayloadDense (r : Nat) (patch : Option Row → Row) : Prog V Row Bool := do
  let alive ← isAlive r
  bif alive then do
    let i ← resolveInternal r
    let existing ← getRow i
    putRow i (patch existing)
    pure true
  else pure false

/-- This call does not ask whether the id is alive. -/
def deletePayloadKeysDense (r : Nat) (erase : Row → Option Row) : Prog V Row Bool := do
  let i ← resolveInternal r
  let existing ← getRow i
  match existing.bind erase with
  | none => pure false
  | some row => do
      putRow i row
      pure true

/-- `none` stands for the payload `{}` of an id without a row. -/
def getPayloadDense (r : Nat) : Prog V Row (Option Row) := do
  let i ← resolveInternal r
  getRow i

/-- Check every item and resolve it, before any row is written. -/
def resolveItems : List (Nat × Row) → Prog V Row (Option (List (Nat × Row)))
  | [] => pure (some [])
  | (r, row) :: items => do
      let alive ← isAlive r
      bif alive then do
        let i ← resolveInternal r
        let rest ← resolveItems items
        pure (rest.map ((i, row) :: ·))
      else pure none

def setPayloadBatch (items : List (Nat × Row)) : Prog V Row Bool := do
  let resolved ← resolveItems items
  match resolved with
  | none => pure false
  | some rows => do
      putRows rows
      pure true

namespace PayloadCall

def r : PayloadCall Row → Nat
  | set r _ | update r _ | deleteKeys r _ => r

def program : PayloadCall Row → Prog V Row Bool
  | set r row => setPayloadDense r row
  | update r patch => updatePayloadDense r patch
  | deleteKeys r erase => deletePayloadKeysDense r erase

end PayloadCall

variable {r : Nat} {s : Slice V Row}

theorem run_deletePayloadKeysDense (st : State V Row) (r : Nat) (erase : Row → Option Row) :
    (deletePayloadKeysDense r erase).run exec st =
      Program.run exec (match (st.rows (st.tables.resolveInternal r)).bind erase with
        | none => pure false
        | some row => do
            putRow (st.tables.resolveInternal r) row
            pure true : Prog V Row Bool) st := rfl

/-- A row is written at the current version of an id that is alive. -/
theorem Slice.Idle.setRow (hidle : s.Idle r) (halive : s.Alive r) (row : Row) :
    (s.setRow (s.current r) (some row)).Idle r := by
  apply Slice.Idle.of_rowAt (.inr ⟨some row, rfl⟩) hidle.mapped hidle.replaced rfl halive
  intro j hne
  cases hrow : s.rows j with
  | none => rfl
  | some other => exact absurd (hidle.rows j (by rw [hrow]; rfl)).1 hne

theorem safe_putCurrentRow (hinv : s.Inv r) (hidle : s.Idle r) (halive : s.Alive r)
    (row : Row) :
    SafeWrite r (do putRow (s.current r) row; pure true : Prog V Row Bool)
      (fun _ s' => s'.Idle r) s :=
  safe_putRow hinv.owned_current (hidle.setRow halive row)

theorem safe_deletePayloadKeysDense (hinv : s.Inv r) (hidle : s.Idle r)
    (erase : Row → Option Row) :
    SafeWrite r (deletePayloadKeysDense r erase : Prog V Row Bool)
      (fun _ s' => s'.Idle r) s := by
  apply safe_resolveInternal
  apply safe_getRow hinv.owned_current
  cases herased : (s.rows (s.current r)).bind erase with
  | none => exact hidle
  | some row =>
      obtain ⟨existing, hrow, -⟩ := Option.bind_eq_some_iff.mp herased
      have halive := (hidle.rows (s.current r) (by rw [hrow]; rfl)).2
      exact safe_putCurrentRow hinv hidle halive row

theorem safe_payload (hinv : s.Inv r) (hidle : s.Idle r) (call : PayloadCall Row)
    (hr : call.r = r) :
    SafeWrite r (call.program : Prog V Row Bool) (fun _ s' => s'.Idle r) s := by
  subst hr
  cases call with
  | set r row =>
      apply Safe.bind
      apply (safe_isAlive hinv).mono
      rintro alive _ ⟨rfl, halive⟩
      cases alive with
      | false => exact hidle
      | true =>
          apply safe_resolveInternal
          exact safe_putCurrentRow hinv hidle (halive.mp rfl) row
  | update r patch =>
      apply Safe.bind
      apply (safe_isAlive hinv).mono
      rintro alive _ ⟨rfl, halive⟩
      cases alive with
      | false => exact hidle
      | true =>
          apply safe_resolveInternal
          apply safe_getRow hinv.owned_current
          exact safe_putCurrentRow hinv hidle (halive.mp rfl) _
  | deleteKeys r erase => exact safe_deletePayloadKeysDense hinv hidle erase

end AsterVec.Dense

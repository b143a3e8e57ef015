import Mathlib.Algebra.GroupWithZero.Nat
import Mathlib.Data.Nat.Notation
import Mathlib.Tactic.Common

/-!
The two id namespaces of the engine.  Identifiers are the naturals below `2^64`;
bit 63 tells an id allocated by an update from the id its caller chose.
-/

namespace AsterVec.IdTypes

/-- An id fits into 64 bits. -/
instance neZero_ids : NeZero (2 ^ 64) := ⟨by decide⟩

/-- Bit 63. -/
def kUpdateIdBit : Nat := 1 <<< 63

/-- The first id the update counter hands out. -/
def kFirstUpdateId : Nat := kUpdateIdBit

/-- The largest id a caller may use. -/
def kMaxRealId : Nat := kUpdateIdBit - 1

/-- Bit 63 clear: the internal id is the caller's own id. -/
def isDirectId (i : Nat) : Bool := i >>> 63 == 0

/-- Bit 63 set: the internal id was allocated by an update or a re-insert. -/
def isUpdateId (i : Nat) : Bool := i >>> 63 == 1

@[simp] theorem isDirectId_iff (i : Nat) : isDirectId i = true ↔ i < 2 ^ 63 := by
  rw [isDirectId, beq_iff_eq, Nat.shiftRight_eq_div_pow]
  omega

theorem isDirectId_eq_false_iff (i : Nat) :
    isDirectId i = false ↔ 2 ^ 63 ≤ i := by
  rw [← Bool.not_eq_true, isDirectId_iff, Nat.not_lt]

@[simp] theorem isUpdateId_iff (i : Nat) :
    isUpdateId i = true ↔ 2 ^ 63 ≤ i ∧ i < 2 ^ 64 := by
  rw [isUpdateId, beq_iff_eq, Nat.shiftRight_eq_div_pow]
  omega

theorem le_kMaxRealId_iff (r : Nat) : r ≤ kMaxRealId ↔ r < 2 ^ 63 := by
  change r ≤ 2 ^ 63 - 1 ↔ _
  omega

end AsterVec.IdTypes

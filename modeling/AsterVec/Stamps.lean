import Mathlib.Order.Basic
import Mathlib.Logic.Function.Basic
import Mathlib.Order.Lattice

/-!
Sets kept as marks that go out of date.  An element is in the set when its mark is the current
stamp; a later stamp empties the set without touching the marks.
-/

namespace AsterVec.Stamps

variable {κ ω : Type} [LinearOrder ω] {marks marks' : κ → Option ω} {now later : ω}
  {seen seen' : κ → Prop}

/-- No mark is above the current stamp. -/
def Bounded (marks : κ → Option ω) (now : ω) : Prop := ∀ k v, marks k = some v → v ≤ now

/-- The elements with the current mark are those of the set. -/
structure Exact (marks : κ → Option ω) (now : ω) (seen : κ → Prop) : Prop where
  bounded : Bounded marks now
  marked_iff : ∀ k, marks k = some now ↔ seen k

/-- Where all marks are old the set is empty. -/
theorem exact_of_lt (hold : ∀ k v, marks k = some v → v < now) :
    Exact marks now fun _ => False where
  bounded k v hv := (hold k v hv).le
  marked_iff k := ⟨fun hnow => lt_irrefl now (hold k now hnow), False.elim⟩

theorem Bounded.advance (hbounded : Bounded marks now) (hlt : now < later) :
    Exact marks later fun _ => False :=
  exact_of_lt fun k v hv => (hbounded k v hv).trans_lt hlt

theorem Exact.congr (hexact : Exact marks now seen) (hseen : ∀ k, seen k ↔ seen' k) :
    Exact marks now seen' where
  bounded := hexact.bounded
  marked_iff k := (hexact.marked_iff k).trans (hseen k)

theorem Exact.mark [DecidableEq κ] (hexact : Exact marks now seen) (x : κ) :
    Exact (Function.update marks x (some now)) now fun k => k = x ∨ seen k := by
  refine ⟨fun k v hv => ?_, fun k => ?_⟩
  · rcases eq_or_ne k x with rfl | hne
    · rw [Function.update_self] at hv
      exact (Option.some.inj hv).ge
    · rw [Function.update_of_ne hne] at hv
      exact hexact.bounded k v hv
  · rcases eq_or_ne k x with rfl | hne
    · rw [Function.update_self]
      exact ⟨fun _ => .inl rfl, fun _ => rfl⟩
    · rw [Function.update_of_ne hne, hexact.marked_iff, or_iff_right hne]

/-- New marks that are old do not count. -/
theorem Exact.grow (hexact : Exact marks now seen)
    (hgrow : ∀ k, marks' k = marks k ∨ marks k = none ∧ ∃ v < now, marks' k = some v) :
    Exact marks' now seen := by
  refine ⟨fun k v hv => ?_, fun k => ?_⟩
  · rcases hgrow k with hsame | ⟨-, old, hlt, hnew⟩
    · rw [hsame] at hv
      exact hexact.bounded k v hv
    · rw [hnew] at hv
      cases hv
      exact hlt.le
  · rw [← hexact.marked_iff]
    rcases hgrow k with hsame | ⟨hnone, old, hlt, hnew⟩
    · rw [hsame]
    · rw [hnone, hnew]
      refine ⟨fun hnow => ?_, fun hnow => by cases hnow⟩
      cases hnow
      exact absurd hlt (lt_irrefl _)

end AsterVec.Stamps

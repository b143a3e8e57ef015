import Mathlib.Data.Option.Basic
import Mathlib.Tactic.Common

/-!
Machines that take one labelled step at a time, and what holds in every state of a run
whose steps all meet a condition.
-/

namespace AsterVec.Machines

variable {σ ℓ : Type}

/-- The state after a list of labels; `none` when one of them is not possible. -/
def run (step : σ → ℓ → Option σ) : σ → List ℓ → Option σ
  | s, [] => some s
  | s, l :: ls => (step s l).bind fun s' => run step s' ls

/-- Each label of the run meets the condition in the state it is taken from. -/
def Meets (step : σ → ℓ → Option σ) (Condition : σ → ℓ → Prop) : σ → List ℓ → Prop
  | _, [] => True
  | s, l :: ls => Condition s l ∧
      match step s l with
      | none => True
      | some s' => Meets step Condition s' ls

instance decidableMeets (step : σ → ℓ → Option σ) (Condition : σ → ℓ → Prop)
    [∀ s l, Decidable (Condition s l)] : ∀ s ls, Decidable (Meets step Condition s ls)
  | _, [] => inferInstanceAs (Decidable True)
  | s, l :: ls =>
      @instDecidableAnd _ _ inferInstance
        (match step s l with
        | none => inferInstanceAs (Decidable True)
        | some s' => decidableMeets step Condition s' ls)

variable {step : σ → ℓ → Option σ} {Condition : σ → ℓ → Prop}

@[simp] theorem run_nil (s : σ) : run step s [] = some s := rfl

theorem run_cons {s t : σ} {l : ℓ} {ls : List ℓ} :
    run step s (l :: ls) = some t ↔ ∃ m, step s l = some m ∧ run step m ls = some t :=
  Option.bind_eq_some_iff

theorem Meets.tail {s m : σ} {l : ℓ} {ls : List ℓ} (h : Meets step Condition s (l :: ls))
    (hm : step s l = some m) : Meets step Condition m ls := by
  have hrest := h.2
  rw [hm] at hrest
  exact hrest

theorem run_append {s t : σ} {ls ms : List ℓ} :
    run step s (ls ++ ms) = some t ↔ ∃ m, run step s ls = some m ∧ run step m ms = some t := by
  induction ls generalizing s with
  | nil => simp
  | cons l ls ih =>
      rw [List.cons_append, run_cons]
      constructor
      · rintro ⟨m, hm, hrest⟩
        rcases ih.mp hrest with ⟨m', hm', hrest'⟩
        exact ⟨m', run_cons.mpr ⟨m, hm, hm'⟩, hrest'⟩
      · rintro ⟨m', hm', hrest⟩
        rcases run_cons.mp hm' with ⟨m, hm, hls⟩
        exact ⟨m, hm, ih.mpr ⟨m', hls, hrest⟩⟩

/-- What each step that meets the condition keeps, the whole run keeps. -/
theorem Meets.invariant {Inv : σ → Prop}
    (hstep : ∀ s l s', Inv s → Condition s l → step s l = some s' → Inv s')
    {s t : σ} {ls : List ℓ} (hmeets : Meets step Condition s ls) (hinv : Inv s)
    (hrun : run step s ls = some t) : Inv t := by
  induction ls generalizing s with
  | nil => exact Option.some.inj hrun ▸ hinv
  | cons l ls ih =>
      rcases run_cons.mp hrun with ⟨m, hm, hrest⟩
      exact ih (hmeets.tail hm) (hstep s l m hinv hmeets.1 hm) hrest

end AsterVec.Machines

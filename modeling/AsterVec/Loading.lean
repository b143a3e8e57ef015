import AsterVec.LittleEndian
import AsterVec.PagedVectorStorage
import AsterVec.Programs
import Mathlib.Logic.Function.Iterate
import Mathlib.Tactic.Linarith

/-!
Programs that load a byte string.  They read from its front, ask how much is left, run the
growth loop of a capacity and fail; a machine takes them one step at a time.
-/

namespace AsterVec.Loading

open AsterVec.LittleEndian
open AsterVec.Programs
open AsterVec.PagedVectorStorage.Store (doubleUntil)

variable {ε α β : Type}

/-- `read` fails with `short` when fewer bytes are left; `double` is the loop
`while (target < bound) target *= 2` on 64-bit numbers. -/
inductive Call (ε : Type) where
  | read (count : Nat) (short : ε)
  | left
  | double (target bound : Nat)
  | fail (error : ε)

abbrev Reply : Call ε → Type
  | .read _ _ => List UInt8
  | .left => Nat
  | .double _ _ => Nat
  | .fail _ => Empty

abbrev Load (ε α : Type) := Program (Call ε) Reply α

def read (count : Nat) (short : ε) : Load ε (List UInt8) :=
  .call (.read count short) .done

def left : Load ε Nat := .call .left .done

def double (target bound : Nat) : Load ε Nat :=
  .call (.double target bound) .done

def fail (error : ε) : Load ε α := .call (.fail error) Empty.elim

def number (width : Nat) (short : ε) : Load ε Nat := do
  let bytes ← read width short
  pure (valueLE bytes)

def signed (width : Nat) (short : ε) : Load ε Int := do
  let raw ← number width short
  if 2 * raw < 256 ^ width then pure (raw : Int) else pure (raw - (256 ^ width : Nat) : Int)

/-- Load so many items, one after the other. -/
def many (body : Load ε α) : Nat → Load ε (List α)
  | 0 => pure []
  | count + 1 => do
      let item ← body
      let items ← many body count
      pure (item :: items)

/-! The machine -/

inductive Control (ε α : Type) where
  | running (rest : Load ε α)
  | doubling (target bound : Nat) (next : Nat → Load ε α)
  | ended (result : Except ε α)

structure Machine (ε α : Type) where
  control : Control ε α
  bytes : List UInt8

def step : Machine ε α → Machine ε α
  | ⟨.running (.done value), bytes⟩ => ⟨.ended (.ok value), bytes⟩
  | ⟨.running (.call (.read count short) next), bytes⟩ =>
      if count ≤ bytes.length then ⟨.running (next (bytes.take count)), bytes.drop count⟩
      else ⟨.ended (.error short), []⟩
  | ⟨.running (.call .left next), bytes⟩ => ⟨.running (next bytes.length), bytes⟩
  | ⟨.running (.call (.double target bound) next), bytes⟩ =>
      ⟨.doubling target bound next, bytes⟩
  | ⟨.running (.call (.fail error) _), bytes⟩ => ⟨.ended (.error error), bytes⟩
  | ⟨.doubling target bound next, bytes⟩ =>
      if target < bound then ⟨.doubling (target * 2 % 2 ^ 64) bound next, bytes⟩
      else ⟨.running (next target), bytes⟩
  | ⟨.ended result, bytes⟩ => ⟨.ended result, bytes⟩

/-- The machine ends with a result after so many steps. -/
def EndsWith (load : Load ε α) (bytes : List UInt8) (steps : Nat) (result : Except ε α) :
    Prop :=
  (step^[steps] ⟨.running load, bytes⟩).control = .ended result

/-! Results and costs -/

inductive Result (ε α : Type) where
  | done (value : α) (rest : List UInt8)
  | failed (error : ε)
  | endless

/-- What a program ends with. -/
def eval : Load ε α → List UInt8 → Result ε α
  | .done value, bytes => .done value bytes
  | .call (.read count short) next, bytes =>
      if count ≤ bytes.length then eval (next (bytes.take count)) (bytes.drop count)
      else .failed short
  | .call .left next, bytes => eval (next bytes.length) bytes
  | .call (.double target bound) next, bytes =>
      match doubleUntil bound 64 target with
      | some found => eval (next found) bytes
      | none => .endless
  | .call (.fail error) _, _ => .failed error

/-- The doublings of the growth loop. -/
def doublings (bound : Nat) : Nat → Nat → Nat
  | 0, _ => 0
  | fuel + 1, target =>
      if target < bound then doublings bound fuel (target * 2 % 2 ^ 64) + 1 else 0

/-- The steps of a program up to its end. -/
def cost : Load ε α → List UInt8 → Nat
  | .done _, _ => 0
  | .call (.read count _) next, bytes =>
      if count ≤ bytes.length then cost (next (bytes.take count)) (bytes.drop count) + 1 else 1
  | .call .left next, bytes => cost (next bytes.length) bytes + 1
  | .call (.double target bound) next, bytes =>
      match doubleUntil bound 64 target with
      | some found => cost (next found) bytes + (doublings bound 64 target + 2)
      | none => 0
  | .call (.fail _) _, _ => 1

section Calls

variable {count target bound found : Nat} {short : ε} {bytes : List UInt8}

theorem eval_read_of_le {next : List UInt8 → Load ε α} (hle : count ≤ bytes.length) :
    eval (.call (.read count short) next) bytes =
      eval (next (bytes.take count)) (bytes.drop count) :=
  if_pos hle

theorem eval_read_of_lt {next : List UInt8 → Load ε α} (hlt : bytes.length < count) :
    eval (.call (.read count short) next) bytes = .failed short :=
  if_neg (Nat.not_le.mpr hlt)

theorem cost_read_of_le {next : List UInt8 → Load ε α} (hle : count ≤ bytes.length) :
    cost (.call (.read count short) next) bytes =
      cost (next (bytes.take count)) (bytes.drop count) + 1 :=
  if_pos hle

theorem cost_read_of_lt {next : List UInt8 → Load ε α} (hlt : bytes.length < count) :
    cost (.call (.read count short) next) bytes = 1 :=
  if_neg (Nat.not_le.mpr hlt)

theorem eval_double_of_some {next : Nat → Load ε α}
    (hfound : doubleUntil bound 64 target = some found) :
    eval (.call (.double target bound) next) bytes = eval (next found) bytes := by
  rw [eval, hfound]

theorem eval_double_of_none {next : Nat → Load ε α}
    (hnone : doubleUntil bound 64 target = none) :
    eval (.call (.double target bound) next) bytes = .endless := by
  rw [eval, hnone]

theorem cost_double_of_some {next : Nat → Load ε α}
    (hfound : doubleUntil bound 64 target = some found) :
    cost (.call (.double target bound) next) bytes =
      cost (next found) bytes + (doublings bound 64 target + 2) := by
  rw [cost, hfound]

theorem cost_double_of_none {next : Nat → Load ε α}
    (hnone : doubleUntil bound 64 target = none) :
    cost (.call (.double target bound) next) bytes = 0 := by
  rw [cost, hnone]

end Calls

theorem doublings_le (bound : Nat) : ∀ fuel target, doublings bound fuel target ≤ fuel := by
  intro fuel
  induction fuel with
  | zero => exact fun _ => Nat.le_refl 0
  | succ fuel ih =>
      intro target
      unfold doublings
      split
      · exact Nat.succ_le_succ (ih _)
      · exact Nat.zero_le _

/-- The loop ends where `doubleUntil` says. -/
theorem step_doubling {bound : Nat} {next : Nat → Load ε α} {bytes : List UInt8} :
    ∀ {fuel target found : Nat}, doubleUntil bound fuel target = some found →
      step^[doublings bound fuel target + 1] ⟨.doubling target bound next, bytes⟩ =
        ⟨.running (next found), bytes⟩ := by
  intro fuel
  induction fuel with
  | zero =>
      intro target found hfound
      unfold doubleUntil at hfound
      split at hfound
      · cases hfound
      · rename_i hge
        cases hfound
        exact if_neg hge
  | succ fuel ih =>
      intro target found hfound
      unfold doubleUntil at hfound
      unfold doublings
      split at hfound
      · rename_i hlt
        rw [if_pos hlt, Function.iterate_succ_apply]
        change step^[_] (if target < bound then _ else _) = _
        rw [if_pos hlt]
        exact ih hfound
      · rename_i hge
        cases hfound
        rw [if_neg hge]
        exact if_neg hge

/-- The machine ends a program that is done or failed. -/
theorem iterate_eval (load : Load ε α) (bytes : List UInt8) :
    match eval load bytes with
    | .done value rest =>
        step^[cost load bytes] ⟨.running load, bytes⟩ = ⟨.running (.done value), rest⟩
    | .failed error => EndsWith load bytes (cost load bytes) (.error error)
    | .endless => True := by
  induction load generalizing bytes with
  | done value => rfl
  | call c next ih =>
      cases c with
      | read count short =>
          rcases Nat.lt_or_ge bytes.length count with hgt | hle
          · simp only [eval, cost, EndsWith, step, if_neg (Nat.not_le.mpr hgt),
              Function.iterate_one]
          · simp only [eval, cost, EndsWith, step, if_pos hle, Function.iterate_succ_apply]
            exact ih _ _
      | left =>
          unfold eval cost EndsWith
          simp only [Function.iterate_succ_apply, step]
          exact ih _ _
      | double target bound =>
          unfold eval cost EndsWith
          cases hfound : doubleUntil bound 64 target with
          | none => trivial
          | some found =>
              simp only
              rw [Function.iterate_add_apply, Function.iterate_succ_apply]
              simp only [step, step_doubling hfound]
              exact ih _ _
      | fail error => exact rfl

/-! Loops that do not end -/

/-- One doubling of the growth loop. -/
def doubled (target : Nat) : Nat := target * 2 % 2 ^ 64

theorem doubleUntil_eq_none {bound : Nat} : ∀ {fuel target : Nat},
    doubleUntil bound fuel target = none ↔ ∀ k ≤ fuel, doubled^[k] target < bound := by
  intro fuel
  induction fuel with
  | zero =>
      intro target
      unfold doubleUntil
      constructor
      · intro hnone k hk
        rw [Nat.le_zero.mp hk]
        split at hnone
        · assumption
        · cases hnone
      · intro hall
        rw [if_pos (show target < bound from hall 0 (Nat.le_refl 0))]
  | succ fuel ih =>
      intro target
      unfold doubleUntil
      constructor
      · intro hnone k hk
        split at hnone
        · rename_i hlt
          cases k with
          | zero => exact hlt
          | succ k => exact ih.mp hnone k (Nat.le_of_succ_le_succ hk)
        · cases hnone
      · intro hall
        rw [if_pos (show target < bound from hall 0 (Nat.zero_le _))]
        exact ih.mpr fun k hk => hall (k + 1) (Nat.succ_le_succ hk)

theorem doubled_iterate (k target : Nat) :
    doubled^[k + 1] target = target * 2 ^ (k + 1) % 2 ^ 64 := by
  induction k generalizing target with
  | zero => simp [doubled]
  | succ k ih =>
      rw [Function.iterate_succ_apply, ih]
      unfold doubled
      rw [Nat.mod_mul_mod, Nat.pow_succ' (n := k + 1), Nat.mul_assoc]

/-- A loop that 64 doublings have not ended stays at zero. -/
theorem doubled_lt_of_none {bound target : Nat} (hnone : doubleUntil bound 64 target = none)
    (k : Nat) : doubled^[k] target < bound := by
  rcases Nat.lt_or_ge 64 k with hlt | hle
  · have hzero : doubled^[64] target = 0 :=
      (doubled_iterate 63 target).trans (Nat.mul_mod_left _ _)
    have hpos := doubleUntil_eq_none.mp hnone 64 (Nat.le_refl 64)
    obtain ⟨j, rfl⟩ := Nat.exists_eq_add_of_le' (Nat.le_of_lt hlt)
    rw [hzero] at hpos
    rw [Function.iterate_add_apply, hzero, Function.iterate_fixed rfl]
    exact hpos
  · exact doubleUntil_eq_none.mp hnone k hle

/-- In arithmetic: what the 64 doublings do not reach, no doubling reaches. -/
theorem doubleUntil_none_iff {capacity total : Nat} :
    doubleUntil total 64 capacity = none ↔
      capacity < total ∧ ∀ k, capacity * 2 ^ k % 2 ^ 64 < total := by
  rw [doubleUntil_eq_none]
  constructor
  · intro hlt
    have hnone := doubled_lt_of_none (doubleUntil_eq_none.mpr hlt)
    have hzero : capacity < total := hlt 0 (Nat.zero_le _)
    refine ⟨hzero, fun k => ?_⟩
    cases k with
    | zero =>
        rw [Nat.pow_zero, Nat.mul_one]
        exact Nat.lt_of_le_of_lt (Nat.mod_le _ _) hzero
    | succ k =>
        rw [← doubled_iterate]
        exact hnone (k + 1)
  · rintro ⟨hzero, hlt⟩ k -
    cases k with
    | zero => exact hzero
    | succ k =>
        rw [doubled_iterate]
        exact hlt (k + 1)

theorem step_doubling_endless {bound target : Nat} {next : Nat → Load ε α}
    {bytes : List UInt8} (hlt : ∀ k, doubled^[k] target < bound) (n : Nat) :
    step^[n] ⟨.doubling target bound next, bytes⟩ =
      ⟨.doubling (doubled^[n] target) bound next, bytes⟩ := by
  induction n generalizing target with
  | zero => rfl
  | succ n ih =>
      rw [Function.iterate_succ_apply]
      change step^[n] (if target < bound then _ else _) = _
      rw [if_pos (show target < bound from hlt 0)]
      exact ih fun k => hlt (k + 1)

theorem ended_add {machine : Machine ε α} {n : Nat} {result : Except ε α}
    (hended : (step^[n] machine).control = .ended result) (m : Nat) :
    (step^[m + n] machine).control = .ended result := by
  induction m with
  | zero => rwa [Nat.zero_add]
  | succ m ih =>
      rw [Nat.succ_add, Function.iterate_succ_apply']
      generalize step^[m + n] machine = stopped at ih
      rcases stopped with ⟨control, bytes⟩
      cases ih
      rfl

/-- A program that is endless never ends. -/
theorem not_endsWith_of_endless {load : Load ε α} {bytes : List UInt8}
    (hendless : eval load bytes = .endless) (steps : Nat) (result : Except ε α) :
    ¬ EndsWith load bytes steps result := by
  unfold EndsWith
  induction load generalizing bytes steps with
  | done value => cases hendless
  | call c next ih =>
      cases steps with
      | zero => rintro ⟨⟩
      | succ steps =>
          rw [Function.iterate_succ_apply]
          cases c with
          | read count short =>
              rcases Nat.lt_or_ge bytes.length count with hgt | hle
              · rw [eval, if_neg (Nat.not_le.mpr hgt)] at hendless
                cases hendless
              · rw [eval, if_pos hle] at hendless
                rw [step, if_pos hle]
                exact ih _ hendless steps
          | left => exact ih _ hendless steps
          | double target bound =>
              rw [eval] at hendless
              split at hendless
              · rename_i found hfound
                intro hended
                have hlater := ended_add hended (doublings bound 64 target + 1)
                rw [Nat.add_comm, Function.iterate_add_apply] at hlater
                simp only [step, step_doubling hfound] at hlater
                exact ih _ hendless steps hlater
              · rename_i hnone
                rw [step, step_doubling_endless (doubled_lt_of_none hnone)]
                rintro ⟨⟩
          | fail error => cases hendless

/-! Composition -/

theorem eval_bind (load : Load ε α) (follow : α → Load ε β) (bytes : List UInt8) :
    eval (load >>= follow) bytes =
      match eval load bytes with
      | .done value rest => eval (follow value) rest
      | .failed error => .failed error
      | .endless => .endless := by
  induction load generalizing bytes with
  | done value => rfl
  | call c next ih =>
      rw [Program.call_bind]
      cases c with
      | read count short =>
          rcases Nat.lt_or_ge bytes.length count with hlt | hle
          · rw [eval_read_of_lt hlt, eval_read_of_lt hlt]
          · rw [eval_read_of_le hle, eval_read_of_le hle]
            exact ih _ _
      | left => exact ih _ _
      | double target bound =>
          cases hfound : doubleUntil bound 64 target with
          | some found =>
              rw [eval_double_of_some hfound, eval_double_of_some hfound]
              exact ih _ _
          | none => rw [eval_double_of_none hfound, eval_double_of_none hfound]
      | fail error => rfl

theorem cost_bind (load : Load ε α) (follow : α → Load ε β) (bytes : List UInt8) :
    cost (load >>= follow) bytes = cost load bytes +
      match eval load bytes with
      | .done value rest => cost (follow value) rest
      | _ => 0 := by
  induction load generalizing bytes with
  | done value => exact (Nat.zero_add _).symm
  | call c next ih =>
      rw [Program.call_bind]
      cases c with
      | read count short =>
          rcases Nat.lt_or_ge bytes.length count with hlt | hle
          · rw [cost_read_of_lt hlt, cost_read_of_lt hlt, eval_read_of_lt hlt]
            rfl
          · rw [cost_read_of_le hle, cost_read_of_le hle, eval_read_of_le hle, ih,
              Nat.add_right_comm]
      | left =>
          change cost (next bytes.length >>= follow) bytes + 1 = _
          rw [ih, Nat.add_right_comm]
          rfl
      | double target bound =>
          cases hfound : doubleUntil bound 64 target with
          | some found =>
              rw [cost_double_of_some hfound, cost_double_of_some hfound,
                eval_double_of_some hfound, ih, Nat.add_right_comm]
          | none =>
              rw [cost_double_of_none hfound, cost_double_of_none hfound,
                eval_double_of_none hfound]
              rfl
      | fail error => rfl

/-- A program that takes at most one step for each byte it reads, and `slack` more when it
is done or `failing` more when it fails; it is endless only if `Endless`. -/
def Frugal (Endless : Prop) (slack failing : Int) (load : Load ε α) : Prop :=
  ∀ bytes, match eval load bytes with
    | .done _ rest => (cost load bytes : Int) + rest.length ≤ bytes.length + slack
    | .failed _ => (cost load bytes : Int) ≤ bytes.length + failing
    | .endless => Endless

namespace Frugal

variable {Endless : Prop} {slack slack' failing failing' : Int}

theorem pure (value : α) (failing : Int) :
    Frugal (ε := ε) Endless 0 failing (Pure.pure value) := by
  intro bytes
  change ((0 : Nat) : Int) + bytes.length ≤ bytes.length + 0
  omega

theorem fail (error : ε) (slack : Int) :
    Frugal Endless slack 1 (fail error : Load ε α) := by
  intro bytes
  change ((1 : Nat) : Int) ≤ bytes.length + 1
  omega

theorem read (count : Nat) (short : ε) : Frugal Endless (1 - count) 1 (read count short) := by
  intro bytes
  rcases Nat.lt_or_ge bytes.length count with hlt | hle
  · rw [Loading.read, eval_read_of_lt hlt, cost_read_of_lt hlt]
    change ((1 : Nat) : Int) ≤ bytes.length + 1
    omega
  · rw [Loading.read, eval_read_of_le hle, cost_read_of_le hle]
    change ((0 + 1 : Nat) : Int) + (bytes.drop count).length ≤ bytes.length + (1 - count)
    rw [List.length_drop]
    omega

theorem left (failing : Int) : Frugal (ε := ε) Endless 1 failing left := by
  intro bytes
  change ((0 + 1 : Nat) : Int) + bytes.length ≤ bytes.length + 1
  omega

theorem double (target bound : Nat) (failing : Int) :
    Frugal (ε := ε) True 66 failing (double target bound) := by
  intro bytes
  have hle := doublings_le bound 64 target
  unfold Loading.double
  cases hfound : doubleUntil bound 64 target with
  | some found =>
      rw [eval_double_of_some hfound, cost_double_of_some hfound]
      change ((0 + (doublings bound 64 target + 2) : Nat) : Int) + bytes.length ≤
        bytes.length + 66
      omega
  | none =>
      rw [eval_double_of_none hfound]
      trivial

theorem mono {load : Load ε α} (hload : Frugal Endless slack failing load)
    (hslack : slack ≤ slack') (hfailing : failing ≤ failing') :
    Frugal Endless slack' failing' load := by
  intro bytes
  have hbytes := hload bytes
  split at hbytes
  · omega
  · omega
  · exact hbytes

theorem bind {load : Load ε α} {follow : α → Load ε β}
    (hload : Frugal Endless slack failing load)
    (hfollow : ∀ value, Frugal Endless slack' failing' (follow value)) :
    Frugal Endless (slack + slack') (max failing (slack + failing')) (load >>= follow) := by
  intro bytes
  have hbytes := hload bytes
  rw [eval_bind, cost_bind]
  cases heval : eval load bytes with
  | done value rest =>
      have hrest := hfollow value rest
      rw [heval] at hbytes
      simp only at hbytes ⊢
      split at hrest
      · omega
      · omega
      · exact hrest
  | failed error =>
      rw [heval] at hbytes
      simp only at hbytes ⊢
      omega
  | endless =>
      rw [heval] at hbytes
      exact hbytes

theorem ite {condition : Prop} [Decidable condition] {load load' : Load ε α}
    (hload : Frugal Endless slack failing load)
    (hload' : Frugal Endless slack' failing' load') :
    Frugal Endless (max slack slack') (max failing failing')
      (if condition then load else load') := by
  split
  · exact hload.mono (Int.le_max_left _ _) (Int.le_max_left _ _)
  · exact hload'.mono (Int.le_max_right _ _) (Int.le_max_right _ _)

/-- A loop whose body pays for itself does so as a whole. -/
theorem many {body : Load ε α} (hbody : Frugal Endless slack failing body) (hslack : slack ≤ 0)
    (count : Nat) : Frugal Endless 0 failing (many body count) := by
  induction count with
  | zero => exact pure [] failing
  | succ count ih =>
      exact (hbody.bind fun item => ih.bind fun items => pure (item :: items) failing).mono
        (by omega) (by omega)

theorem number (width : Nat) (short : ε) :
    Frugal Endless (1 - width) (max 1 (1 - width)) (number width short) :=
  ((read width short).bind fun bytes => pure (valueLE bytes) 0).mono (by omega) (by omega)

theorem signed (width : Nat) (short : ε) :
    Frugal Endless (1 - width) (max 1 (1 - width)) (signed width short) :=
  ((number width short).bind fun raw => (pure (raw : Int) 0).ite (pure _ 0)).mono
    (by omega) (by omega)

end Frugal

/-- A frugal program ends in a number of steps that the bytes bound, unless it is
endless. -/
theorem Frugal.ends {Endless : Prop} {slack failing : Int} {load : Load ε α}
    (hload : Frugal Endless slack failing load) {bytes : List UInt8}
    (hends : eval load bytes ≠ .endless) :
    ∃ steps : Nat, (steps : Int) ≤ bytes.length + max slack failing + 1 ∧
      ∃ result, EndsWith load bytes steps result := by
  have hbytes := hload bytes
  have hiterate := iterate_eval load bytes
  split at hbytes
  · rename_i value rest heval
    rw [heval] at hiterate
    refine ⟨1 + cost load bytes, by omega, .ok value, ?_⟩
    unfold EndsWith
    rw [Function.iterate_add_apply, hiterate]
    rfl
  · rename_i error heval
    rw [heval] at hiterate
    exact ⟨cost load bytes, by omega, _, hiterate⟩
  · rename_i heval
    exact absurd heval hends

theorem Frugal.not_endless {slack failing : Int} {load : Load ε α}
    (hload : Frugal False slack failing load) (bytes : List UInt8) :
    eval load bytes ≠ .endless := by
  intro hendless
  have hbytes := hload bytes
  rw [hendless] at hbytes
  exact hbytes

/-- A program that is frugal with a loop in front of it is endless when that is. -/
theorem eval_bind_endless {load : Load ε α} {follow : α → Load ε β}
    (hfollow : ∀ value, ∃ slack failing, Frugal False slack failing (follow value))
    (bytes : List UInt8) :
    eval (load >>= follow) bytes = .endless ↔ eval load bytes = .endless := by
  rw [eval_bind]
  cases heval : eval load bytes with
  | done value rest =>
      obtain ⟨slack, failing, hfrugal⟩ := hfollow value
      exact iff_of_false (hfrugal.not_endless rest) nofun
  | failed error => exact iff_of_false nofun nofun
  | endless => exact iff_of_true rfl rfl

/-- The same with the frugal program in front. -/
theorem eval_endless_bind {load : Load ε α} {slack failing : Int}
    (hload : Frugal False slack failing load) (follow : α → Load ε β) (bytes : List UInt8) :
    eval (load >>= follow) bytes = .endless ↔
      ∃ value rest, eval load bytes = .done value rest ∧
        eval (follow value) rest = .endless := by
  have hnot := hload.not_endless bytes
  rw [eval_bind]
  cases heval : eval load bytes with
  | done value rest =>
      constructor
      · exact fun hendless => ⟨value, rest, rfl, hendless⟩
      · rintro ⟨value', rest', heq, hendless⟩
        cases heq
        exact hendless
  | failed error =>
      refine iff_of_false nofun ?_
      rintro ⟨value, rest, ⟨⟩, -⟩
  | endless => exact absurd heval hnot

/-! Reading back -/

/-- The program reads exactly `front` and is done with `value`. -/
def Yields (load : Load ε α) (front : List UInt8) (value : α) : Prop :=
  ∀ rest, eval load (front ++ rest) = .done value rest

namespace Yields

theorem pure (value : α) : Yields (ε := ε) (Pure.pure value) [] value := fun _ => rfl

theorem bind {load : Load ε α} {follow : α → Load ε β} {front back : List UInt8} {value : α}
    {result : β} (hload : Yields load front value) (hfollow : Yields (follow value) back result) :
    Yields (load >>= follow) (front ++ back) result := by
  intro rest
  rw [eval_bind, List.append_assoc, hload]
  exact hfollow rest

/-- A program that reads nothing, in front of one that does. -/
theorem seq {load : Load ε α} {follow : α → Load ε β} {front : List UInt8} {value : α}
    {result : β} (hload : Yields load [] value) (hfollow : Yields (follow value) front result) :
    Yields (load >>= follow) front result :=
  hload.bind hfollow

/-- A program that reads nothing, behind one that does. -/
theorem last {load : Load ε α} {follow : α → Load ε β} {front : List UInt8} {value : α}
    {result : β} (hload : Yields load front value) (hfollow : Yields (follow value) [] result) :
    Yields (load >>= follow) front result := by
  intro rest
  rw [eval_bind, hload]
  exact hfollow rest

/-- A value made of what was read. -/
theorem map {load : Load ε α} {front : List UInt8} {value : α} (hload : Yields load front value)
    (f : α → β) : Yields (load >>= fun value => Pure.pure (f value)) front (f value) := by
  intro rest
  rw [eval_bind, hload]
  rfl

theorem read {count : Nat} {front : List UInt8} (hlength : front.length = count) (short : ε) :
    Yields (read count short) front front := by
  intro rest
  have hle : count ≤ (front ++ rest).length := by
    rw [List.length_append]
    omega
  unfold Loading.read
  rw [eval_read_of_le hle, ← hlength, List.take_left, List.drop_left]
  rfl

theorem number {width value : Nat} (hvalue : value < 256 ^ width) (short : ε) :
    Yields (number width short) (putLE width value) value := by
  have hread := (read (putLE_length width value) short).map valueLE
  rwa [valueLE_putLE hvalue] at hread

theorem signed {width : Nat} {value : Int} (hlow : -(256 ^ width : Nat) ≤ 2 * value)
    (hhigh : 2 * value < (256 ^ width : Nat)) (short : ε) :
    Yields (signed width short) (putInt width value) value := by
  intro rest
  have hget := getInt_putInt_append rest hlow hhigh
  have hlt : (value % (256 ^ width : Nat)).toNat < 256 ^ width := by
    have hpow : 0 < 256 ^ width := Nat.pow_pos (by decide)
    have := Int.emod_lt_of_pos value (Int.natCast_pos.mpr hpow)
    omega
  unfold Loading.signed putInt
  rw [eval_bind, number hlt short rest]
  rw [getInt, putInt, StateT.run_bind, getLE_putLE_append rest hlt] at hget
  simp only [Option.bind_eq_bind, Option.bind_some] at hget ⊢
  split at hget
  · rename_i hsmall
    have heq := (Prod.mk.inj (Option.some.inj hget)).1
    rw [if_pos hsmall]
    exact congrArg (fun value => Result.done value rest) heq
  · rename_i hlarge
    have heq := (Prod.mk.inj (Option.some.inj hget)).1
    rw [if_neg hlarge]
    exact congrArg (fun value => Result.done value rest) heq

theorem many {γ : Type} {body : Load ε α} {put : γ → List UInt8} {f : γ → α} (items : List γ)
    (hbody : ∀ item ∈ items, Yields body (put item) (f item)) :
    Yields (many body items.length) (items.flatMap put) (items.map f) := by
  induction items with
  | nil => exact pure []
  | cons item items ih =>
      have hitems := ih fun other hother => hbody other (List.mem_cons_of_mem _ hother)
      exact (hbody item List.mem_cons_self).bind (hitems.map (f item :: ·))

/-- Asking for the bytes left before a program whose bytes are long enough. -/
theorem left {follow : Nat → Load ε α} {front : List UInt8} {value : α}
    (hfollow : ∀ bytesLeft, front.length ≤ bytesLeft → Yields (follow bytesLeft) front value) :
    Yields (left >>= follow) front value := by
  intro rest
  have hlong : front.length ≤ (front ++ rest).length := by
    rw [List.length_append]
    omega
  exact hfollow _ hlong rest

/-- The machine ends with the value. -/
theorem ends {load : Load ε α} {front : List UInt8} {value : α}
    (hload : Yields load front value) :
    ∃ steps, EndsWith load front steps (.ok value) := by
  have hiterate := iterate_eval load front
  have heval := hload []
  rw [List.append_nil] at heval
  rw [heval] at hiterate
  refine ⟨1 + cost load front, ?_⟩
  unfold EndsWith
  rw [Function.iterate_add_apply, hiterate]
  rfl

end Yields

end AsterVec.Loading

import Mathlib.Logic.Relation

/-!
Programs that run against a state through calls.  A program is the tree of the
calls it makes; what a call does is given apart, by a relation, so that one
program can be read over a full state and over the part of it that concerns one
of its users.
-/

namespace AsterVec.Programs

/-- A program that answers with `α`: done, or one call and what follows each of
its replies. -/
inductive Program (Call : Type) (Reply : Call → Type) (α : Type) where
  | done (value : α)
  | call (c : Call) (next : Reply c → Program Call Reply α)

namespace Program

variable {Call : Type} {Reply : Call → Type} {α β γ : Type}

def bind : Program Call Reply α → (α → Program Call Reply β) → Program Call Reply β
  | done value, follow => follow value
  | call c next, follow => call c fun reply => (next reply).bind follow

instance : Monad (Program Call Reply) where
  pure := done
  bind := bind

/-- One call. -/
def perform (c : Call) : Program Call Reply (Reply c) := call c done

theorem call_bind (c : Call) (next : Reply c → Program Call Reply α)
    (follow : α → Program Call Reply β) :
    (call c next >>= follow) = call c fun reply => next reply >>= follow := rfl

@[simp] theorem bind_pure (p : Program Call Reply α) : (p >>= pure) = p := by
  induction p with
  | done value => rfl
  | call c next ih => exact congrArg (call c) (funext ih)

@[simp] theorem bind_assoc (p : Program Call Reply α) (first : α → Program Call Reply β)
    (second : β → Program Call Reply γ) :
    (p >>= first >>= second) = p >>= fun value => first value >>= second := by
  induction p with
  | done value => rfl
  | call c next ih => exact congrArg (call c) (funext ih)

/-- The value of a program that is done. -/
def result? : Program Call Reply α → Option α
  | done value => some value
  | call _ _ => none

theorem eq_done_of_result? {p : Program Call Reply α} {value : α}
    (hresult : p.result? = some value) : p = done value := by
  cases p with
  | done found =>
      cases hresult
      rfl
  | call c next => cases hresult

/-- Run a program, each call answered by `exec`. -/
def run {State : Type} (exec : (c : Call) → State → Reply c × State) :
    Program Call Reply α → State → α × State
  | done value, s => (value, s)
  | call c next, s => (next (exec c s).1).run exec (exec c s).2

theorem run_bind {State : Type} (exec : (c : Call) → State → Reply c × State)
    (p : Program Call Reply α) (follow : α → Program Call Reply β) (s : State) :
    (p >>= follow).run exec s = (follow (p.run exec s).1).run exec (p.run exec s).2 := by
  induction p generalizing s with
  | done value => rfl
  | call c next ih => exact ih _ _

/-- A program and its state after at most `n` calls. -/
def advance {State : Type} (exec : (c : Call) → State → Reply c × State) :
    Nat → Program Call Reply α → State → Program Call Reply α × State
  | 0, p, s => (p, s)
  | _ + 1, done value, s => (done value, s)
  | n + 1, call c next, s => advance exec n (next (exec c s).1) (exec c s).2

end Program

/-- What calls do: when one may be made, and the replies and states it can lead
to. -/
structure Handler (Call : Type) (Reply : Call → Type) (State : Type) where
  Allowed : Call → State → Prop
  Step : (c : Call) → State → Reply c → State → Prop

section Safe

variable {Call : Type} {Reply : Call → Type} {α β State : Type}
  (handler : Handler Call Reply State) (Stops : State → Prop)

/-- Every call the program makes is allowed, the program can be stopped before
each of them, and where it ends `Post` holds. -/
def Safe : Program Call Reply α → (α → State → Prop) → State → Prop
  | .done value, Post, s => Post value s
  | .call c next, Post, s =>
      Stops s ∧ handler.Allowed c s ∧
        ∀ reply s', handler.Step c s reply s' → Safe (next reply) Post s'

variable {handler Stops}

theorem Safe.mono {p : Program Call Reply α} {Post Post' : α → State → Prop} {s : State}
    (hsafe : Safe handler Stops p Post s)
    (hpost : ∀ value s', Post value s' → Post' value s') :
    Safe handler Stops p Post' s := by
  induction p generalizing s with
  | done value => exact hpost _ _ hsafe
  | call c next ih =>
      obtain ⟨hstops, hallowed, hnext⟩ := hsafe
      exact ⟨hstops, hallowed, fun reply s' hstep => ih reply (hnext reply s' hstep)⟩

theorem Safe.and {p : Program Call Reply α} {Post Post' : α → State → Prop} {s : State}
    (hsafe : Safe handler Stops p Post s) (hsafe' : Safe handler Stops p Post' s) :
    Safe handler Stops p (fun value s' => Post value s' ∧ Post' value s') s := by
  induction p generalizing s with
  | done value => exact ⟨hsafe, hsafe'⟩
  | call c next ih =>
      obtain ⟨hstops, hallowed, hnext⟩ := hsafe
      obtain ⟨-, -, hnext'⟩ := hsafe'
      exact ⟨hstops, hallowed,
        fun reply s' hstep => ih reply (hnext reply s' hstep) (hnext' reply s' hstep)⟩

theorem Safe.bind {p : Program Call Reply α} {follow : α → Program Call Reply β}
    {Post : β → State → Prop} {s : State}
    (hsafe : Safe handler Stops p (fun value => Safe handler Stops (follow value) Post) s) :
    Safe handler Stops (p >>= follow) Post s := by
  induction p generalizing s with
  | done value => exact hsafe
  | call c next ih =>
      obtain ⟨hstops, hallowed, hnext⟩ := hsafe
      exact ⟨hstops, hallowed, fun reply s' hstep => ih reply (hnext reply s' hstep)⟩

/-- The rule of a single call. -/
theorem Safe.perform {c : Call} {follow : Reply c → Program Call Reply β}
    {Post : β → State → Prop} {s : State} (hstops : Stops s)
    (hallowed : handler.Allowed c s)
    (hnext : ∀ reply s', handler.Step c s reply s' →
      Safe handler Stops (follow reply) Post s') :
    Safe handler Stops (Program.perform c >>= follow) Post s :=
  ⟨hstops, hallowed, hnext⟩

end Safe

section Secure

variable {Call : Type} {Reply : Call → Type} {α β State : Type}
  (Env : State → State → Prop) (Step : (c : Call) → State → Reply c → State → Prop)

/-- An assertion the steps of others keep. -/
def Stable (Assertion : State → Prop) : Prop :=
  ∀ s s', Assertion s → Env s s' → Assertion s'

/-- A program run among the steps of others: before each call an assertion holds
that these keep, and so does one that implies `Post` at the end. -/
def Secure : Program Call Reply α → (α → State → Prop) → State → Prop
  | .done value, Post, s =>
      ∃ Assertion, Stable Env Assertion ∧ Assertion s ∧ ∀ s, Assertion s → Post value s
  | .call c next, Post, s =>
      ∃ Assertion, Stable Env Assertion ∧ Assertion s ∧
        ∀ s reply s', Assertion s → Step c s reply s' → Secure (next reply) Post s'

variable {Env Step}

theorem Secure.env {p : Program Call Reply α} {Post : α → State → Prop} {s s' : State}
    (hsecure : Secure Env Step p Post s) (henv : Env s s') : Secure Env Step p Post s' := by
  cases p with
  | done value =>
      obtain ⟨Assertion, hstable, hs, hpost⟩ := hsecure
      exact ⟨Assertion, hstable, hstable s s' hs henv, hpost⟩
  | call c next =>
      obtain ⟨Assertion, hstable, hs, hnext⟩ := hsecure
      exact ⟨Assertion, hstable, hstable s s' hs henv, hnext⟩

theorem Secure.step {c : Call} {next : Reply c → Program Call Reply α}
    {Post : α → State → Prop} {s s' : State} {reply : Reply c}
    (hsecure : Secure Env Step (.call c next) Post s) (hstep : Step c s reply s') :
    Secure Env Step (next reply) Post s' := by
  obtain ⟨Assertion, -, hs, hnext⟩ := hsecure
  exact hnext s reply s' hs hstep

theorem Secure.post {value : α} {Post : α → State → Prop} {s : State}
    (hsecure : Secure Env Step (.done value) Post s) : Post value s := by
  obtain ⟨Assertion, -, hs, hpost⟩ := hsecure
  exact hpost s hs

/-- The rule of a single call. -/
theorem Secure.perform {c : Call} {follow : Reply c → Program Call Reply β}
    {Post : β → State → Prop} {s : State} (Assertion : State → Prop)
    (hstable : Stable Env Assertion) (hs : Assertion s)
    (hnext : ∀ s reply s', Assertion s → Step c s reply s' →
      Secure Env Step (follow reply) Post s') :
    Secure Env Step (Program.perform c >>= follow) Post s :=
  ⟨Assertion, hstable, hs, hnext⟩

theorem Secure.done {value : α} {Post : α → State → Prop} {s : State}
    (Assertion : State → Prop) (hstable : Stable Env Assertion) (hs : Assertion s)
    (hpost : ∀ s, Assertion s → Post value s) :
    Secure Env Step (pure value : Program Call Reply α) Post s :=
  ⟨Assertion, hstable, hs, hpost⟩

theorem Secure.mono {p : Program Call Reply α} {Post Post' : α → State → Prop} {s : State}
    (hsecure : Secure Env Step p Post s) (hpost : ∀ value s', Post value s' → Post' value s') :
    Secure Env Step p Post' s := by
  induction p generalizing s with
  | done value =>
      obtain ⟨Assertion, hstable, hs, hdone⟩ := hsecure
      exact ⟨Assertion, hstable, hs, fun s hs => hpost _ _ (hdone s hs)⟩
  | call c next ih =>
      obtain ⟨Assertion, hstable, hs, hnext⟩ := hsecure
      exact ⟨Assertion, hstable, hs, fun s reply s' hs hstep =>
        ih reply (hnext s reply s' hs hstep)⟩

theorem Secure.bind {p : Program Call Reply α} {follow : α → Program Call Reply β}
    {Post : β → State → Prop} {s : State}
    (hsecure : Secure Env Step p (fun value => Secure Env Step (follow value) Post) s) :
    Secure Env Step (p >>= follow) Post s := by
  induction p generalizing s with
  | done value => exact hsecure.post
  | call c next ih =>
      obtain ⟨Assertion, hstable, hs, hnext⟩ := hsecure
      exact ⟨Assertion, hstable, hs, fun s reply s' hs hstep =>
        ih reply (hnext s reply s' hs hstep)⟩

end Secure

section Lift

variable {Call Call' : Type} {Reply : Call → Type} {Reply' : Call' → Type} {α β : Type}

/-- Read a program over a larger set of calls. -/
def Program.lift (inject : Call → Call') (back : (c : Call) → Reply' (inject c) → Reply c) :
    Program Call Reply α → Program Call' Reply' α
  | done value => done value
  | call c next => call (inject c) fun reply => (next (back c reply)).lift inject back

theorem Program.lift_bind (inject : Call → Call')
    (back : (c : Call) → Reply' (inject c) → Reply c) (p : Program Call Reply α)
    (follow : α → Program Call Reply β) :
    (p >>= follow).lift inject back =
      p.lift inject back >>= fun value => (follow value).lift inject back := by
  induction p with
  | done value => rfl
  | call c next ih => exact congrArg (call (inject c)) (funext fun reply => ih _)

/-- Each call of the program is one of these. -/
def Program.All (IsOne : Call → Prop) : Program Call Reply α → Prop
  | done _ => True
  | call c next => IsOne c ∧ ∀ reply, (next reply).All IsOne

theorem Program.All.mono {IsOne IsOne' : Call → Prop} {p : Program Call Reply α}
    (hall : p.All IsOne) (hone : ∀ c, IsOne c → IsOne' c) : p.All IsOne' := by
  induction p with
  | done value => exact trivial
  | call c next ih => exact ⟨hone c hall.1, fun reply => ih reply (hall.2 reply)⟩

theorem Program.All.bind {IsOne : Call → Prop} {p : Program Call Reply α}
    {follow : α → Program Call Reply β} (hall : p.All IsOne)
    (hfollow : ∀ value, (follow value).All IsOne) : (p >>= follow).All IsOne := by
  induction p with
  | done value => exact hfollow value
  | call c next ih => exact ⟨hall.1, fun reply => ih reply (hall.2 reply)⟩

end Lift

end AsterVec.Programs

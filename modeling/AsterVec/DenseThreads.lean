import AsterVec.DenseOwners
import AsterVec.DenseWrites

/-!
Any number of writes at once.  The lock of a caller id lets one call write it at a
time; between two calls of a program any other thread can take a step.
-/

namespace AsterVec.Dense

open AsterVec.IdTypes
open AsterVec.Programs

variable {V Row : Type}

/-- `writers r` is what is left of the call that holds the lock of `r`. -/
structure Machine (V Row : Type) where
  st : State V Row
  owner : Nat → Option Nat
  writers : Nat → Option (Prog V Row Bool)

inductive WriteCall (V Row : Type) where
  | upsert (kind : Kind) (write : Write V Row)
  | delete (r : Nat)

namespace WriteCall

def r : WriteCall V Row → Nat
  | upsert _ write => write.r
  | delete r => r

def program : WriteCall V Row → Prog V Row Bool
  | upsert kind write => writeDense 2 kind write
  | delete r => deleteDense r

end WriteCall

namespace Machine

def slice (m : Machine V Row) (r : Nat) : Slice V Row := sliceOf r m.owner m.st

/-- One step of one writer. -/
inductive WriterStep : Machine V Row → Machine V Row → Prop where
  | begins {m : Machine V Row} (call : WriteCall V Row) (hr : call.r ≤ kMaxRealId)
      (hfree : m.writers call.r = none) :
      WriterStep m { m with
        writers := Function.update m.writers call.r (some call.program) }
  | calls {m : Machine V Row} {r : Nat} {c : Call V Row}
      {next : Reply c → Prog V Row Bool} (hwriter : m.writers r = some (.call c next)) :
      WriterStep m
        ⟨(exec c m.st).2, ownerAfter r c (exec c m.st).1 m.owner,
          Function.update m.writers r (some (next (exec c m.st).1))⟩
  | ends {m : Machine V Row} {r : Nat} {ok : Bool}
      (hwriter : m.writers r = some (.done ok)) :
      WriterStep m { m with writers := Function.update m.writers r none }

/-- The invariant of the machine. -/
structure Sound (m : Machine V Row) : Prop where
  good : Good m.owner m.st
  inv : ∀ r < 2 ^ 63, (m.slice r).Inv r
  idle : ∀ r < 2 ^ 63, m.writers r = none → (m.slice r).Idle r
  locked : ∀ r p, m.writers r = some p → r < 2 ^ 63
  safe : ∀ r p, m.writers r = some p →
    SafeWrite r p (fun ok s => ok = true ∧ s.Idle r) (m.slice r)

/-- A new store without writers. -/
def empty (V Row : Type) : Machine V Row := ⟨State.empty V Row, fun _ => none, fun _ => none⟩

theorem sound_empty : (empty V Row).Sound := by
  have hreverse : ∀ r i, ((empty V Row).slice r).reverse i = none := by
    intro r i
    change (if owns _ r i then (∅ : AList fun _ : Nat => Nat).lookup i else none) = none
    rw [AList.lookup_empty, ite_self]
  have hvectors : ∀ r i, ((empty V Row).slice r).vectors i = none := by
    intro r i
    change (if owns _ r i then none else none) = none
    rw [ite_self]
  have hrows : ∀ r i, ((empty V Row).slice r).rows i = none := by
    intro r i
    change (if owns _ r i then none else none) = none
    rw [ite_self]
  have hmapping : ∀ r, ((empty V Row).slice r).mapping = none := by
    intro r
    change (∅ : AList fun _ : Nat => Nat).lookup r = none
    exact AList.lookup_empty r
  have hdead : ∀ r i, ((empty V Row).slice r).tombstoned i = false := by
    intro r i
    change (owns _ r i && decide (i ∈ (∅ : Finset Nat))) = false
    simp
  refine ⟨⟨IdTables.bloomCovers_empty, Nat.le_refl _, fun _ _ => rfl, ?_, ?_, ?_⟩, ?_, ?_, ?_,
    ?_⟩
  · rintro i r ⟨⟩
  · rintro i r ⟨⟩
  · exact fun i _ _ => ⟨rfl, rfl, AList.lookup_empty i, rfl⟩
  · intro r _
    refine ⟨?_, ?_, ?_, ?_, ?_, ?_, ?_⟩
    · exact owns_iff.mpr (.inl rfl)
    · intro i hi hne
      rcases owns_iff.mp hi with heq | heq
      · exact absurd heq hne
      · cases heq
    · exact fun i _ => ⟨hdead r i, hvectors r i, hreverse r i, hrows r i⟩
    · intro m hm
      exact absurd ((hmapping r).symm.trans hm) (by simp)
    · intro i x hx
      rw [hreverse] at hx
      cases hx
    · intro i hi
      rw [hdead] at hi
      cases hi
    · intro m hm
      exact absurd ((hmapping r).symm.trans hm) (by simp)
  · intro r _ _
    refine ⟨?_, ?_, ?_⟩
    · intro m hm
      exact absurd ((hmapping r).symm.trans hm) (by simp)
    · intro i _ hi
      rw [hvectors] at hi
      cases hi
    · intro i hi
      rw [hrows] at hi
      cases hi
  · rintro r p ⟨⟩
  · rintro r p ⟨⟩

/-- What a step of a writer does to a slice: nothing, or one allowed step. -/
theorem Sound.slice_step {m m' : Machine V Row} (hsound : m.Sound)
    (hstep : WriterStep m m') {r : Nat} (hr : r < 2 ^ 63) :
    m'.slice r = m.slice r ∨ ∃ (c : Call V Row) (reply : Reply c),
      Slice.Allowed r c (m.slice r) ∧ Slice.Step r c (m.slice r) reply (m'.slice r) := by
  cases hstep with
  | begins => exact .inl rfl
  | ends => exact .inl rfl
  | calls hwriter =>
      rename_i r' c next
      have hr' := hsound.locked r' _ hwriter
      obtain ⟨-, hallowed, -⟩ := hsound.safe r' _ hwriter
      rcases eq_or_ne r r' with rfl | hne
      · exact .inr ⟨c, _, hallowed, sliceOf_step hsound.good hr hallowed⟩
      · exact .inl (sliceOf_other hsound.good hr' hr hne (hsound.inv r' hr') hallowed)

/-- Every step of a writer keeps the invariant. -/
theorem Sound.step {m m' : Machine V Row} (hsound : m.Sound) (hstep : WriterStep m m') :
    m'.Sound := by
  have hslices := fun r hr => hsound.slice_step hstep (r := r) hr
  have hinv : ∀ r < 2 ^ 63, (m'.slice r).Inv r := by
    intro r hr
    rcases hslices r hr with hsame | ⟨c, reply, hallowed, htaken⟩
    · rw [hsame]
      exact hsound.inv r hr
    · exact (hsound.inv r hr).step hallowed htaken
  cases hstep with
  | begins call hmax hfree =>
      have hcall : call.r < 2 ^ 63 := (le_kMaxRealId_iff _).mp hmax
      refine ⟨hsound.good, hinv, ?_, ?_, ?_⟩
      · intro r hr hnone
        rcases eq_or_ne r call.r with rfl | hne
        · exact hsound.idle _ hr hfree
        · exact hsound.idle r hr ((Function.update_of_ne hne _ _).symm.trans hnone)
      · intro r p hp
        rcases eq_or_ne r call.r with rfl | hne
        · exact hcall
        · exact hsound.locked r p ((Function.update_of_ne hne _ _).symm.trans hp)
      · intro r p hp
        rcases eq_or_ne r call.r with rfl | hne
        · change Function.update m.writers call.r _ call.r = some p at hp
          rw [Function.update_self] at hp
          cases hp
          have hready := hsound.idle _ hcall hfree
          cases call with
          | upsert kind write => exact safe_writeDense (hsound.inv _ hcall) hready kind
          | delete r => exact safe_deleteDense (hsound.inv _ hcall) hready
        · exact hsound.safe r p ((Function.update_of_ne hne _ _).symm.trans hp)
  | calls hwriter =>
      rename_i x c next
      have hx := hsound.locked x _ hwriter
      obtain ⟨-, hallowed, hnext⟩ := hsound.safe x _ hwriter
      have hother : ∀ r < 2 ^ 63, r ≠ x → sliceOf r (ownerAfter x c (exec c m.st).1 m.owner)
          (exec c m.st).2 = m.slice r := fun r hr hne =>
        sliceOf_other hsound.good hx hr hne (hsound.inv x hx) hallowed
      refine ⟨good_exec hsound.good hx (hsound.inv x hx) hallowed, hinv, ?_, ?_, ?_⟩
      · intro r hr hnone
        rcases eq_or_ne r x with rfl | hne
        · exact absurd ((Function.update_self _ _ _).symm.trans hnone) (by simp)
        · change (sliceOf r _ _).Idle r
          rw [hother r hr hne]
          exact hsound.idle r hr ((Function.update_of_ne hne _ _).symm.trans hnone)
      · intro r p hp
        rcases eq_or_ne r x with rfl | hne
        · exact hx
        · exact hsound.locked r p ((Function.update_of_ne hne _ _).symm.trans hp)
      · intro r p hp
        rcases eq_or_ne r x with rfl | hne
        · change Function.update m.writers r _ r = some p at hp
          rw [Function.update_self] at hp
          cases hp
          exact hnext _ _ (sliceOf_step hsound.good hx hallowed)
        · have hp' := (Function.update_of_ne hne _ _).symm.trans hp
          change SafeWrite r p _ (sliceOf r _ _)
          rw [hother r (hsound.locked r p hp') hne]
          exact hsound.safe r p hp'
  | ends hwriter =>
      rename_i x ok
      refine ⟨hsound.good, hinv, ?_, ?_, ?_⟩
      · intro r hr hnone
        rcases eq_or_ne r x with rfl | hne
        · exact (hsound.safe r _ hwriter).2
        · exact hsound.idle r hr ((Function.update_of_ne hne _ _).symm.trans hnone)
      · intro r p hp
        rcases eq_or_ne r x with rfl | hne
        · exact absurd ((Function.update_self _ _ _).symm.trans hp) (by simp)
        · exact hsound.locked r p ((Function.update_of_ne hne _ _).symm.trans hp)
      · intro r p hp
        rcases eq_or_ne r x with rfl | hne
        · exact absurd ((Function.update_self _ _ _).symm.trans hp) (by simp)
        · exact hsound.safe r p ((Function.update_of_ne hne _ _).symm.trans hp)

end Machine

end AsterVec.Dense

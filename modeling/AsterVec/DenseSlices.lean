import AsterVec.DenseStore

/-!
The part of a dense store that belongs to one caller id: its mapping, and what the
store keeps for the id itself and for the update ids allocated for it.  A call that
writes the id is safe over its slice alone.
-/

namespace AsterVec.Dense

open AsterVec.IdTypes
open AsterVec.Programs

variable {V Row : Type}

structure Slice (V Row : Type) where
  mapping : Option Nat
  owned : Nat → Bool
  tombstoned : Nat → Bool
  reverse : Nat → Option Nat
  vectors : Nat → Option V
  rows : Nat → Option Row

namespace Slice

/-- The internal id that the caller id `r` resolves to. -/
def current (s : Slice V Row) (r : Nat) : Nat := s.mapping.getD r

/-- The caller id has a vector. -/
def Alive (s : Slice V Row) (r : Nat) : Prop :=
  s.tombstoned (s.current r) = false ∧ (s.vectors (s.current r)).isSome = true

def allocate (s : Slice V Row) (n : Nat) : Slice V Row :=
  { s with owned := Function.update s.owned n true }

/-- The reverse entries without the one of the mapping. -/
def cleared (s : Slice V Row) : Nat → Option Nat :=
  s.mapping.elim s.reverse fun previous => Function.update s.reverse previous none

def record (s : Slice V Row) (r i : Nat) : Slice V Row :=
  { s with mapping := some i, reverse := Function.update s.cleared i (some r) }

def forget (s : Slice V Row) : Slice V Row :=
  { s with mapping := none, reverse := s.cleared }

def tombstone (s : Slice V Row) (i : Nat) : Slice V Row :=
  { s with tombstoned := Function.update s.tombstoned i true }

def store (s : Slice V Row) (i : Nat) (vector : V) : Slice V Row :=
  { s with vectors := Function.update s.vectors i (some vector) }

def setRow (s : Slice V Row) (i : Nat) (row : Option Row) : Slice V Row :=
  { s with rows := Function.update s.rows i row }

/-- What a call that writes `r` may do, and when. -/
def Allowed (r : Nat) : Call V Row → Slice V Row → Prop
  | .resolveInternal r', _ => r' = r
  | .isTombstoned i, s | .vectorExists i, s | .getRow i, s | .putRow i _, s
  | .deleteRow i, s => s.owned i = true
  | .recordUpdateMapping r' i, s =>
      r' = r ∧ s.owned i = true ∧ i ≠ r ∧ s.tombstoned i = false ∧
        (s.vectors (s.current r)).isSome = true ∧
        (s.tombstoned r = false → (s.vectors i).isSome = true)
  | .forgetUpdateMapping r', s =>
      r' = r ∧ ∀ m, s.mapping = some m → s.tombstoned m = true ∧ s.tombstoned r = true
  | .tombstone i, s =>
      s.owned i = true ∧ (s.vectors i).isSome = true ∧
        (s.mapping = some i → s.tombstoned r = true)
  | .storeVector i _, s =>
      s.owned i = true ∧ s.vectors i = none ∧ s.tombstoned i = false
  | .resolveReal _, _ | .readVector _, _ | .putRows _, _ => False
  | _, _ => True

/-- The update id `n` becomes the slice's. -/
def Allocates (s : Slice V Row) (n : Nat) (s' : Slice V Row) : Prop :=
  s.owned n = false ∧ 2 ^ 63 ≤ n ∧ s' = s.allocate n

/-- What a call that writes `r` does to its slice. -/
def Step (r : Nat) : (c : Call V Row) → Slice V Row → Reply c → Slice V Row → Prop
  | .resolveInternal _, s, reply, s' => reply = s.current r ∧ s' = s
  | .isTombstoned i, s, reply, s' => reply = s.tombstoned i ∧ s' = s
  | .vectorExists i, s, reply, s' => reply = (s.vectors i).isSome ∧ s' = s
  | .getRow i, s, reply, s' => reply = s.rows i ∧ s' = s
  | .allocateUpdateId, s, reply, s' => s.Allocates reply s'
  | .recordUpdateMapping _ i, s, _, s' => s' = s.record r i
  | .forgetUpdateMapping _, s, _, s' => s' = s.forget
  | .tombstone i, s, _, s' => s' = s.tombstone i
  | .storeVector i vector, s, _, s' => s' = s.store i vector
  | .putRow i row, s, _, s' => s' = s.setRow i (some row)
  | .deleteRow i, s, _, s' => s' = s.setRow i none
  | _, s, _, s' => s' = s

def handler (V Row : Type) (r : Nat) : Handler (Call V Row) Reply (Slice V Row) :=
  ⟨Allowed r, Step r⟩

/-- What holds of a slice at every moment. -/
structure Inv (r : Nat) (s : Slice V Row) : Prop where
  owned_self : s.owned r = true
  owned_update : ∀ i, s.owned i = true → i ≠ r → 2 ^ 63 ≤ i
  bare : ∀ i, s.owned i = false →
    s.tombstoned i = false ∧ s.vectors i = none ∧ s.reverse i = none ∧ s.rows i = none
  mapped : ∀ m, s.mapping = some m → s.owned m = true ∧ m ≠ r ∧ s.reverse m = some r
  reversed : ∀ i x, s.reverse i = some x → x = r ∧ s.mapping = some i
  located : ∀ i, s.tombstoned i = true → (s.vectors i).isSome = true
  alive : ∀ m, s.mapping = some m → s.tombstoned r = false →
    (s.vectors m).isSome = true ∧ s.tombstoned m = false

/-- What holds of a slice while no call writes its id. -/
structure Idle (r : Nat) (s : Slice V Row) : Prop where
  mapped : ∀ m, s.mapping = some m →
    s.tombstoned r = true ∧ (s.vectors m).isSome = true ∧ s.tombstoned m = false
  replaced : ∀ i, i ≠ s.current r → (s.vectors i).isSome = true → s.tombstoned i = true
  rows : ∀ i, (s.rows i).isSome = true → i = s.current r ∧ s.Alive r

/-- Only the mapping has a reverse entry. -/
theorem Inv.cleared {r : Nat} {s : Slice V Row} (hinv : s.Inv r) (j : Nat) :
    s.cleared j = none := by
  unfold Slice.cleared
  cases hmap : s.mapping with
  | none =>
      cases hrev : s.reverse j with
      | none => exact hrev
      | some x =>
          have hx := (hinv.reversed j x hrev).2
          rw [hmap] at hx
          cases hx
  | some previous =>
      change Function.update s.reverse previous none j = none
      rw [Function.update_apply]
      split
      · rfl
      · rename_i hne
        cases hrev : s.reverse j with
        | none => rfl
        | some x =>
            have hx := (hinv.reversed j x hrev).2
            rw [hmap] at hx
            cases hx
            exact absurd rfl hne

theorem record_reverse (s : Slice V Row) (r i j : Nat) :
    (s.record r i).reverse j = if j = i then some r else s.cleared j :=
  Function.update_apply _ _ _ _

theorem Inv.allocate {r : Nat} {s s' : Slice V Row} (hinv : s.Inv r) {n : Nat}
    (halloc : s.Allocates n s') : s'.Inv r := by
  obtain ⟨hnew, hupdate, rfl⟩ := halloc
  have hne : n ≠ r := by
    rintro rfl
    rw [hinv.owned_self] at hnew
    cases hnew
  refine ⟨?_, ?_, ?_, ?_, hinv.reversed, hinv.located, hinv.alive⟩
  · exact (Function.update_of_ne hne.symm _ _).trans hinv.owned_self
  · intro i hi hir
    rcases eq_or_ne i n with rfl | hne'
    · exact hupdate
    · exact hinv.owned_update i ((Function.update_of_ne hne' _ _).symm.trans hi) hir
  · intro i hi
    rcases eq_or_ne i n with rfl | hne'
    · exact hinv.bare i hnew
    · exact hinv.bare i ((Function.update_of_ne hne' _ _).symm.trans hi)
  · intro m hm
    obtain ⟨howned, hmr, hrev⟩ := hinv.mapped m hm
    refine ⟨?_, hmr, hrev⟩
    change Function.update s.owned n true m = true
    rw [Function.update_apply, howned, ite_self]

theorem ne_of_owned {s : Slice V Row} {i j : Nat} (howned : s.owned i = true)
    (hforeign : s.owned j = false) : j ≠ i := by
  rintro rfl
  rw [howned] at hforeign
  cases hforeign

theorem Inv.record {r i : Nat} {s : Slice V Row} (hinv : s.Inv r) (howned : s.owned i = true)
    (hne : i ≠ r) (hdead : s.tombstoned i = false)
    (hnew : s.tombstoned r = false → (s.vectors i).isSome = true) : (s.record r i).Inv r := by
  refine ⟨hinv.owned_self, hinv.owned_update, ?_, ?_, ?_, hinv.located, ?_⟩
  · intro j hj
    obtain ⟨hdead', hvec, -, hrow⟩ := hinv.bare j hj
    refine ⟨hdead', hvec, ?_, hrow⟩
    rw [record_reverse, if_neg (ne_of_owned howned hj)]
    exact hinv.cleared j
  · rintro m ⟨⟩
    exact ⟨howned, hne, by rw [record_reverse, if_pos rfl]⟩
  · intro j x hrev
    rw [record_reverse] at hrev
    split at hrev
    · rename_i hji
      cases hrev
      subst hji
      exact ⟨rfl, rfl⟩
    · rw [hinv.cleared j] at hrev
      cases hrev
  · rintro m ⟨⟩ hr
    exact ⟨hnew hr, hdead⟩

theorem Inv.forget {r : Nat} {s : Slice V Row} (hinv : s.Inv r) : s.forget.Inv r := by
  refine ⟨hinv.owned_self, hinv.owned_update, ?_, (by rintro m ⟨⟩), ?_, hinv.located,
    (by rintro m ⟨⟩)⟩
  · intro j hj
    obtain ⟨hdead, hvec, -, hrow⟩ := hinv.bare j hj
    exact ⟨hdead, hvec, hinv.cleared j, hrow⟩
  · intro j x hrev
    rw [show s.forget.reverse j = none from hinv.cleared j] at hrev
    cases hrev

theorem Inv.tombstone {r i : Nat} {s : Slice V Row} (hinv : s.Inv r)
    (howned : s.owned i = true) (hlocated : (s.vectors i).isSome = true)
    (hmap : s.mapping = some i → s.tombstoned r = true) : (s.tombstone i).Inv r := by
  refine ⟨hinv.owned_self, hinv.owned_update, ?_, hinv.mapped, hinv.reversed, ?_, ?_⟩
  · intro j hj
    obtain ⟨hdead, hrest⟩ := hinv.bare j hj
    exact ⟨(Function.update_of_ne (ne_of_owned howned hj) _ _).trans hdead, hrest⟩
  · intro j hj
    rcases eq_or_ne j i with rfl | hji
    · exact hlocated
    · exact hinv.located j ((Function.update_of_ne hji _ _).symm.trans hj)
  · intro m hm hr
    have hri : r ≠ i := by
      rintro rfl
      rw [show (s.tombstone r).tombstoned r = true from Function.update_self _ _ _] at hr
      cases hr
    have hr' : s.tombstoned r = false := (Function.update_of_ne hri _ _).symm.trans hr
    have hmi : m ≠ i := by
      rintro rfl
      rw [hmap hm] at hr'
      cases hr'
    obtain ⟨hvec, hdead⟩ := hinv.alive m hm hr'
    exact ⟨hvec, (Function.update_of_ne hmi _ _).trans hdead⟩

theorem Inv.store {r i : Nat} {s : Slice V Row} (hinv : s.Inv r) (howned : s.owned i = true)
    (vector : V) : (s.store i vector).Inv r := by
  have hgrown : ∀ j, (s.vectors j).isSome = true →
      ((s.store i vector).vectors j).isSome = true := by
    intro j hj
    rcases eq_or_ne j i with rfl | hji
    · change (Function.update s.vectors j (some vector) j).isSome = true
      rw [Function.update_self]
      rfl
    · change (Function.update s.vectors i (some vector) j).isSome = true
      rw [Function.update_of_ne hji]
      exact hj
  refine ⟨hinv.owned_self, hinv.owned_update, ?_, hinv.mapped, hinv.reversed,
    fun j hj => hgrown j (hinv.located j hj), ?_⟩
  · intro j hj
    obtain ⟨hdead, hvec, hrest⟩ := hinv.bare j hj
    exact ⟨hdead, (Function.update_of_ne (ne_of_owned howned hj) _ _).trans hvec, hrest⟩
  · intro m hm hr
    obtain ⟨hvec, hdead⟩ := hinv.alive m hm hr
    exact ⟨hgrown m hvec, hdead⟩

theorem Inv.setRow {r i : Nat} {s : Slice V Row} (hinv : s.Inv r) (howned : s.owned i = true)
    (row : Option Row) : (s.setRow i row).Inv r := by
  refine ⟨hinv.owned_self, hinv.owned_update, ?_, hinv.mapped, hinv.reversed, hinv.located,
    hinv.alive⟩
  intro j hj
  obtain ⟨hdead, hvec, hrev, hrow⟩ := hinv.bare j hj
  exact ⟨hdead, hvec, hrev, (Function.update_of_ne (ne_of_owned howned hj) _ _).trans hrow⟩

/-- A step that is allowed keeps the invariant. -/
theorem Inv.step {r : Nat} {s s' : Slice V Row} (hinv : s.Inv r) {c : Call V Row}
    {reply : Reply c} (hallowed : Allowed r c s) (hstep : Step r c s reply s') :
    s'.Inv r := by
  cases c with
  | resolveInternal | isTombstoned | vectorExists | getRow =>
      obtain ⟨-, rfl⟩ := hstep
      exact hinv
  | resolveReal | readVector | putRows => exact hallowed.elim
  | loadEntryPoint | casEntryPoint | promote | linkUpper | getEdges | addEdges
  | deleteEdges =>
      cases hstep
      exact hinv
  | allocateUpdateId => exact hinv.allocate hstep
  | recordUpdateMapping r' i =>
      obtain ⟨rfl, howned, hne, hdead, -, hnew⟩ := hallowed
      cases hstep
      exact hinv.record howned hne hdead hnew
  | forgetUpdateMapping r' =>
      cases hstep
      exact hinv.forget
  | tombstone i =>
      obtain ⟨howned, hlocated, hmap⟩ := hallowed
      cases hstep
      exact hinv.tombstone howned hlocated hmap
  | storeVector i vector =>
      cases hstep
      exact hinv.store hallowed.1 vector
  | putRow i row =>
      cases hstep
      exact hinv.setRow hallowed (some row)
  | deleteRow i =>
      cases hstep
      exact hinv.setRow hallowed none

end Slice

end AsterVec.Dense

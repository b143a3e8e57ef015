import AsterVec.LoggedStores

/-!
The owners of the ids of a store with a log, over the calls and the replay, and in a store
opened at its checkpoint.
-/

namespace AsterVec.Dense

open AsterVec.IdTypes
open AsterVec.Programs
open Prog

variable {V Row α : Type}

/-! What a step keeps of the owners -/

theorem ownerAfter_of_ne {owner : Nat → Option Nat} (c : Call V Row) (st : State V Row)
    (r : Nat) {i : Nat} (hne : i ≠ st.tables.nextUpdateInternalId) :
    ownerAfter r c (exec c st).1 owner i = owner i := by
  cases c with
  | allocateUpdateId => exact Function.update_of_ne hne _ _
  | _ => rfl

theorem next_le_exec (c : Call V Row) (st : State V Row) :
    st.tables.nextUpdateInternalId ≤ (exec c st).2.tables.nextUpdateInternalId := by
  cases c with
  | allocateUpdateId => exact Nat.le_succ _
  | recordUpdateMapping r i => exact (st.tables.recordUpdateMapping_maps r i).2.2.2.ge
  | forgetUpdateMapping r => exact (forgetUpdateMapping_maps st.tables r).2.2.2.ge
  | _ => exact Nat.le_refl _

theorem observeUpdateId_eq (st : State V Row) (i : Nat) :
    (execLogged (.observe i) st).2 =
      st.raised (max st.tables.nextUpdateInternalId (i + 1)) := by
  change ({ st with tables := st.tables.observeUpdateId i } : State V Row) = _
  unfold IdTables.observeUpdateId State.raised
  split
  · rename_i hle
    rw [max_eq_right (Nat.le_succ_of_le hle)]
  · rename_i hlt
    rw [max_eq_left (Nat.not_le.mp hlt)]

/-- The owners of the ids in use, of a store and of its checkpoint, and what the log knows of
them.  Ids from `bound` on are not in use. -/
structure Tracked (checkpoint st : State V Row) (log : List (LogRecord V Row))
    (owner₀ owner : Nat → Option Nat) (bound : Nat) : Prop where
  quiet : Quiet owner₀ checkpoint
  older : ∀ i < checkpoint.tables.nextUpdateInternalId, owner i = owner₀ i
  below : checkpoint.tables.nextUpdateInternalId ≤ bound
  good : Good owner (st.raised bound)
  inv : ∀ r < 2 ^ 63, (sliceOf r owner st).Inv r
  mapped : ∀ r i, st.tables.updatedRealToInternal.lookup r = some i → r < 2 ^ 63
  real : ∀ record ∈ log, record.realId < 2 ^ 63
  logged : ∀ record ∈ log, record.Inserts →
    owns owner record.realId record.internalId = true

/-- The versions of an id at the checkpoint. -/
def savedSlice (owner₀ : Nat → Option Nat) (checkpoint : State V Row) (r : Nat) :
    Slice V Row :=
  (sliceOf r owner₀ checkpoint).bare

namespace Tracked

variable {checkpoint st : State V Row} {log : List (LogRecord V Row)}
  {owner₀ owner : Nat → Option Nat} {bound r : Nat}

theorem tidy (htracked : Tracked checkpoint st log owner₀ owner bound) (hr : r < 2 ^ 63) :
    (savedSlice owner₀ checkpoint r).Tidy r :=
  (htracked.quiet.idle r hr).tidy (htracked.quiet.inv r hr)

/-- A call of a program on `r`. -/
theorem call {c : Call V Row}
    (htracked : Tracked checkpoint st log owner₀ owner st.tables.nextUpdateInternalId)
    (hr : r < 2 ^ 63) (hallowed : Slice.Allowed r c (sliceOf r owner st)) :
    Tracked checkpoint (exec c st).2 log owner₀ (ownerAfter r c (exec c st).1 owner)
      (exec c st).2.tables.nextUpdateInternalId := by
  obtain ⟨hcheckpoint, holder, hbound, hgood, hinv, hmapped, hreal, hlogged⟩ := htracked
  rw [State.raised_next] at hgood
  refine ⟨hcheckpoint, fun i hi => ?_, hbound.trans (next_le_exec c st),
    good_exec hgood hr (hinv r hr) hallowed, fun x hx => ?_, mapped_exec hr hallowed hmapped,
    hreal, fun record hrecord hinserts => ?_⟩
  · rw [ownerAfter_of_ne c st r (hi.trans_le hbound).ne]
    exact holder i hi
  · rcases eq_or_ne x r with rfl | hne
    · exact (hinv x hx).step hallowed (sliceOf_step hgood hx hallowed)
    · rw [sliceOf_other hgood hr hx hne (hinv r hr) hallowed]
      exact hinv x hx
  · have howns := owns_iff.mp (hlogged record hrecord hinserts)
    refine owns_iff.mpr (howns.imp_right fun howner => ?_)
    rw [ownerAfter_of_ne c st r ?_]
    · exact howner
    · intro hnext
      rw [hgood.unused _ hnext.ge] at howner
      cases howner

/-- A call of the replay. -/
theorem replayCall {c : Call V Row} (htracked : Tracked checkpoint st log owner₀ owner bound)
    (hold : c ≠ .allocateUpdateId) (hr : r < 2 ^ 63)
    (hallowed : Slice.Allowed r c (sliceOf r owner st)) :
    Tracked checkpoint (exec c st).2 log owner₀ owner bound ∧
      Slice.Step r c (sliceOf r owner st) (exec c st).1
        (sliceOf r owner (exec c st).2) ∧
      ∀ x < 2 ^ 63, x ≠ r → sliceOf x owner (exec c st).2 = sliceOf x owner st := by
  obtain ⟨hcheckpoint, holder, hbound, hgood, hinv, hmapped, hreal, hlogged⟩ := htracked
  obtain ⟨hreply, hraised, -⟩ := exec_raised hold st bound
  have hallowed' : Slice.Allowed r c (sliceOf r owner (st.raised bound)) := hallowed
  have hinv' : (sliceOf r owner (st.raised bound)).Inv r := hinv r hr
  have hstep := sliceOf_step hgood hr hallowed'
  have hothers := fun x (hx : x < 2 ^ 63) (hne : x ≠ r) =>
    sliceOf_other hgood hr hx hne hinv' hallowed'
  have hgood' := good_exec hgood hr hinv' hallowed'
  rw [ownerAfter_of_kept hold, hraised] at hstep hgood'
  rw [hreply] at hstep
  have hothers' : ∀ x < 2 ^ 63, x ≠ r →
      sliceOf x owner (exec c st).2 = sliceOf x owner st := by
    intro x hx hne
    have hsame := hothers x hx hne
    rw [ownerAfter_of_kept hold, hraised] at hsame
    exact hsame
  refine ⟨⟨hcheckpoint, holder, hbound, hgood', fun x hx => ?_,
    mapped_exec hr hallowed hmapped, hreal, hlogged⟩, hstep, hothers'⟩
  rcases eq_or_ne x r with rfl | hne
  · exact (hinv x hx).step hallowed hstep
  · rw [hothers' x hx hne]
    exact hinv x hx

theorem raised (htracked : Tracked checkpoint st log owner₀ owner bound) (n : Nat) :
    Tracked checkpoint (st.raised n) log owner₀ owner bound :=
  ⟨htracked.quiet, htracked.older, htracked.below, htracked.good, htracked.inv,
    htracked.mapped, htracked.real, htracked.logged⟩

end Tracked

/-! The slices of a store opened at a checkpoint -/

/-- The owned ids and the rows of a slice are replaced. -/
theorem Slice.Inv.reown {s : Slice V Row} {r : Nat} (hinv : s.Inv r) {owned : Nat → Bool}
    {rows : Nat → Option Row} (hmore : ∀ i, s.owned i = true → owned i = true)
    (hupdate : ∀ i, owned i = true → i ≠ r → 2 ^ 63 ≤ i)
    (hrows : ∀ i, owned i = false → rows i = none) :
    Slice.Inv r { s with owned := owned, rows := rows } := by
  refine ⟨hmore r hinv.owned_self, hupdate, fun i hi => ?_, fun m hm => ?_, hinv.reversed,
    hinv.located, hinv.alive⟩
  · have hold : s.owned i = false := by
      cases hold : s.owned i with
      | false => rfl
      | true => exact absurd ((hmore i hold).symm.trans hi) (by simp)
    obtain ⟨hlive, hvector, hreverse, -⟩ := hinv.bare i hold
    exact ⟨hlive, hvector, hreverse, hrows i hi⟩
  · obtain ⟨howned, hrest⟩ := hinv.mapped m hm
    exact ⟨hmore m howned, hrest⟩

section Restored

variable {checkpoint st base : State V Row} {owner₀ owner : Nat → Option Nat} {r : Nat}

/-- Nothing was kept for the ids that are owned since. -/
theorem sliceOf_restored (hquiet : Quiet owner₀ checkpoint)
    (hrestores : base.Restores checkpoint st)
    (holder : ∀ i < checkpoint.tables.nextUpdateInternalId, owner i = owner₀ i)
    (hupdate : ∀ i r, owner i = some r → 2 ^ 63 ≤ i) :
    (∀ i, owns owner₀ r i = true → owns owner r i = true) ∧
      sliceOf r owner base = { sliceOf r owner₀ checkpoint with
        owned := owns owner r
        rows := fun i => if owns owner r i then st.rows i else none } := by
  have hkept : ∀ i x, owner₀ i = some x → owner i = some x := by
    intro i x howner
    rw [holder i ?_, howner]
    by_contra hlt
    rw [hquiet.good.unused i (Nat.not_lt.mp hlt)] at howner
    cases howner
  have hmore : ∀ i, owns owner₀ r i = true → owns owner r i = true :=
    fun i hi => owns_iff.mpr ((owns_iff.mp hi).imp_right (hkept i r))
  have hnone : ∀ i, owns owner r i = true → owns owner₀ r i = false →
      checkpoint.tables.isTombstoned i = false ∧ checkpoint.vectors i = none ∧
        checkpoint.tables.updatedInternalToReal.lookup i = none := by
    intro i hi hi₀
    have hnot : ¬(i = r ∨ owner₀ i = some r) := by
      rw [← owns_iff, hi₀]
      exact Bool.false_ne_true
    have howner := (owns_iff.mp hi).resolve_left fun h => hnot (.inl h)
    have hfree : owner₀ i = none := by
      cases howner₀ : owner₀ i with
      | none => rfl
      | some x =>
          have hsame := (hkept i x howner₀).symm.trans howner
          exact absurd (.inr (howner₀.trans hsame)) hnot
    obtain ⟨hlive, hvector, hlookup, -⟩ := hquiet.good.untouched i (hupdate i r howner) hfree
    exact ⟨hlive, hvector, hlookup⟩
  have hmasked : ∀ {β : Type} (f : Nat → Option β),
      (∀ i, owns owner r i = true → owns owner₀ r i = false → f i = none) →
      (fun i => if owns owner r i then f i else none) =
        fun i => if owns owner₀ r i then f i else none := by
    intro β f hf
    funext i
    cases hi₀ : owns owner₀ r i with
    | true => rw [hmore i hi₀]
    | false =>
        cases hi : owns owner r i with
        | true => exact hf i hi hi₀
        | false => rfl
  refine ⟨hmore, ?_⟩
  unfold sliceOf
  rw [hrestores.tables, hrestores.vectors, hrestores.rows]
  congr 1
  · funext i
    change (owns owner r i && checkpoint.tables.isTombstoned i) =
      (owns owner₀ r i && checkpoint.tables.isTombstoned i)
    cases hi₀ : owns owner₀ r i with
    | true => rw [hmore i hi₀]
    | false =>
        cases hi : owns owner r i with
        | true => rw [(hnone i hi hi₀).1, Bool.and_false, Bool.and_false]
        | false => rfl
  · simp only [hquiet.lookup_reloaded]
    exact hmasked _ fun i hi hi₀ => (hnone i hi hi₀).2.2
  · exact hmasked _ fun i hi hi₀ => (hnone i hi hi₀).2.1

end Restored

end AsterVec.Dense

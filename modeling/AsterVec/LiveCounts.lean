import AsterVec.NothingLost

/-!
The count of live ids that a store with a log keeps beside its ids.
-/

namespace AsterVec.Dense.LoggedStore

open AsterVec.IdTypes
open AsterVec.Programs
open Prog

variable {V Row : Type} {g : LoggedStore V Row} {owner₀ owner : Nat → Option Nat}
  {tallies : Nat →₀ Int} {r : Nat}

/-- An id adds one to the count, or nothing. -/
theorem Open.tally_cases (hopen : g.Open owner₀ owner tallies) (r : Nat) :
    tallies r = 0 ∨ tallies r = 1 := by
  rcases Nat.lt_or_ge r (2 ^ 63) with hr | hr
  · cases hrunning : g.running r with
    | none =>
        rw [hopen.tallies.free r hr hrunning]
        exact countOf_cases _
    | some t =>
        obtain ⟨-, rfl, hsafe⟩ := hopen.safe r t hrunning
        cases hrest : t.rest with
        | done ok =>
            rw [hrest] at hsafe
            rw [show tallies t.call.r = _ from hsafe.tally]
            exact countOf_cases _
        | call c next =>
            rw [hrest] at hsafe
            exact hsafe.1.tally
  · exact .inl (hopen.tallies.beyond r hr)

/-- The ids that added one to the count. -/
theorem Open.liveCount_eq (hopen : g.Open owner₀ owner tallies) :
    g.liveCount = tallies.support.card := by
  rw [← hopen.tallies.total]
  unfold Finsupp.sum
  rw [Finset.card_eq_sum_ones, Nat.cast_sum]
  refine Finset.sum_congr rfl fun r hr => ?_
  exact (hopen.tally_cases r).resolve_left (Finsupp.mem_support_iff.mp hr)

theorem Open.vectorCount_eq (hopen : g.Open owner₀ owner tallies) :
    g.vectorCount = tallies.support.card := by
  unfold vectorCount
  rw [hopen.liveCount_eq]
  split
  · exact Int.toNat_natCast _
  · rename_i hzero
    exact (Nat.eq_zero_of_not_pos fun hpos => hzero (Int.natCast_pos.mpr hpos)).symm

/-- `VectorCount` counts the ids for which `GetVector` finds a vector.  With no call under way
it is exact, also after kills; a call under way makes a difference of one at most. -/
theorem vectorCount_counts (hruns : g.Runs) (hopen : g.recovery = none) :
    ∃ live : Finset Nat,
      (∀ r, r ∈ live ↔ r ≤ kMaxRealId ∧ g.running r = none ∧
        ∃ vector, ((getDense r).run exec g.st).1 = .ok vector) ∧
      live.card ≤ g.vectorCount ∧
      ∀ busy : Finset Nat, (∀ r, g.running r ≠ none → r ∈ busy) →
        g.vectorCount ≤ live.card + busy.card := by
  obtain ⟨owner₀, owner, tallies, h⟩ := hruns.sound.opened_of hopen
  have hlive : ∀ r, r ∈ tallies.support ∧ g.running r = none ↔ r ≤ kMaxRealId ∧
      g.running r = none ∧ ∃ vector, ((getDense r).run exec g.st).1 = .ok vector := by
    intro r
    rw [Finsupp.mem_support_iff]
    constructor
    · rintro ⟨htally, hfree⟩
      have hr : r < 2 ^ 63 := by
        by_contra hr
        exact htally (h.tallies.beyond r (Nat.not_lt.mp hr))
      refine ⟨(le_kMaxRealId_iff r).mpr hr, hfree, ?_⟩
      rw [(h.finds hr hfree).1]
      rw [h.tallies.free r hr hfree] at htally
      cases hdoc : docAfter g.counted r with
      | none => exact absurd (by rw [hdoc]; rfl) htally
      | some doc => exact ⟨doc.1, rfl⟩
    · rintro ⟨hr, hfree, vector, hfound⟩
      replace hr := (le_kMaxRealId_iff r).mp hr
      refine ⟨?_, hfree⟩
      rw [(h.finds hr hfree).1] at hfound
      rw [h.tallies.free r hr hfree]
      cases hdoc : docAfter g.counted r with
      | none =>
          rw [hdoc] at hfound
          cases hfound
      | some doc => exact one_ne_zero
  classical
  refine ⟨tallies.support.filter fun r => g.running r = none, fun r => ?_, ?_,
    fun busy hbusy => ?_⟩
  · rw [Finset.mem_filter]
    exact hlive r
  · rw [h.vectorCount_eq]
    exact Finset.card_filter_le _ _
  · rw [h.vectorCount_eq, ← Finset.card_filter_add_card_filter_not fun r => g.running r = none]
    refine Nat.add_le_add_left (Finset.card_le_card fun r hr => ?_) _
    exact hbusy r (Finset.mem_filter.mp hr).2

/-- The process is killed in the middle of an update of the only id. -/
theorem vectorCount_counts_kill :
    (killedUpdate.opened Journal.lone).vectorCount = 1 ∧
      ∃ live : Finset Nat,
        (∀ r, r ∈ live ↔ r ≤ kMaxRealId ∧
          (killedUpdate.opened Journal.lone).running r = none ∧
          ∃ vector, ((getDense r).run exec (killedUpdate.opened Journal.lone).st).1 =
            .ok vector) ∧
        live.card = 1 := by
  obtain ⟨live, hmem, hle, hbusy⟩ :=
    vectorCount_counts (killedUpdate_runs.opened Journal.lone) rfl
  refine ⟨by decide, live, hmem, Nat.le_antisymm hle (hbusy ∅ fun r hr => absurd rfl hr)⟩

end AsterVec.Dense.LoggedStore

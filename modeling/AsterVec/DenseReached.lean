import AsterVec.DenseHistories

/-!
The states that calls lead to, one after another, and what a version is in them.
-/

namespace AsterVec.Dense

open AsterVec.IdTypes
open AsterVec.Programs
open Prog

variable {V Row : Type}

/-- The caller id has a vector. -/
def AliveIn (st : State V Row) (r : Nat) : Prop :=
  st.tables.isTombstoned (st.tables.resolveInternal r) = false ∧
    Located st (st.tables.resolveInternal r)

/-- The neighbors that a write links its node to. -/
def WriteCall.selected : WriteCall V Row → List Nat
  | .upsert _ write => write.plan.selected
  | .delete _ => []

/-- What a bulk build makes of its vectors: the layer-0 graph over their numbers, the
nodes above layer 0 and the entry point. -/
structure BulkBuild (V : Type) where
  vectors : List V
  edges : Nat → List Nat
  upper : Nat → Bool
  entry : Nat
  int : vectors.length < 2 ^ 31
  edges_lt : ∀ i, ∀ j ∈ edges i, j < vectors.length
  entry_lt : entry < vectors.length

namespace State

/-- Vector `i` is stored for the id `i`. -/
def bulkBuild (st : State V Row) (build : BulkBuild V) : State V Row :=
  { st with
    vectors := fun i => (build.vectors[i]?).or (st.vectors i)
    edges := build.edges
    entryPoint := some build.entry
    upper := build.upper }

/-- A clean close and open: the vectors, rows and edges are as they were. -/
def reopen (st : State V Row) : State V Row := { st with tables := st.tables.reload }

end State

/-- The states of a store after successful calls.  The neighbors of a new node were
found by a search, so they have vectors. -/
inductive Reached : State V Row → Prop where
  | empty : Reached (State.empty V Row)
  | wrote {st : State V Row} (call : WriteCall V Row) (hreached : Reached st)
      (hr : call.r ≤ kMaxRealId) (hselected : ∀ n ∈ call.selected, Located st n) :
      Reached (call.program.run exec st).2
  | payload {st : State V Row} (call : PayloadCall Row) (hreached : Reached st)
      (hr : call.r ≤ kMaxRealId) : Reached ((call.program (V := V)).run exec st).2
  | payloads {st : State V Row} (items : List (Nat × Row)) (hreached : Reached st)
      (hr : ∀ item ∈ items, item.1 ≤ kMaxRealId) :
      Reached ((setPayloadBatch items).run exec st).2
  | bulkBuilt {st : State V Row} (build : BulkBuild V) (hreached : Reached st)
      (hempty : st.entryPoint = none) : Reached (st.bulkBuild build)
  | reopened {st : State V Row} (hreached : Reached st) : Reached st.reopen

namespace Quiet

variable {owner : Nat → Option Nat} {st : State V Row} {r i : Nat}

theorem current_eq (hquiet : Quiet owner st) (r : Nat) :
    (sliceOf r owner st).current r = st.tables.resolveInternal r :=
  (IdTables.resolveInternal_eq hquiet.good.covers r).symm

theorem slice_at (st : State V Row) (howns : owns owner r i = true) :
    (sliceOf r owner st).tombstoned i = st.tables.isTombstoned i ∧
      (sliceOf r owner st).vectors i = st.vectors i ∧
      (sliceOf r owner st).rows i = st.rows i := by
  refine ⟨?_, if_pos howns, if_pos howns⟩
  change (owns owner r i && st.tables.isTombstoned i) = _
  rw [howns, Bool.true_and]

theorem alive_iff (hquiet : Quiet owner st) (hr : r < 2 ^ 63) :
    (sliceOf r owner st).Alive r ↔ AliveIn st r := by
  have howned := (hquiet.inv r hr).owned_current
  unfold Slice.Alive AliveIn Located
  rw [hquiet.current_eq] at howned ⊢
  obtain ⟨hdead, hvec, -⟩ := slice_at st howned
  rw [hdead, hvec]

/-- The caller id that an internal id belongs to. -/
theorem owned_of_located (hquiet : Quiet owner st) (hlocated : Located st i) :
    ∃ r < 2 ^ 63, owns owner r i = true := by
  rcases Nat.lt_or_ge i (2 ^ 63) with hdirect | hupdate
  · exact ⟨i, hdirect, owns_iff.mpr (.inl rfl)⟩
  · cases howner : owner i with
    | some r => exact ⟨r, hquiet.good.owner_real i r howner, owns_iff.mpr (.inr howner)⟩
    | none =>
        obtain ⟨-, hnone, -⟩ := hquiet.good.untouched i hupdate howner
        unfold Located at hlocated
        rw [hnone] at hlocated
        cases hlocated

/-- Current versions are translated back to their ids. -/
theorem resolveReal_resolveInternal (hquiet : Quiet owner st) (hr : r < 2 ^ 63) :
    st.tables.resolveReal (st.tables.resolveInternal r) = r := by
  have hinv := hquiet.inv r hr
  rw [← hquiet.current_eq]
  unfold Slice.current IdTables.resolveReal
  cases hmap : (sliceOf r owner st).mapping with
  | none =>
      change (if isDirectId r = true then r else _) = r
      rw [if_pos ((isDirectId_iff r).mpr hr)]
  | some m =>
      obtain ⟨howned, hne, hreverse⟩ := hinv.mapped m hmap
      have hupdate := hinv.owned_update m howned hne
      change (if isDirectId m = true then m else _) = r
      rw [if_neg (by rw [(isDirectId_eq_false_iff m).mpr hupdate]; simp)]
      have hlookup : st.tables.updatedInternalToReal.lookup m = some r := by
        rw [← hreverse]
        exact (if_pos howned).symm
      change (st.tables.updatedInternalToReal.lookup m).getD m = r
      rw [hlookup]
      rfl

/-- A node that is not tombstoned is the current version of an id that is alive. -/
theorem version (hquiet : Quiet owner st) (hlocated : Located st i)
    (hlive : st.tables.isTombstoned i = false) :
    ∃ r < 2 ^ 63, st.tables.resolveInternal r = i ∧ AliveIn st r := by
  obtain ⟨r, hr, howns⟩ := hquiet.owned_of_located hlocated
  obtain ⟨hdead, hvec, -⟩ := slice_at st howns
  have hcurrent : i = (sliceOf r owner st).current r := by
    by_contra hne
    have hreplaced := (hquiet.idle r hr).replaced i hne (by rw [hvec]; exact hlocated)
    rw [hdead, hlive] at hreplaced
    cases hreplaced
  rw [hquiet.current_eq] at hcurrent
  refine ⟨r, hr, hcurrent.symm, ?_⟩
  unfold AliveIn
  rw [← hcurrent]
  exact ⟨hlive, hlocated⟩

/-- Only current versions of ids that are alive have a row. -/
theorem version_of_row (hquiet : Quiet owner st) (hrow : (st.rows i).isSome = true) :
    ∃ r < 2 ^ 63, st.tables.resolveInternal r = i ∧ AliveIn st r := by
  have howned : ∃ r < 2 ^ 63, owns owner r i = true := by
    rcases Nat.lt_or_ge i (2 ^ 63) with hdirect | hupdate
    · exact ⟨i, hdirect, owns_iff.mpr (.inl rfl)⟩
    · cases howner : owner i with
      | some r =>
          exact ⟨r, hquiet.good.owner_real i r howner, owns_iff.mpr (.inr howner)⟩
      | none =>
          obtain ⟨-, -, -, hnone⟩ := hquiet.good.untouched i hupdate howner
          rw [hnone] at hrow
          cases hrow
  obtain ⟨r, hr, howns⟩ := howned
  obtain ⟨-, -, hrows⟩ := slice_at st howns
  obtain ⟨hcurrent, halive⟩ := (hquiet.idle r hr).rows i (by rw [hrows]; exact hrow)
  exact ⟨r, hr, (hcurrent.trans (hquiet.current_eq r)).symm, (hquiet.alive_iff hr).mp halive⟩

theorem row_of_version (hquiet : Quiet owner st) (hrow : (st.rows i).isSome = true) :
    st.tables.isTombstoned i = false := by
  obtain ⟨r, -, rfl, hlive, -⟩ := hquiet.version_of_row hrow
  exact hlive

/-- Writing the row of an id that is alive keeps the store quiet. -/
theorem putRow (hquiet : Quiet owner st) (hr : r < 2 ^ 63) (halive : AliveIn st r)
    (row : Row) :
    ∃ owner', Quiet owner'
      (exec (.putRow (st.tables.resolveInternal r) row : Call V Row) st).2 := by
  have hsafe := safe_putCurrentRow (hquiet.inv r hr) (hquiet.idle r hr)
    ((hquiet.alive_iff hr).mpr halive) row
  rw [hquiet.current_eq] at hsafe
  exact hquiet.run hr hsafe

end Quiet

namespace Quiet

variable {owner : Nat → Option Nat} {st : State V Row} {r i : Nat}

/-- A store without vectors has nothing else in its slices. -/
theorem bare_of_no_vectors (hquiet : Quiet owner st) (hnone : ∀ i, ¬Located st i)
    (hr : r < 2 ^ 63) :
    (sliceOf r owner st).mapping = none ∧
      ∀ i, (sliceOf r owner st).tombstoned i = false ∧
        (sliceOf r owner st).reverse i = none ∧ (sliceOf r owner st).rows i = none := by
  have hvectors : ∀ i, (sliceOf r owner st).vectors i = none := by
    intro i
    change (if owns owner r i then st.vectors i else none) = none
    rw [Option.not_isSome_iff_eq_none.mp (hnone i), ite_self]
  have hmapping : (sliceOf r owner st).mapping = none := by
    cases hmap : (sliceOf r owner st).mapping with
    | none => rfl
    | some m =>
        have hlocated := ((hquiet.idle r hr).mapped m hmap).2.1
        rw [hvectors] at hlocated
        cases hlocated
  refine ⟨hmapping, fun i => ⟨?_, ?_, ?_⟩⟩
  · cases hdead : (sliceOf r owner st).tombstoned i with
    | false => rfl
    | true =>
        have hlocated := (hquiet.inv r hr).located i hdead
        rw [hvectors] at hlocated
        cases hlocated
  · cases hrev : (sliceOf r owner st).reverse i with
    | none => rfl
    | some x =>
        have hmap := ((hquiet.inv r hr).reversed i x hrev).2
        rw [hmapping] at hmap
        cases hmap
  · cases hrow : (sliceOf r owner st).rows i with
    | none => rfl
    | some row =>
        have hlocated := ((hquiet.idle r hr).rows i (by rw [hrow]; rfl)).2.2
        rw [hvectors] at hlocated
        cases hlocated

theorem bulkBuild (hquiet : Quiet owner st) (hnone : ∀ i, ¬Located st i)
    (build : BulkBuild V) : Quiet owner (st.bulkBuild build) := by
  have hbeyond : ∀ i, 2 ^ 63 ≤ i → build.vectors[i]? = none := by
    intro i hi
    rw [List.getElem?_eq_none_iff]
    exact build.int.le.trans ((by decide : 2 ^ 31 ≤ 2 ^ 63).trans hi)
  have hvectors : ∀ r < 2 ^ 63, ∀ i,
      ((sliceOf r owner (st.bulkBuild build)).vectors i).isSome = true → i = r := by
    intro r hr i hlocated
    change (if owns owner r i then (build.vectors[i]?).or (st.vectors i) else none).isSome =
      true at hlocated
    rw [Option.not_isSome_iff_eq_none.mp (hnone i), Option.or_none] at hlocated
    split at hlocated
    · rename_i howns
      rcases owns_iff.mp howns with heq | howner
      · exact heq
      · rw [hbeyond i (hquiet.good.owner_update i r howner)] at hlocated
        cases hlocated
    · cases hlocated
  refine ⟨⟨hquiet.good.covers, hquiet.good.first, hquiet.good.unused,
    hquiet.good.owner_update, hquiet.good.owner_real, ?_⟩, ?_, ?_, hquiet.mapped⟩
  · intro i hi howner
    obtain ⟨hdead, hvector, hrest⟩ := hquiet.good.untouched i hi howner
    refine ⟨hdead, ?_, hrest⟩
    change (build.vectors[i]?).or (st.vectors i) = none
    rw [hbeyond i hi, hvector]
    rfl
  · intro r hr
    obtain ⟨hmapping, hbare⟩ := hquiet.bare_of_no_vectors hnone hr
    have hinv := hquiet.inv r hr
    refine ⟨hinv.owned_self, hinv.owned_update, ?_, ?_, ?_, ?_, ?_⟩
    · intro i hi
      obtain ⟨hdead, -, hrest⟩ := hinv.bare i hi
      refine ⟨hdead, ?_, hrest⟩
      exact if_neg (by rw [show owns owner r i = false from hi]; simp)
    · intro m hm
      rw [show (sliceOf r owner (st.bulkBuild build)).mapping = none from hmapping] at hm
      cases hm
    · intro i x hx
      rw [show (sliceOf r owner (st.bulkBuild build)).reverse i = none from
        (hbare i).2.1] at hx
      cases hx
    · intro i hi
      rw [show (sliceOf r owner (st.bulkBuild build)).tombstoned i = false from
        (hbare i).1] at hi
      cases hi
    · intro m hm
      rw [show (sliceOf r owner (st.bulkBuild build)).mapping = none from hmapping] at hm
      cases hm
  · intro r hr
    obtain ⟨hmapping, hbare⟩ := hquiet.bare_of_no_vectors hnone hr
    refine ⟨?_, ?_, ?_⟩
    · intro m hm
      rw [show (sliceOf r owner (st.bulkBuild build)).mapping = none from hmapping] at hm
      cases hm
    · intro i hne hlocated
      refine absurd ?_ hne
      rw [hvectors r hr i hlocated]
      unfold Slice.current
      rw [show (sliceOf r owner (st.bulkBuild build)).mapping = none from hmapping]
      rfl
    · intro i hi
      rw [show (sliceOf r owner (st.bulkBuild build)).rows i = none from
        (hbare i).2.2] at hi
      cases hi

/-- Two ids are not mapped to one version. -/
theorem mapping_injective (hquiet : Quiet owner st) {r r' : Nat}
    (hmap : st.tables.updatedRealToInternal.lookup r = some i)
    (hmap' : st.tables.updatedRealToInternal.lookup r' = some i) : r = r' := by
  have hr := hquiet.mapped r i hmap
  have hr' := hquiet.mapped r' i hmap'
  have howned := ((hquiet.inv r hr).mapped i hmap).1
  have howned' := ((hquiet.inv r' hr').mapped i hmap').1
  by_contra hne
  have hdisjoint := owns_disjoint hquiet.good.owner_update hr hr' (Ne.symm hne) howned
  rw [show owns owner r' i = true from howned'] at hdisjoint
  cases hdisjoint

theorem lookup_reloaded (hquiet : Quiet owner st) (i : Nat) :
    st.tables.reload.updatedInternalToReal.lookup i =
      st.tables.updatedInternalToReal.lookup i := by
  have hreload := IdTables.lookup_reload
    (fun _ _ _ hmap hmap' => hquiet.mapping_injective hmap hmap') i
  ext x
  rw [hreload x]
  constructor
  · intro hmap
    obtain ⟨howned, -, hreverse⟩ :=
      (hquiet.inv x (hquiet.mapped x i hmap)).mapped i hmap
    rw [← hreverse]
    exact (if_pos howned).symm
  · intro hlookup
    have hslice : ∀ r < 2 ^ 63, owns owner r i = true →
        st.tables.updatedRealToInternal.lookup x = some i := by
      intro r hr howns
      have hreverse : (sliceOf r owner st).reverse i = some x := by
        rw [← hlookup]
        exact if_pos howns
      obtain ⟨rfl, hmap⟩ := (hquiet.inv r hr).reversed i x hreverse
      exact hmap
    rcases Nat.lt_or_ge i (2 ^ 63) with hdirect | hupdate
    · exact hslice i hdirect (owns_iff.mpr (.inl rfl))
    · cases howner : owner i with
      | some r =>
          exact hslice r (hquiet.good.owner_real i r howner) (owns_iff.mpr (.inr howner))
      | none =>
          obtain ⟨-, -, hnone, -⟩ := hquiet.good.untouched i hupdate howner
          rw [hnone] at hlookup
          cases hlookup

theorem slice_reopen (hquiet : Quiet owner st) (r : Nat) :
    sliceOf r owner st.reopen = sliceOf r owner st := by
  have hreverse : (fun i => if owns owner r i then
      st.tables.reload.updatedInternalToReal.lookup i else none) =
      fun i => if owns owner r i then st.tables.updatedInternalToReal.lookup i
        else none := by
    funext i
    rw [hquiet.lookup_reloaded i]
  exact congrArg (Slice.mk _ _ _ · _ _) hreverse

theorem reopen (hquiet : Quiet owner st) : Quiet owner st.reopen := by
  refine ⟨⟨IdTables.BloomCovers.reload _, hquiet.good.first, hquiet.good.unused,
    hquiet.good.owner_update, hquiet.good.owner_real, ?_⟩, ?_, ?_, hquiet.mapped⟩
  · intro i hi howner
    obtain ⟨hdead, hvector, hlookup, hrow⟩ := hquiet.good.untouched i hi howner
    exact ⟨hdead, hvector, (hquiet.lookup_reloaded i).trans hlookup, hrow⟩
  · intro r hr
    rw [hquiet.slice_reopen r]
    exact hquiet.inv r hr
  · intro r hr
    rw [hquiet.slice_reopen r]
    exact hquiet.idle r hr

end Quiet

/-! The batch of payloads -/

theorem run_isAlive (st : State V Row) (r : Nat) :
    ∃ alive, (isAlive r).run exec st = (alive, st) ∧ (alive = true ↔ AliveIn st r) := by
  cases hdead : st.tables.isTombstoned (st.tables.resolveInternal r) with
  | true =>
      refine ⟨false, ?_, ?_⟩
      · change (bif st.tables.isTombstoned (st.tables.resolveInternal r) then
          (pure false : Prog V Row Bool) else _).run exec st = _
        rw [hdead]
        rfl
      · simp [AliveIn, hdead]
  | false =>
      refine ⟨(st.vectors (st.tables.resolveInternal r)).isSome, ?_, ?_⟩
      · change (bif st.tables.isTombstoned (st.tables.resolveInternal r) then
          (pure false : Prog V Row Bool) else vectorExists _).run exec st = _
        rw [hdead]
        rfl
      · simp [AliveIn, Located, hdead]

/-- The items resolve to the current versions of ids that are alive. -/
theorem run_resolveItems (st : State V Row) (items : List (Nat × Row)) :
    ∃ resolved, (resolveItems items).run exec st = (resolved, st) ∧
      ∀ rows, resolved = some rows → ∀ row ∈ rows, ∃ item ∈ items,
        row.1 = st.tables.resolveInternal item.1 ∧ AliveIn st item.1 := by
  induction items with
  | nil =>
      refine ⟨some [], rfl, ?_⟩
      rintro _ ⟨⟩ row hrow
      cases hrow
  | cons item items ih =>
      obtain ⟨alive, hrun, halive⟩ := run_isAlive st item.1
      obtain ⟨resolved, hrest, hrows⟩ := ih
      unfold resolveItems
      rw [Program.run_bind, hrun]
      cases alive with
      | false => exact ⟨none, rfl, fun _ h => by cases h⟩
      | true =>
          refine ⟨resolved.map ((st.tables.resolveInternal item.1, item.2) :: ·), ?_, ?_⟩
          · change ((resolveItems items >>= fun rest => pure _ : Prog V Row _)).run exec st = _
            rw [Program.run_bind, hrest]
            rfl
          · intro rows hsome row hrow
            obtain ⟨rest, hrest', rfl⟩ := Option.map_eq_some_iff.mp hsome
            rcases List.mem_cons.mp hrow with rfl | hrow
            · exact ⟨item, List.mem_cons_self, rfl, halive.mp rfl⟩
            · obtain ⟨other, hother, heq⟩ := hrows rest hrest' row hrow
              exact ⟨other, List.mem_cons_of_mem _ hother, heq⟩

theorem Quiet.putRows {owner : Nat → Option Nat} {st : State V Row}
    (hquiet : Quiet owner st) {rows : List (Nat × Row)}
    (hrows : ∀ row ∈ rows, ∃ r < 2 ^ 63, row.1 = st.tables.resolveInternal r ∧
      AliveIn st r) :
    ∃ owner', Quiet owner' (exec (.putRows rows : Call V Row) st).2 := by
  induction rows generalizing owner st with
  | nil => exact ⟨owner, hquiet⟩
  | cons row rows ih =>
      obtain ⟨r, hr, heq, halive⟩ := hrows row List.mem_cons_self
      obtain ⟨owner', hquiet'⟩ := hquiet.putRow hr halive row.2
      rw [← heq] at hquiet'
      exact ih hquiet' fun other hother => hrows other (List.mem_cons_of_mem _ hother)

/-- Invariants of every state reached. -/
structure Settled (st : State V Row) : Prop where
  quiet : ∃ owner, Quiet owner st
  linked : Linked st
  rooted : Rooted st

theorem Settled.run_write {st : State V Row} (hsettled : Settled st)
    (call : WriteCall V Row) (hr : call.r < 2 ^ 63)
    (hselected : ∀ n ∈ call.selected, Located st n) :
    Settled (call.program.run exec st).2 := by
  obtain ⟨⟨owner, hquiet⟩, hlinked, hrooted⟩ := hsettled
  have hinv := hquiet.inv _ hr
  have hidle := hquiet.idle _ hr
  have hlinks : Links call.program (Keeps call.selected) st := by
    cases call with
    | upsert kind write => exact links_writeDense 2 kind (fun _ h => h) ⟨hselected, hrooted⟩
    | delete r => exact links_deleteDense r ⟨hselected, hrooted⟩
  refine ⟨hquiet.run hr ?_, hlinked.run hlinks, (links_post hlinks).rooted⟩
  cases call with
  | upsert kind write => exact (safe_writeDense hinv hidle kind).mono fun _ _ h => h.2
  | delete r => exact (safe_deleteDense hinv hidle).mono fun _ _ h => h.2

theorem Settled.run_payload {st : State V Row} (hsettled : Settled st)
    (call : PayloadCall Row) (hr : call.r < 2 ^ 63) :
    Settled ((call.program : Prog V Row Bool).run exec st).2 := by
  obtain ⟨⟨owner, hquiet⟩, hlinked, hrooted⟩ := hsettled
  have hlinks : Links (call.program : Prog V Row Bool) (Keeps []) st :=
    links_payload call ⟨by simp, hrooted⟩
  exact ⟨hquiet.run hr (safe_payload (hquiet.inv _ hr) (hquiet.idle _ hr) call rfl),
    hlinked.run hlinks, (links_post hlinks).rooted⟩

theorem Settled.run_payloads {st : State V Row} (hsettled : Settled st)
    (items : List (Nat × Row)) (hr : ∀ item ∈ items, item.1 < 2 ^ 63) :
    Settled ((setPayloadBatch items : Prog V Row Bool).run exec st).2 := by
  obtain ⟨⟨owner, hquiet⟩, hlinked, hrooted⟩ := hsettled
  obtain ⟨resolved, hrun, hrows⟩ := run_resolveItems st items
  unfold setPayloadBatch
  rw [Program.run_bind, hrun]
  cases resolved with
  | none => exact ⟨⟨owner, hquiet⟩, hlinked, hrooted⟩
  | some rows =>
      refine ⟨hquiet.putRows ?_, hlinked.call (c := .putRows rows) trivial, hrooted⟩
      intro row hrow
      obtain ⟨item, hitem, heq, halive⟩ := hrows rows rfl row hrow
      exact ⟨item.1, hr item hitem, heq, halive⟩

theorem Settled.bulkBuild {st : State V Row} (hsettled : Settled st) (build : BulkBuild V)
    (hempty : st.entryPoint = none) : Settled (st.bulkBuild build) := by
  obtain ⟨⟨owner, hquiet⟩, hlinked, hrooted⟩ := hsettled
  have hnone := hrooted hempty
  have hlocated : ∀ i < build.vectors.length, Located (st.bulkBuild build) i := by
    intro i hi
    change ((build.vectors[i]?).or (st.vectors i)).isSome = true
    rw [List.getElem?_eq_getElem hi]
    rfl
  refine ⟨⟨owner, hquiet.bulkBuild hnone build⟩, ⟨?_, ?_, ?_⟩, by rintro ⟨⟩⟩
  · apply (Set.finite_lt_nat build.vectors.length).subset
    intro i hi
    by_contra hge
    change ((build.vectors[i]?).or (st.vectors i)).isSome = true at hi
    rw [List.getElem?_eq_none_iff.mpr (not_lt.mp hge), Option.none_or] at hi
    exact hnone i hi
  · exact fun i j hj => hlocated j (build.edges_lt i j hj)
  · rintro _ ⟨⟩
    exact hlocated _ build.entry_lt

theorem Reached.settled {st : State V Row} (hreached : Reached st) : Settled st := by
  induction hreached with
  | empty => exact ⟨⟨_, quiet_empty⟩, linked_empty, fun _ _ => by simp [Located, State.empty]⟩
  | wrote call _ hr hselected ih =>
      exact ih.run_write call ((le_kMaxRealId_iff _).mp hr) hselected
  | payload call _ hr ih => exact ih.run_payload call ((le_kMaxRealId_iff _).mp hr)
  | payloads items _ hr ih =>
      exact ih.run_payloads items fun item hitem => (le_kMaxRealId_iff _).mp (hr item hitem)
  | bulkBuilt build _ hempty ih => exact ih.bulkBuild build hempty
  | reopened _ ih =>
      obtain ⟨⟨owner, hquiet⟩, hlinked, hrooted⟩ := ih
      exact ⟨⟨owner, hquiet.reopen⟩, ⟨hlinked.finite, hlinked.edges, hlinked.entry⟩, hrooted⟩

end AsterVec.Dense

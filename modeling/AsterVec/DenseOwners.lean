import AsterVec.DenseSlices

/-!
A dense store is made of the slices of its caller ids.  Update ids belong to the id
they were allocated for; a call that keeps to its own slice leaves the others alone.
-/

namespace AsterVec.Dense

open AsterVec.IdTypes
open AsterVec.Programs

variable {V Row : Type}

/-- `i` is the caller id itself or an update id allocated for it. -/
def owns (owner : Nat → Option Nat) (r i : Nat) : Bool :=
  decide (i = r) || decide (owner i = some r)

def sliceOf (r : Nat) (owner : Nat → Option Nat) (st : State V Row) : Slice V Row where
  mapping := st.tables.updatedRealToInternal.lookup r
  owned := owns owner r
  tombstoned := fun i => owns owner r i && st.tables.isTombstoned i
  reverse := fun i => if owns owner r i then st.tables.updatedInternalToReal.lookup i
    else none
  vectors := fun i => if owns owner r i then st.vectors i else none
  rows := fun i => if owns owner r i then st.rows i else none

/-- Every update id handed out has an owner, and nothing is kept for the others. -/
structure Good (owner : Nat → Option Nat) (st : State V Row) : Prop where
  covers : st.tables.BloomCovers
  first : kFirstUpdateId ≤ st.tables.nextUpdateInternalId
  unused : ∀ i, st.tables.nextUpdateInternalId ≤ i → owner i = none
  owner_update : ∀ i r, owner i = some r → 2 ^ 63 ≤ i
  owner_real : ∀ i r, owner i = some r → r < 2 ^ 63
  untouched : ∀ i, 2 ^ 63 ≤ i → owner i = none →
    st.tables.isTombstoned i = false ∧ st.vectors i = none ∧
      st.tables.updatedInternalToReal.lookup i = none ∧ st.rows i = none

/-- The owner of an update id is the id it is allocated for. -/
def ownerAfter (r : Nat) : (c : Call V Row) → Reply c → (Nat → Option Nat) →
    (Nat → Option Nat)
  | .allocateUpdateId, i, owner => Function.update owner (show Nat from i) (some r)
  | _, _, owner => owner

theorem owns_iff {owner : Nat → Option Nat} {r i : Nat} :
    owns owner r i = true ↔ i = r ∨ owner i = some r := by
  rw [owns, Bool.or_eq_true, decide_eq_true_iff, decide_eq_true_iff]

/-- Two caller ids share nothing. -/
theorem owns_disjoint {owner : Nat → Option Nat}
    (hupdate : ∀ i r, owner i = some r → 2 ^ 63 ≤ i) {r r' i : Nat} (hr : r < 2 ^ 63)
    (hr' : r' < 2 ^ 63) (hne : r' ≠ r) (howns : owns owner r i = true) :
    owns owner r' i = false := by
  rw [← Bool.not_eq_true, owns_iff]
  rcases owns_iff.mp howns with rfl | howner
  · rintro (rfl | howner)
    · exact hne rfl
    · exact absurd (hupdate _ _ howner) (by omega)
  · rintro (rfl | howner')
    · exact absurd (hupdate _ _ howner) (by omega)
    · rw [howner] at howner'
      exact hne (Option.some.inj howner').symm

/-- A step that changes nothing of the slice. -/
theorem sliceOf_congr {owner : Nat → Option Nat} {st st' : State V Row} {r : Nat}
    (hmapping : st'.tables.updatedRealToInternal.lookup r =
      st.tables.updatedRealToInternal.lookup r)
    (hsame : ∀ i, owns owner r i = true →
      st'.tables.isTombstoned i = st.tables.isTombstoned i ∧
        st'.tables.updatedInternalToReal.lookup i =
          st.tables.updatedInternalToReal.lookup i ∧
        st'.vectors i = st.vectors i ∧ st'.rows i = st.rows i) :
    sliceOf r owner st' = sliceOf r owner st := by
  unfold sliceOf
  rw [hmapping]
  congr 1
  · funext i
    cases howns : owns owner r i with
    | false => rfl
    | true => rw [(hsame i howns).1]
  · funext i
    split
    · rename_i howns
      exact (hsame i howns).2.1
    · rfl
  · funext i
    split
    · rename_i howns
      exact (hsame i howns).2.2.1
    · rfl
  · funext i
    split
    · rename_i howns
      exact (hsame i howns).2.2.2
    · rfl

/-- Allocating an id for `r` gives it to the slice of `r` alone. -/
theorem sliceOf_allocate {owner : Nat → Option Nat} {st : State V Row}
    (hgood : Good owner st) {r : Nat} (hr : r < 2 ^ 63) :
    (sliceOf r owner st).Allocates st.tables.nextUpdateInternalId
      (sliceOf r (Function.update owner st.tables.nextUpdateInternalId (some r))
        { st with tables := st.tables.allocateUpdateId.2 }) := by
  have hfirst : 2 ^ 63 ≤ st.tables.nextUpdateInternalId := hgood.first
  have hunowned := hgood.unused _ (Nat.le_refl _)
  have hnot : owns owner r st.tables.nextUpdateInternalId = false := by
    rw [← Bool.not_eq_true, owns_iff, hunowned]
    rintro (heq | heq)
    · omega
    · cases heq
  obtain ⟨hdead, hvec, hrev, hrow⟩ := hgood.untouched _ hfirst hunowned
  have howns : owns (Function.update owner st.tables.nextUpdateInternalId (some r)) r =
      Function.update (owns owner r) st.tables.nextUpdateInternalId true := by
    funext i
    rw [Function.update_apply]
    unfold owns
    rcases eq_or_ne i st.tables.nextUpdateInternalId with rfl | hne
    · simp
    · rw [Function.update_of_ne hne, if_neg hne]
  refine ⟨hnot, hfirst, ?_⟩
  -- Nothing was kept for the new id, so only the ownership changes.
  have hmasked : ∀ {β : Type} (b : β) (f : Nat → β),
      f st.tables.nextUpdateInternalId = b →
      (fun i => if Function.update (owns owner r) st.tables.nextUpdateInternalId true i
        then f i else b) = fun i => if owns owner r i then f i else b := by
    intro β b f hf
    funext i
    rw [Function.update_apply]
    rcases eq_or_ne i st.tables.nextUpdateInternalId with rfl | hne
    · rw [if_pos rfl, if_pos rfl, hnot, hf]
      rfl
    · rw [if_neg hne]
  unfold sliceOf Slice.allocate
  rw [howns]
  congr 1
  · funext i
    change (Function.update (owns owner r) _ true i && st.tables.isTombstoned i) =
      (owns owner r i && st.tables.isTombstoned i)
    rw [Function.update_apply]
    rcases eq_or_ne i st.tables.nextUpdateInternalId with rfl | hne
    · rw [if_pos rfl, hnot, hdead]
      rfl
    · rw [if_neg hne]
  · exact hmasked none (fun i => st.tables.updatedInternalToReal.lookup i) hrev
  · exact hmasked none st.vectors hvec
  · exact hmasked none st.rows hrow

theorem sliceOf_allocate_other {owner : Nat → Option Nat} {st : State V Row}
    (hgood : Good owner st) {r r' : Nat} (hne : r' ≠ r) :
    sliceOf r' (Function.update owner st.tables.nextUpdateInternalId (some r))
        { st with tables := st.tables.allocateUpdateId.2 } = sliceOf r' owner st := by
  have howns : owns (Function.update owner st.tables.nextUpdateInternalId (some r)) r' =
      owns owner r' := by
    funext i
    unfold owns
    rcases eq_or_ne i st.tables.nextUpdateInternalId with rfl | hi
    · rw [Function.update_self, hgood.unused _ (Nat.le_refl _)]
      simp [hne.symm]
    · rw [Function.update_of_ne hi]
  unfold sliceOf
  rw [howns]
  rfl

/-- An update at an owned id, seen through the mask of the owned ids. -/
theorem masked_update {β : Type} (owned : Nat → Bool) (f : Nat → Option β) {i : Nat}
    (howned : owned i = true) (value : Option β) :
    (fun j => if owned j then Function.update f i value j else none) =
      Function.update (fun j => if owned j then f j else none) i value := by
  funext j
  rcases eq_or_ne j i with rfl | hne
  · rw [if_pos howned, Function.update_self, Function.update_self]
  · rw [Function.update_of_ne hne, Function.update_of_ne hne]

theorem sliceOf_tombstone {owner : Nat → Option Nat} (st : State V Row) {r i : Nat}
    (howns : owns owner r i = true) :
    sliceOf r owner { st with tables := st.tables.tombstone i } =
      (sliceOf r owner st).tombstone i := by
  unfold sliceOf Slice.tombstone
  congr 1
  funext j
  change (owns owner r j && decide (j ∈ insert i st.tables.tombstonedInternalIds)) =
    Function.update (fun j => owns owner r j && st.tables.isTombstoned j) i true j
  rcases eq_or_ne j i with rfl | hne
  · simp [howns]
  · rw [Function.update_of_ne hne]
    simp [IdTables.isTombstoned, hne]

theorem lookup_erase {l : AList fun _ : Nat => Nat} (i j : Nat) :
    (l.erase i).lookup j = if j = i then none else l.lookup j := by
  rcases eq_or_ne j i with rfl | hne
  · rw [AList.lookup_erase, if_pos rfl]
  · rw [AList.lookup_erase_ne hne, if_neg hne]

theorem lookup_insert {l : AList fun _ : Nat => Nat} (i x j : Nat) :
    (l.insert i x).lookup j = if j = i then some x else l.lookup j := by
  rcases eq_or_ne j i with rfl | hne
  · rw [AList.lookup_insert, if_pos rfl]
  · rw [AList.lookup_insert_ne hne, if_neg hne]

/-- The reverse entries once the one of the mapping of `r` is dropped. -/
theorem masked_cleared {owner : Nat → Option Nat} (st : State V Row) (r i : Nat) :
    (if owns owner r i then ((st.tables.updatedRealToInternal.lookup r).elim
        st.tables.updatedInternalToReal st.tables.updatedInternalToReal.erase).lookup i
      else none) = (sliceOf r owner st).cleared i := by
  unfold Slice.cleared sliceOf
  cases st.tables.updatedRealToInternal.lookup r with
  | none => rfl
  | some previous =>
      simp only [Option.elim_some, lookup_erase, Function.update_apply]
      split <;> split <;> rfl

theorem sliceOf_record {owner : Nat → Option Nat} (st : State V Row) {r i : Nat}
    (howns : owns owner r i = true) :
    sliceOf r owner { st with tables := st.tables.recordUpdateMapping r i } =
      (sliceOf r owner st).record r i := by
  obtain ⟨hforward, hreverse, hdead, -⟩ := st.tables.recordUpdateMapping_maps r i
  unfold Slice.record
  conv_lhs => unfold sliceOf
  simp only [hforward, hreverse, IdTables.isTombstoned, hdead, AList.lookup_insert]
  congr 1
  funext j
  rw [lookup_insert, Function.update_apply, ← masked_cleared]
  rcases eq_or_ne j i with rfl | hne
  · rw [if_pos rfl, if_pos howns, if_pos rfl]
  · rw [if_neg hne, if_neg hne]

/-- What forgetting a mapping leaves in the maps. -/
theorem forgetUpdateMapping_maps (tables : IdTables) (r : Nat) :
    (∀ j, (tables.forgetUpdateMapping r).updatedRealToInternal.lookup j =
        if j = r then none else tables.updatedRealToInternal.lookup j) ∧
      (tables.forgetUpdateMapping r).updatedInternalToReal =
        (tables.updatedRealToInternal.lookup r).elim tables.updatedInternalToReal
          tables.updatedInternalToReal.erase ∧
      (tables.forgetUpdateMapping r).tombstonedInternalIds =
        tables.tombstonedInternalIds ∧
      (tables.forgetUpdateMapping r).nextUpdateInternalId =
        tables.nextUpdateInternalId := by
  unfold IdTables.forgetUpdateMapping
  split
  · rename_i i hmap
    rw [hmap]
    exact ⟨fun j => lookup_erase r j, rfl, rfl, rfl⟩
  · rename_i hmap
    rw [hmap]
    refine ⟨fun j => ?_, rfl, rfl, rfl⟩
    split
    · rename_i hjr
      rw [hjr, hmap]
    · rfl

theorem sliceOf_forget {owner : Nat → Option Nat} (st : State V Row) (r : Nat) :
    sliceOf r owner { st with tables := st.tables.forgetUpdateMapping r } =
      (sliceOf r owner st).forget := by
  obtain ⟨hforward, hreverse, hdead, -⟩ := forgetUpdateMapping_maps st.tables r
  unfold Slice.forget
  conv_lhs => unfold sliceOf
  simp only [hforward, hreverse, IdTables.isTombstoned, hdead, if_true]
  congr 1
  funext j
  rw [← masked_cleared]

/-- The slice of another caller id does not see the call. -/
theorem sliceOf_other {owner : Nat → Option Nat} {st : State V Row}
    (hgood : Good owner st) {r r' : Nat} (hr : r < 2 ^ 63) (hr' : r' < 2 ^ 63)
    (hne : r' ≠ r) (hinv : (sliceOf r owner st).Inv r) {c : Call V Row}
    (hallowed : Slice.Allowed r c (sliceOf r owner st)) :
    sliceOf r' (ownerAfter r c (exec c st).1 owner) (exec c st).2 =
      sliceOf r' owner st := by
  have hdisjoint : ∀ {i j}, owns owner r i = true → owns owner r' j = true → j ≠ i := by
    rintro i j hi hj rfl
    rw [owns_disjoint hgood.owner_update hr hr' hne hi] at hj
    cases hj
  -- Dropping the reverse entry of the mapping concerns an id of `r`.
  have hcleared : ∀ j, owns owner r' j = true →
      ((st.tables.updatedRealToInternal.lookup r).elim st.tables.updatedInternalToReal
        st.tables.updatedInternalToReal.erase).lookup j =
        st.tables.updatedInternalToReal.lookup j := by
    intro j hj
    cases hmap : st.tables.updatedRealToInternal.lookup r with
    | none => rfl
    | some previous =>
        have hprevious : owns owner r previous = true := (hinv.mapped previous hmap).1
        rw [Option.elim_some, lookup_erase, if_neg (hdisjoint hprevious hj)]
  cases c with
  | resolveInternal | resolveReal | isTombstoned | vectorExists | getRow | readVector
  | loadEntryPoint | getEdges => rfl
  | casEntryPoint | promote | linkUpper | addEdges | deleteEdges => rfl
  | putRows => exact hallowed.elim
  | allocateUpdateId => exact sliceOf_allocate_other hgood hne
  | recordUpdateMapping _ i =>
      obtain ⟨rfl, howned, -⟩ := hallowed
      rename_i x
      obtain ⟨hforward, hreverse, hdead, -⟩ := st.tables.recordUpdateMapping_maps x i
      apply sliceOf_congr
      · change (st.tables.recordUpdateMapping x i).updatedRealToInternal.lookup r' = _
        rw [hforward, lookup_insert, if_neg hne]
      · intro j hj
        refine ⟨?_, ?_, rfl, rfl⟩
        · change decide (j ∈ (st.tables.recordUpdateMapping x i).tombstonedInternalIds) = _
          rw [hdead]
          rfl
        · change (st.tables.recordUpdateMapping x i).updatedInternalToReal.lookup j = _
          rw [hreverse, lookup_insert, if_neg (hdisjoint howned hj), hcleared j hj]
  | forgetUpdateMapping x =>
      obtain ⟨rfl, -⟩ := hallowed
      obtain ⟨hforward, hreverse, hdead, -⟩ := forgetUpdateMapping_maps st.tables x
      apply sliceOf_congr
      · change (st.tables.forgetUpdateMapping x).updatedRealToInternal.lookup r' = _
        rw [hforward, if_neg hne]
      · intro j hj
        refine ⟨?_, ?_, rfl, rfl⟩
        · change decide (j ∈ (st.tables.forgetUpdateMapping x).tombstonedInternalIds) = _
          rw [hdead]
          rfl
        · change (st.tables.forgetUpdateMapping x).updatedInternalToReal.lookup j = _
          rw [hreverse, hcleared j hj]
  | tombstone i =>
      apply sliceOf_congr
      · rfl
      · intro j hj
        refine ⟨?_, rfl, rfl, rfl⟩
        have hji := hdisjoint hallowed.1 hj
        change decide (j ∈ insert i st.tables.tombstonedInternalIds) = _
        simp [IdTables.isTombstoned, hji]
  | storeVector i vector =>
      apply sliceOf_congr
      · rfl
      · intro j hj
        exact ⟨rfl, rfl, Function.update_of_ne (hdisjoint hallowed.1 hj) _ _, rfl⟩
  | putRow i row =>
      apply sliceOf_congr
      · rfl
      · intro j hj
        exact ⟨rfl, rfl, rfl, Function.update_of_ne (hdisjoint hallowed hj) _ _⟩
  | deleteRow i =>
      apply sliceOf_congr
      · rfl
      · intro j hj
        exact ⟨rfl, rfl, rfl, Function.update_of_ne (hdisjoint hallowed hj) _ _⟩

/-- The slice of the caller id itself takes the step. -/
theorem sliceOf_step {owner : Nat → Option Nat} {st : State V Row}
    (hgood : Good owner st) {r : Nat} (hr : r < 2 ^ 63) {c : Call V Row}
    (hallowed : Slice.Allowed r c (sliceOf r owner st)) :
    Slice.Step r c (sliceOf r owner st) (exec c st).1
      (sliceOf r (ownerAfter r c (exec c st).1 owner) (exec c st).2) := by
  cases c with
  | resolveInternal x =>
      obtain rfl : x = r := hallowed
      exact ⟨IdTables.resolveInternal_eq hgood.covers x, rfl⟩
  | isTombstoned i =>
      refine ⟨?_, rfl⟩
      change st.tables.isTombstoned i = (owns owner r i && st.tables.isTombstoned i)
      rw [show owns owner r i = true from hallowed]
      rfl
  | vectorExists i =>
      refine ⟨?_, rfl⟩
      change (st.vectors i).isSome = (if owns owner r i then st.vectors i else none).isSome
      rw [if_pos (show owns owner r i = true from hallowed)]
  | getRow i =>
      refine ⟨?_, rfl⟩
      change st.rows i = if owns owner r i then st.rows i else none
      rw [if_pos (show owns owner r i = true from hallowed)]
  | resolveReal | readVector | putRows => exact hallowed.elim
  | loadEntryPoint | casEntryPoint | promote | linkUpper | getEdges | addEdges
  | deleteEdges => rfl
  | allocateUpdateId => exact sliceOf_allocate hgood hr
  | recordUpdateMapping x i =>
      obtain ⟨rfl, howned, -⟩ := hallowed
      exact sliceOf_record st howned
  | forgetUpdateMapping x =>
      obtain ⟨rfl, -⟩ := hallowed
      exact sliceOf_forget st x
  | tombstone i => exact sliceOf_tombstone st hallowed.1
  | storeVector i vector =>
      change sliceOf r owner _ = (sliceOf r owner st).store i vector
      unfold sliceOf Slice.store
      exact congrArg (Slice.mk _ _ _ _ · _) (masked_update _ _ hallowed.1 _)
  | putRow i row =>
      change sliceOf r owner _ = (sliceOf r owner st).setRow i (some row)
      unfold sliceOf Slice.setRow
      exact congrArg (Slice.mk _ _ _ _ _) (masked_update _ _ hallowed _)
  | deleteRow i =>
      change sliceOf r owner _ = (sliceOf r owner st).setRow i none
      unfold sliceOf Slice.setRow
      exact congrArg (Slice.mk _ _ _ _ _) (masked_update _ _ hallowed _)

/-- A call that keeps to its slice touches nothing without an owner. -/
theorem good_exec {owner : Nat → Option Nat} {st : State V Row} (hgood : Good owner st)
    {r : Nat} (hr : r < 2 ^ 63) (hinv : (sliceOf r owner st).Inv r) {c : Call V Row}
    (hallowed : Slice.Allowed r c (sliceOf r owner st)) :
    Good (ownerAfter r c (exec c st).1 owner) (exec c st).2 := by
  have hforeign : ∀ {i j}, owns owner r i = true → 2 ^ 63 ≤ j → owner j = none → j ≠ i := by
    rintro i j hi hj hnone rfl
    rcases owns_iff.mp hi with rfl | howner
    · omega
    · rw [hnone] at howner
      cases howner
  have hcleared : ∀ j, st.tables.updatedInternalToReal.lookup j = none →
      ((st.tables.updatedRealToInternal.lookup r).elim st.tables.updatedInternalToReal
        st.tables.updatedInternalToReal.erase).lookup j = none := by
    intro j hj
    cases st.tables.updatedRealToInternal.lookup r with
    | none => exact hj
    | some previous => rw [Option.elim_some, lookup_erase, hj, ite_self]
  cases c with
  | resolveInternal | resolveReal | isTombstoned | vectorExists | getRow | readVector
  | loadEntryPoint | getEdges => exact hgood
  | casEntryPoint | promote | linkUpper | addEdges | deleteEdges =>
      exact ⟨hgood.covers, hgood.first, hgood.unused, hgood.owner_update, hgood.owner_real,
        hgood.untouched⟩
  | putRows => exact hallowed.elim
  | allocateUpdateId =>
      have hfirst : 2 ^ 63 ≤ st.tables.nextUpdateInternalId := hgood.first
      refine ⟨⟨hgood.covers.bitCount, hgood.covers.capacity, hgood.covers.contains⟩,
        Nat.le_succ_of_le hgood.first, ?_, ?_, ?_, ?_⟩
      · intro i hi
        have hlt : st.tables.nextUpdateInternalId < i := hi
        exact (Function.update_of_ne hlt.ne' _ _).trans (hgood.unused i hlt.le)
      · intro i x hx
        rcases eq_or_ne i st.tables.nextUpdateInternalId with rfl | hne
        · exact hfirst
        · exact hgood.owner_update i x ((Function.update_of_ne hne _ _).symm.trans hx)
      · intro i x hx
        rcases eq_or_ne i st.tables.nextUpdateInternalId with rfl | hne
        · change Function.update owner st.tables.nextUpdateInternalId (some r)
            st.tables.nextUpdateInternalId = some x at hx
          rw [Function.update_self] at hx
          cases hx
          exact hr
        · exact hgood.owner_real i x ((Function.update_of_ne hne _ _).symm.trans hx)
      · intro i hi hnone
        rcases eq_or_ne i st.tables.nextUpdateInternalId with rfl | hne
        · exact absurd ((Function.update_self _ _ _).symm.trans hnone) (by simp)
        · exact hgood.untouched i hi ((Function.update_of_ne hne _ _).symm.trans hnone)
  | recordUpdateMapping x i =>
      obtain ⟨rfl, howned, -⟩ := hallowed
      obtain ⟨-, hreverse, hdead, hnext⟩ := st.tables.recordUpdateMapping_maps x i
      refine ⟨hgood.covers.recordUpdateMapping x i, hnext.symm ▸ hgood.first, ?_,
        hgood.owner_update, hgood.owner_real, ?_⟩
      · intro j hj
        exact hgood.unused j (hnext ▸ hj)
      · intro j hj hnone
        obtain ⟨hlive, hvec, hrev, hrow⟩ := hgood.untouched j hj hnone
        refine ⟨?_, hvec, ?_, hrow⟩
        · change decide (j ∈ (st.tables.recordUpdateMapping x i).tombstonedInternalIds) = _
          rw [hdead]
          exact hlive
        · change (st.tables.recordUpdateMapping x i).updatedInternalToReal.lookup j = _
          rw [hreverse, lookup_insert, if_neg (hforeign howned hj hnone), hcleared j hrev]
  | forgetUpdateMapping x =>
      obtain ⟨rfl, -⟩ := hallowed
      obtain ⟨-, hreverse, hdead, hnext⟩ := forgetUpdateMapping_maps st.tables x
      refine ⟨hgood.covers.forgetUpdateMapping x, hnext.symm ▸ hgood.first, ?_,
        hgood.owner_update, hgood.owner_real, ?_⟩
      · intro j hj
        exact hgood.unused j (hnext ▸ hj)
      · intro j hj hnone
        obtain ⟨hlive, hvec, hrev, hrow⟩ := hgood.untouched j hj hnone
        refine ⟨?_, hvec, ?_, hrow⟩
        · change decide (j ∈ (st.tables.forgetUpdateMapping x).tombstonedInternalIds) = _
          rw [hdead]
          exact hlive
        · change (st.tables.forgetUpdateMapping x).updatedInternalToReal.lookup j = _
          rw [hreverse, hcleared j hrev]
  | tombstone i =>
      refine ⟨⟨hgood.covers.bitCount, hgood.covers.capacity, hgood.covers.contains⟩,
        hgood.first, hgood.unused, hgood.owner_update,
        hgood.owner_real, ?_⟩
      intro j hj hnone
      obtain ⟨hlive, hrest⟩ := hgood.untouched j hj hnone
      have hji := hforeign hallowed.1 hj hnone
      refine ⟨?_, hrest⟩
      change decide (j ∈ insert i st.tables.tombstonedInternalIds) = false
      rw [IdTables.isTombstoned] at hlive
      simpa [hji] using hlive
  | storeVector i vector =>
      refine ⟨hgood.covers, hgood.first, hgood.unused, hgood.owner_update,
        hgood.owner_real, ?_⟩
      intro j hj hnone
      obtain ⟨hlive, hvec, hrest⟩ := hgood.untouched j hj hnone
      exact ⟨hlive, (Function.update_of_ne (hforeign hallowed.1 hj hnone) _ _).trans hvec,
        hrest⟩
  | putRow i row =>
      refine ⟨hgood.covers, hgood.first, hgood.unused, hgood.owner_update,
        hgood.owner_real, ?_⟩
      intro j hj hnone
      obtain ⟨hlive, hvec, hrev, hrow⟩ := hgood.untouched j hj hnone
      exact ⟨hlive, hvec, hrev,
        (Function.update_of_ne (hforeign hallowed hj hnone) _ _).trans hrow⟩
  | deleteRow i =>
      refine ⟨hgood.covers, hgood.first, hgood.unused, hgood.owner_update,
        hgood.owner_real, ?_⟩
      intro j hj hnone
      obtain ⟨hlive, hvec, hrev, hrow⟩ := hgood.untouched j hj hnone
      exact ⟨hlive, hvec, hrev,
        (Function.update_of_ne (hforeign hallowed hj hnone) _ _).trans hrow⟩

end AsterVec.Dense

import AsterVec.RowOwnership

/-!
Where the documents that are read come from.  Payload rows outlive a crash, while the
counter of the update ids goes back to the checkpoint and to what the log shows.
-/

namespace AsterVec.Dense

open AsterVec.IdTypes
open AsterVec.OpLog (OpType)
open AsterVec.Programs
open Prog

variable {V Row α : Type}

/-- The tables have the internal id `i` for `r`. -/
def Maps (tables : IdTables) (r i : Nat) : Prop :=
  tables.updatedRealToInternal.lookup r = some i ∨
    tables.updatedInternalToReal.lookup i = some r

namespace Lifetime

/-- A crash does not take the id back: the checkpoint or the log has it. -/
def Durable (g : Lifetime V Row) (i : Nat) : Prop :=
  g.logging = true → i < 2 ^ 63 ∨ i < g.checkpoint.tables.nextUpdateInternalId ∨
    ∃ entry ∈ g.log, entry.record.Inserts ∧ entry.record.internalId = i

end Lifetime

/-- What the holdings of a program mean. -/
structure Holdings.Hold (k : Holdings) (owner : Nat → Option Nat) (g : Lifetime V Row) :
    Prop where
  owned : ∀ r i, k.owned r i → owner i = some r
  taken : ∀ i, k.taken i → i < g.st.tables.nextUpdateInternalId
  kept : ∀ i, k.kept i → g.Durable i

namespace Lifetime

variable {g g' : Lifetime V Row}

/-- Every row belongs to the owner of its id. -/
structure Owned (P : Nat → Row → Prop) (owner : Nat → Option Nat) (g : Lifetime V Row) :
    Prop where
  direct : ∀ i < 2 ^ 63, owner i = some i
  first : 2 ^ 63 ≤ g.checkpoint.tables.nextUpdateInternalId
  later : g.checkpoint.tables.nextUpdateInternalId ≤ g.st.tables.nextUpdateInternalId
  rows : ∀ i r row, owner i = some r → g.st.rows i = some row → P r row
  mapped : ∀ r i, Maps g.st.tables r i →
    owner i = some r ∧ i < g.st.tables.nextUpdateInternalId ∧ g.Durable i
  saved : ∀ r i, Maps g.checkpoint.tables r i →
    owner i = some r ∧ i < g.checkpoint.tables.nextUpdateInternalId
  log : ∀ entry ∈ g.log, RecordOwned P (fun r i => owner i = some r) entry.record

/-- The store and its files are the same. -/
structure SameFiles (g g' : Lifetime V Row) : Prop where
  st : g'.st = g.st
  checkpoint : g'.checkpoint = g.checkpoint
  log : g'.log = g.log
  logging : g'.logging = g.logging

theorem SameFiles.durable (hsame : SameFiles g g') {i : Nat} (hi : g.Durable i) :
    g'.Durable i := by
  intro hlogging
  rw [hsame.checkpoint, hsame.log]
  exact hi (hsame.logging ▸ hlogging)

theorem SameFiles.hold (hsame : SameFiles g g') {k : Holdings} {owner : Nat → Option Nat}
    (hk : k.Hold owner g) : k.Hold owner g' := by
  refine ⟨hk.owned, fun i hi => ?_, fun i hi => hsame.durable (hk.kept i hi)⟩
  rw [hsame.st]
  exact hk.taken i hi

theorem SameFiles.owned (hsame : SameFiles g g') {P : Nat → Row → Prop}
    {owner : Nat → Option Nat} (howned : Owned P owner g) : Owned P owner g' := by
  obtain ⟨hdirect, hfirst, hlater, hrows, hmapped, hsaved, hlog⟩ := howned
  refine ⟨hdirect, ?_, ?_, ?_, ?_, ?_, ?_⟩
  · rw [hsame.checkpoint]
    exact hfirst
  · rw [hsame.checkpoint, hsame.st]
    exact hlater
  · rw [hsame.st]
    exact hrows
  · rw [hsame.st]
    intro r i hmaps
    obtain ⟨hown, hlt, hi⟩ := hmapped r i hmaps
    exact ⟨hown, hlt, hsame.durable hi⟩
  · rw [hsame.checkpoint]
    exact hsaved
  · rw [hsame.log]
    exact hlog

/-- The owners once a program made a call: an update id gets the one that took it. -/
def ownerAfter (r : Nat) : (c : LoggedCall V Row) → LoggedReply c → (Nat → Option Nat) →
    (Nat → Option Nat)
  | .store c, reply, owner => Dense.ownerAfter r c reply owner
  | _, _, owner => owner

/-- The store once a program made a call. -/
def called (g : Lifetime V Row) (c : LoggedCall V Row) : Lifetime V Row :=
  { g with st := (execLogged c g.st).2, log := g.logAfter c }

/-- The log only grows. -/
theorem Durable.called {i : Nat} (hi : g.Durable i) (c : LoggedCall V Row) :
    (g.called c).Durable i := by
  intro hlogging
  refine (hi hlogging).imp_right (Or.imp_right ?_)
  rintro ⟨entry, hentry, hrest⟩
  refine ⟨entry, ?_, hrest⟩
  change entry ∈ g.logAfter c
  cases c with
  | append record =>
      rw [logAfter_append, if_pos (show g.logging = true from hlogging)]
      exact List.mem_append_left _ hentry
  | store | observe | count => exact hentry

/-- What a call leaves to the other programs. -/
structure Extends (owner owner' : Nat → Option Nat) (g g' : Lifetime V Row) : Prop where
  owners : ∀ i r, owner i = some r → owner' i = some r
  next : g.st.tables.nextUpdateInternalId ≤ g'.st.tables.nextUpdateInternalId
  durable : ∀ i, g.Durable i → g'.Durable i
  fresh : (∀ i, g.st.tables.nextUpdateInternalId ≤ i → owner i = none) →
    ∀ i, g'.st.tables.nextUpdateInternalId ≤ i → owner' i = none
  foreign : ∀ i, owner i = none → g'.st.rows i = g.st.rows i

theorem Extends.hold {owner owner' : Nat → Option Nat} (hext : Extends owner owner' g g')
    {k : Holdings} (hk : k.Hold owner g) : k.Hold owner' g' :=
  ⟨fun r i hown => hext.owners i r (hk.owned r i hown),
    fun i htaken => Nat.lt_of_lt_of_le (hk.taken i htaken) hext.next,
    fun i hkept => hext.durable i (hk.kept i hkept)⟩

theorem Extends.refl (owner : Nat → Option Nat) (g : Lifetime V Row) :
    Extends owner owner g g :=
  ⟨fun _ _ h => h, Nat.le_refl _, fun _ h => h, fun h => h, fun _ _ => rfl⟩

/-- Owners that are kept. -/
theorem Extends.of_same {owner : Nat → Option Nat}
    (hnext : g.st.tables.nextUpdateInternalId ≤ g'.st.tables.nextUpdateInternalId)
    (hdurable : ∀ i, g.Durable i → g'.Durable i)
    (hforeign : ∀ i, owner i = none → g'.st.rows i = g.st.rows i) :
    Extends owner owner g g' :=
  ⟨fun _ _ h => h, hnext, hdurable, fun hfresh i hi => hfresh i (Nat.le_trans hnext hi),
    hforeign⟩

/-- A call that leaves the rows, the maps and the counter alone. -/
structure Same (st st' : State V Row) : Prop where
  rows : st'.rows = st.rows
  forward : st'.tables.updatedRealToInternal = st.tables.updatedRealToInternal
  reverse : st'.tables.updatedInternalToReal = st.tables.updatedInternalToReal
  next : st'.tables.nextUpdateInternalId = st.tables.nextUpdateInternalId

theorem Same.refl (st : State V Row) : Same st st := ⟨rfl, rfl, rfl, rfl⟩

theorem Same.maps {st st' : State V Row} (hsame : Same st st') (r i : Nat) :
    Maps st'.tables r i ↔ Maps st.tables r i := by
  unfold Maps
  rw [hsame.forward, hsame.reverse]

variable {P : Nat → Row → Prop} {owner : Nat → Option Nat} {role : Role} {k : Holdings}

theorem Owned.same (howned : g.Owned P owner) {st : State V Row} (hsame : Same g.st st) :
    Owned P owner { g with st := st } where
  direct := howned.direct
  first := howned.first
  later := Nat.le_trans howned.later (Nat.le_of_eq hsame.next.symm)
  rows i r row hown hrow := by
    rw [hsame.rows] at hrow
    exact howned.rows i r row hown hrow
  mapped r i hmaps := by
    obtain ⟨hown, hlt, hdurable⟩ := howned.mapped r i ((hsame.maps r i).mp hmaps)
    exact ⟨hown, Nat.lt_of_lt_of_le hlt (Nat.le_of_eq hsame.next.symm), hdurable⟩
  saved := howned.saved
  log := howned.log

theorem Extends.same {st : State V Row} (hsame : Same g.st st) :
    Extends owner owner g { g with st := st } :=
  .of_same (Nat.le_of_eq hsame.next.symm) (fun _ h => h) fun _ _ => congrFun hsame.rows _

/-- What a program that keeps to its holdings leaves behind with one call. -/
structure Serves (P : Nat → Row → Prop) (role : Role) (c : LoggedCall V Row) (k : Holdings)
    (owner : Nat → Option Nat) (g : Lifetime V Row) : Prop where
  owned : Owned P (ownerAfter role.id c (execLogged c g.st).1 owner) (g.called c)
  extends_ : Extends owner (ownerAfter role.id c (execLogged c g.st).1 owner) g (g.called c)
  holds : ∃ k', Holdings.Step P role c k (execLogged c g.st).1 k' ∧
    k'.Hold (ownerAfter role.id c (execLogged c g.st).1 owner) (g.called c)

/-- A call on the store that changes neither rows nor maps nor the counter, and tells
nothing. -/
theorem Owned.serves_same (howned : g.Owned P owner) (hk : k.Hold owner g)
    {c : Call V Row} (hsame : Same g.st (exec c g.st).2)
    (howner : Dense.ownerAfter role.id c (exec c g.st).1 owner = owner)
    (hstep : Holdings.Step P role (.store c) k (exec c g.st).1 k) :
    g.Serves P role (.store c) k owner := by
  have hext : Extends owner owner g { g with st := (exec c g.st).2 } := .same hsame
  refine ⟨?_, ?_, k, hstep, ?_⟩
  · change Owned P (Dense.ownerAfter role.id c (exec c g.st).1 owner) _
    rw [howner]
    exact howned.same hsame
  · change Extends owner (Dense.ownerAfter role.id c (exec c g.st).1 owner) g _
    rw [howner]
    exact hext
  · change k.Hold (Dense.ownerAfter role.id c (exec c g.st).1 owner) _
    rw [howner]
    exact hext.hold hk

theorem resolveInternal_cases (tables : IdTables) (r : Nat) :
    tables.resolveInternal r = r ∨
      tables.updatedRealToInternal.lookup r = some (tables.resolveInternal r) := by
  unfold IdTables.resolveInternal
  split
  · exact .inl rfl
  · cases tables.updatedRealToInternal.lookup r with
    | none => exact .inl rfl
    | some i => exact .inr rfl

theorem Owned.serves_resolveInternal (howned : g.Owned P owner) (hk : k.Hold owner g)
    {r : Nat} (hr : r < 2 ^ 63) :
    g.Serves P role (.store (.resolveInternal r)) k owner := by
  obtain ⟨hown, hdurable⟩ : owner (g.st.tables.resolveInternal r) = some r ∧
      g.Durable (g.st.tables.resolveInternal r) := by
    rcases resolveInternal_cases g.st.tables r with hself | hmap
    · rw [hself]
      exact ⟨howned.direct r hr, fun _ => .inl hr⟩
    · obtain ⟨hown, -, hdurable⟩ := howned.mapped r _ (.inl hmap)
      exact ⟨hown, hdurable⟩
  refine ⟨howned, .refl owner g, _, rfl, ?_, hk.taken, ?_⟩
  · rintro x i (⟨rfl, rfl⟩ | hold)
    · exact hown
    · exact hk.owned x i hold
  · rintro i (rfl | hold)
    · exact hdurable
    · exact hk.kept i hold

theorem Owned.serves_getRow (howned : g.Owned P owner) (hk : k.Hold owner g) (i : Nat) :
    g.Serves P role (.store (.getRow i)) k owner := by
  refine ⟨howned, .refl owner g, k, ⟨rfl, ?_⟩, hk⟩
  exact fun r row hown hrow => howned.rows i r row (hk.owned r i hown) hrow

/-- The owner of an update id is the id it is taken for. -/
theorem Owned.serves_allocateUpdateId (howned : g.Owned P owner) (hk : k.Hold owner g)
    (hnone : owner g.st.tables.nextUpdateInternalId = none)
    (hvacant : ∀ row, g.st.rows g.st.tables.nextUpdateInternalId = some row →
      P role.id row) :
    g.Serves P role (.store .allocateUpdateId) k owner := by
  have hkept : ∀ i r, owner i = some r →
      Function.update owner g.st.tables.nextUpdateInternalId (some role.id) i = some r := by
    intro i r hown
    have hne : i ≠ g.st.tables.nextUpdateInternalId := by
      rintro rfl
      rw [hnone] at hown
      cases hown
    rw [Function.update_of_ne hne]
    exact hown
  have hext : Extends owner (ownerAfter role.id (.store .allocateUpdateId)
      (execLogged (.store .allocateUpdateId) g.st).1 owner) g
      (g.called (.store .allocateUpdateId)) := by
    refine ⟨hkept, Nat.le_succ _, fun _ h => h, fun hfresh i hi => ?_, fun _ _ => rfl⟩
    have hlt : g.st.tables.nextUpdateInternalId < i := hi
    exact (Function.update_of_ne (Nat.ne_of_gt hlt) _ _).trans (hfresh i (Nat.le_of_lt hlt))
  refine ⟨⟨?_, howned.first, Nat.le_succ_of_le howned.later, ?_, ?_, ?_, ?_⟩, hext, _, rfl,
    ?_, ?_, hk.kept⟩
  · exact fun i hi => hkept i i (howned.direct i hi)
  · intro i r row hown hrow
    change Function.update owner g.st.tables.nextUpdateInternalId (some role.id) i = some r
      at hown
    rcases eq_or_ne i g.st.tables.nextUpdateInternalId with rfl | hne
    · rw [Function.update_self] at hown
      cases hown
      exact hvacant row hrow
    · rw [Function.update_of_ne hne] at hown
      exact howned.rows i r row hown hrow
  · intro r i hmaps
    obtain ⟨hown, hlt, hdurable⟩ := howned.mapped r i hmaps
    exact ⟨hkept i r hown, Nat.lt_succ_of_lt hlt, hdurable⟩
  · intro r i hmaps
    obtain ⟨hown, hlt⟩ := howned.saved r i hmaps
    exact ⟨hkept i r hown, hlt⟩
  · intro entry hentry
    obtain ⟨hreal, hinternal, haux, hpayload⟩ := howned.log entry hentry
    exact ⟨hreal, hkept _ _ hinternal, fun hop => hkept _ _ (haux hop), hpayload⟩
  · rintro x i (⟨rfl, rfl⟩ | hold)
    · exact Function.update_self _ _ _
    · exact hkept i x (hk.owned x i hold)
  · rintro i (rfl | hold)
    · exact Nat.lt_succ_self _
    · exact Nat.lt_succ_of_lt (hk.taken i hold)

/-- New tables whose maps have nothing new but what belongs there. -/
theorem Owned.serves_tables (howned : g.Owned P owner) (hk : k.Hold owner g)
    {c : Call V Row} {tables : IdTables} (hexec : (exec c g.st).2 = { g.st with tables := tables })
    (howner : Dense.ownerAfter role.id c (exec c g.st).1 owner = owner)
    (hstep : Holdings.Step P role (.store c) k (exec c g.st).1 k)
    (hnext : tables.nextUpdateInternalId = g.st.tables.nextUpdateInternalId)
    (hmapped : ∀ r i, Maps tables r i →
      owner i = some r ∧ i < g.st.tables.nextUpdateInternalId ∧ g.Durable i) :
    g.Serves P role (.store c) k owner := by
  have hcalled : g.called (.store c) = { g with st := { g.st with tables := tables } } :=
    congrArg (fun st => { g with st := st }) hexec
  have hkeeps : ownerAfter role.id (.store c) (execLogged (.store c) g.st).1 owner = owner :=
    howner
  have hext : Extends owner owner g { g with st := { g.st with tables := tables } } :=
    .of_same (Nat.le_of_eq hnext.symm) (fun _ h => h) fun _ _ => rfl
  refine ⟨?_, ?_, k, hstep, ?_⟩
  · rw [hkeeps, hcalled]
    refine ⟨howned.direct, howned.first, ?_, howned.rows, ?_, howned.saved, howned.log⟩
    · exact Nat.le_trans howned.later (Nat.le_of_eq hnext.symm)
    · intro r i hmaps
      obtain ⟨hown, hlt, hdurable⟩ := hmapped r i hmaps
      exact ⟨hown, Nat.lt_of_lt_of_le hlt (Nat.le_of_eq hnext.symm), hdurable⟩
  · rw [hkeeps, hcalled]
    exact hext
  · rw [hkeeps, hcalled]
    exact hext.hold hk

/-- Dropping the reverse entry of the old version leaves the others. -/
theorem maps_of_cleared {tables : IdTables} {previous : Option Nat} {r i : Nat}
    (hlookup : (previous.elim tables.updatedInternalToReal
      tables.updatedInternalToReal.erase).lookup i = some r) : Maps tables r i := by
  cases previous with
  | none => exact .inr hlookup
  | some j =>
      rw [Option.elim_some, lookup_erase] at hlookup
      split at hlookup
      · cases hlookup
      · exact .inr hlookup

theorem Owned.serves_recordUpdateMapping (howned : g.Owned P owner) (hk : k.Hold owner g)
    {r i : Nat} (hown : k.owned r i) (htaken : k.taken i) (hkept : k.kept i) :
    g.Serves P role (.store (.recordUpdateMapping r i)) k owner := by
  obtain ⟨hforward, hreverse, -, hnext⟩ := g.st.tables.recordUpdateMapping_maps r i
  have hnew : owner i = some r ∧ i < g.st.tables.nextUpdateInternalId ∧ g.Durable i :=
    ⟨hk.owned r i hown, hk.taken i htaken, hk.kept i hkept⟩
  refine howned.serves_tables hk rfl rfl rfl hnext ?_
  rintro x j (hmap | hmap)
  · rw [hforward, lookup_insert] at hmap
    split at hmap
    · rename_i hx
      cases hmap
      rw [hx]
      exact hnew
    · exact howned.mapped x j (.inl hmap)
  · rw [hreverse, lookup_insert] at hmap
    split at hmap
    · rename_i hj
      cases hmap
      rw [hj]
      exact hnew
    · exact howned.mapped x j (maps_of_cleared hmap)

theorem Owned.serves_forgetUpdateMapping (howned : g.Owned P owner) (hk : k.Hold owner g)
    (r : Nat) : g.Serves P role (.store (.forgetUpdateMapping r)) k owner := by
  obtain ⟨hforward, hreverse, -, hnext⟩ := forgetUpdateMapping_maps g.st.tables r
  refine howned.serves_tables hk rfl rfl rfl hnext ?_
  rintro x j (hmap | hmap)
  · rw [hforward] at hmap
    split at hmap
    · cases hmap
    · exact howned.mapped x j (.inl hmap)
  · rw [hreverse] at hmap
    exact howned.mapped x j (maps_of_cleared hmap)

/-- Rows that belong where they are written. -/
theorem Owned.serves_rows (howned : g.Owned P owner) (hk : k.Hold owner g)
    {c : Call V Row} {rows : Nat → Option Row}
    (hexec : (exec c g.st).2 = { g.st with rows := rows })
    (howner : Dense.ownerAfter role.id c (exec c g.st).1 owner = owner)
    (hstep : Holdings.Step P role (.store c) k (exec c g.st).1 k)
    (hrows : ∀ i r row, owner i = some r → rows i = some row → P r row)
    (hforeign : ∀ i, owner i = none → rows i = g.st.rows i) :
    g.Serves P role (.store c) k owner := by
  have hcalled : g.called (.store c) = { g with st := { g.st with rows := rows } } :=
    congrArg (fun st => { g with st := st }) hexec
  have hkeeps : ownerAfter role.id (.store c) (execLogged (.store c) g.st).1 owner = owner :=
    howner
  have hext : Extends owner owner g { g with st := { g.st with rows := rows } } :=
    .of_same (Nat.le_refl _) (fun _ h => h) hforeign
  refine ⟨?_, ?_, k, hstep, ?_⟩
  · rw [hkeeps, hcalled]
    exact ⟨howned.direct, howned.first, howned.later, hrows, howned.mapped, howned.saved,
      howned.log⟩
  · rw [hkeeps, hcalled]
    exact hext
  · rw [hkeeps, hcalled]
    exact hext.hold hk

/-- A list of rows, written one after the other. -/
theorem rows_foldl {items : List (Nat × Row)} {rows : Nat → Option Row}
    (hrows : ∀ i r row, owner i = some r → rows i = some row → P r row)
    (hitems : ∀ item ∈ items, ∃ r, owner item.1 = some r ∧ P r item.2) :
    (∀ i r row, owner i = some r →
      items.foldl (fun (rows : Nat → Option Row) item =>
        Function.update rows item.1 (some item.2)) rows i =
        some row → P r row) ∧
    ∀ i, owner i = none →
      items.foldl (fun (rows : Nat → Option Row) item =>
        Function.update rows item.1 (some item.2)) rows i =
        rows i := by
  induction items generalizing rows with
  | nil => exact ⟨hrows, fun _ _ => rfl⟩
  | cons item items ih =>
      obtain ⟨⟨r, hown, hrow⟩, hrest⟩ := List.forall_mem_cons.mp hitems
      have hfirst : ∀ i x row, owner i = some x →
          Function.update rows item.1 (some item.2) i = some row → P x row := by
        intro i x row hx hlookup
        rcases eq_or_ne i item.1 with rfl | hne
        · rw [Function.update_self] at hlookup
          cases hlookup
          rw [hown] at hx
          cases hx
          exact hrow
        · rw [Function.update_of_ne hne] at hlookup
          exact hrows i x row hx hlookup
      obtain ⟨hlater, hforeign⟩ := ih hfirst hrest
      refine ⟨hlater, fun i hnone => (hforeign i hnone).trans ?_⟩
      refine Function.update_of_ne ?_ _ _
      rintro rfl
      rw [hown] at hnone
      cases hnone

theorem Owned.serves_putRow (howned : g.Owned P owner) (hk : k.Hold owner g) {r i : Nat}
    {row : Row} (hown : k.owned r i) (hrow : P r row) :
    g.Serves P role (.store (.putRow i row)) k owner := by
  have hitem : ∀ item ∈ [(i, row)], ∃ r, owner item.1 = some r ∧ P r item.2 :=
    List.forall_mem_singleton.mpr ⟨r, hk.owned r i hown, hrow⟩
  obtain ⟨hrows, hforeign⟩ := rows_foldl howned.rows hitem
  exact howned.serves_rows hk rfl rfl rfl hrows hforeign

theorem Owned.serves_putRows (howned : g.Owned P owner) (hk : k.Hold owner g)
    {items : List (Nat × Row)}
    (hitems : ∀ item ∈ items, k.kept item.1 ∧ ∃ r, k.owned r item.1 ∧ P r item.2) :
    g.Serves P role (.store (.putRows items)) k owner := by
  have hplaced : ∀ item ∈ items, ∃ r, owner item.1 = some r ∧ P r item.2 := by
    intro item hitem
    obtain ⟨-, r, hown, hrow⟩ := hitems item hitem
    exact ⟨r, hk.owned r _ hown, hrow⟩
  obtain ⟨hrows, hforeign⟩ := rows_foldl howned.rows hplaced
  exact howned.serves_rows hk rfl rfl rfl hrows hforeign

theorem Owned.serves_deleteRow (howned : g.Owned P owner) (hk : k.Hold owner g) {r i : Nat}
    (hown : k.owned r i) : g.Serves P role (.store (.deleteRow i)) k owner := by
  refine howned.serves_rows hk rfl rfl rfl ?_ ?_
  · intro j x row hx hlookup
    rcases eq_or_ne j i with rfl | hne
    · rw [Function.update_self] at hlookup
      cases hlookup
    · rw [Function.update_of_ne hne] at hlookup
      exact howned.rows j x row hx hlookup
  · intro j hnone
    refine Function.update_of_ne ?_ _ _
    rintro rfl
    rw [hk.owned r j hown] at hnone
    cases hnone

/-- A record makes its update id durable. -/
theorem Owned.serves_append (howned : g.Owned P owner) (hk : k.Hold owner g)
    {record : LogRecord V Row} (hrecord : RecordOwned P k.owned record) :
    g.Serves P role (.append record) k owner := by
  have hlog : ∀ entry ∈ g.logAfter (.append record), entry ∈ g.log ∨ entry.record = record := by
    intro entry hentry
    rw [logAfter_append] at hentry
    split at hentry
    · refine (List.mem_append.mp hentry).imp_right fun hlast => ?_
      rw [List.mem_singleton.mp hlast]
    · exact .inl hentry
  have hext : Extends owner owner g (g.called (.append record)) :=
    .of_same (Nat.le_refl _) (fun _ hi => hi.called _) fun _ _ => rfl
  obtain ⟨hreal, hinternal, haux, hpayload⟩ := hrecord
  refine ⟨⟨howned.direct, howned.first, howned.later, howned.rows, ?_, howned.saved, ?_⟩,
    hext, _, rfl, hk.owned, hk.taken, ?_⟩
  · intro r i hmaps
    obtain ⟨hown, hlt, hi⟩ := howned.mapped r i hmaps
    exact ⟨hown, hlt, hi.called _⟩
  · intro entry hentry
    rcases hlog entry hentry with hold | heq
    · exact howned.log entry hold
    · rw [heq]
      exact ⟨hreal, hk.owned _ _ hinternal, fun hop => hk.owned _ _ (haux hop), hpayload⟩
  · rintro i (⟨hinserts, rfl⟩ | hold)
    · intro hlogging
      refine .inr (.inr ⟨⟨record, false⟩, ?_, hinserts, rfl⟩)
      change _ ∈ g.logAfter (.append record)
      rw [logAfter_append, if_pos (show g.logging = true from hlogging)]
      exact List.mem_append_right _ (List.mem_singleton_self _)
    · exact (hk.kept i hold).called _

theorem Owned.serves_observe (howned : g.Owned P owner) (hk : k.Hold owner g) (i : Nat) :
    g.Serves P role (.observe i) k owner := by
  have hnext : g.st.tables.nextUpdateInternalId ≤
      (g.st.tables.observeUpdateId i).nextUpdateInternalId ∧
      i < (g.st.tables.observeUpdateId i).nextUpdateInternalId := by
    unfold IdTables.observeUpdateId
    split
    · rename_i hle
      exact ⟨Nat.le_succ_of_le hle, Nat.lt_succ_self i⟩
    · rename_i hlt
      exact ⟨Nat.le_refl _, Nat.not_le.mp hlt⟩
  have hmaps : ∀ r j, Maps (g.st.tables.observeUpdateId i) r j → Maps g.st.tables r j := by
    intro r j hmap
    unfold IdTables.observeUpdateId at hmap
    split at hmap <;> exact hmap
  have hext : Extends owner owner g (g.called (.observe i)) :=
    .of_same hnext.1 (fun _ h => h) fun _ _ => rfl
  refine ⟨⟨howned.direct, howned.first, Nat.le_trans howned.later hnext.1, howned.rows, ?_,
    howned.saved, howned.log⟩, hext, _, rfl, hk.owned, ?_, hk.kept⟩
  · intro r j hmap
    obtain ⟨hown, hlt, hdurable⟩ := howned.mapped r j (hmaps r j hmap)
    exact ⟨hown, Nat.lt_of_lt_of_le hlt hnext.1, hdurable⟩
  · rintro j (rfl | hold)
    · exact hnext.2
    · exact Nat.lt_of_lt_of_le (hk.taken j hold) hnext.1

theorem Owned.serves_count (howned : g.Owned P owner) (hk : k.Hold owner g) (change : Int) :
    g.Serves P role (.count change) k owner :=
  ⟨howned, .of_same (Nat.le_refl _) (fun _ hi => hi) fun _ _ => rfl, k, rfl, hk⟩

/-- A program that keeps to its holdings serves the store with every call. -/
theorem Owned.serves (howned : g.Owned P owner) (hk : k.Hold owner g)
    {c : LoggedCall V Row} (hallowed : Holdings.Allowed P role c k)
    (hnew : c = .store .allocateUpdateId →
      owner g.st.tables.nextUpdateInternalId = none ∧
        ∀ row, g.st.rows g.st.tables.nextUpdateInternalId = some row → P role.id row) :
    g.Serves P role c k owner := by
  cases c with
  | append record => exact howned.serves_append hk hallowed.2
  | observe i => exact howned.serves_observe hk i
  | count change => exact howned.serves_count hk change
  | store c =>
      cases c with
      | resolveInternal r => exact howned.serves_resolveInternal hk hallowed
      | getRow i => exact howned.serves_getRow hk i
      | allocateUpdateId =>
          obtain ⟨hnone, hvacant⟩ := hnew rfl
          exact howned.serves_allocateUpdateId hk hnone hvacant
      | recordUpdateMapping r i =>
          obtain ⟨hown, htaken, hkept⟩ := hallowed
          exact howned.serves_recordUpdateMapping hk hown htaken hkept
      | forgetUpdateMapping r => exact howned.serves_forgetUpdateMapping hk r
      | putRow i row =>
          obtain ⟨-, r, hown, hrow⟩ := hallowed
          exact howned.serves_putRow hk hown hrow
      | putRows items => exact howned.serves_putRows hk hallowed
      | deleteRow i =>
          obtain ⟨r, hown⟩ := hallowed
          exact howned.serves_deleteRow hk hown
      | _ => exact howned.serves_same hk ⟨rfl, rfl, rfl, rfl⟩ rfl rfl

/-! Whole runs -/

/-- The invariant of a store over its sessions. -/
structure Sound (P : Nat → Row → Prop) (owner : Nat → Option Nat) (g : Lifetime V Row) :
    Prop where
  owned : Owned P owner g
  fresh : g.recovery = none → ∀ i, g.st.tables.nextUpdateInternalId ≤ i → owner i = none
  threads : ∀ t ∈ g.threads, ∃ k : Holdings, k.Hold owner g ∧
    Confined P t.call.role t.rest (fun _ _ => True) k
  opening : g.recovery ≠ none → g.threads = [] ∧ g.seen = []
  recovery : ∀ p, g.recovery = some p → ∃ k : Holdings, k.Hold owner g ∧
    Confined P .other p (fun ok k' => ok = true → ∀ entry ∈ g.log, entry.record.Inserts →
      k'.taken entry.record.internalId) k
  got : ∀ x ∈ g.got, P x.1 x.2
  seen : ∀ x ∈ g.seen, (∀ r, owner x.1 = some r → P r x.2) ∧
    (owner x.1 = none → g.st.rows x.1 = some x.2)

theorem sound_new (P : Nat → Row → Prop) (logging : Bool) :
    Sound P (fun i => if i < 2 ^ 63 then some i else none)
      (Lifetime.new logging : Lifetime V Row) := by
  have hmaps : ∀ r i, ¬Maps IdTables.empty r i := by
    rintro r i (hmap | hmap)
    · rw [show IdTables.empty.updatedRealToInternal.lookup r = none from
        AList.lookup_empty r] at hmap
      cases hmap
    · rw [show IdTables.empty.updatedInternalToReal.lookup i = none from
        AList.lookup_empty i] at hmap
      cases hmap
  refine ⟨⟨fun i hi => if_pos hi, Nat.le_refl _, Nat.le_refl _, ?_, ?_, ?_, ?_⟩, ?_, ?_, ?_, ?_,
    ?_, ?_⟩
  · rintro i r row - ⟨⟩
  · exact fun r i hmap => absurd hmap (hmaps r i)
  · exact fun r i hmap => absurd hmap (hmaps r i)
  · exact List.forall_mem_nil _
  · intro _ i hi
    exact if_neg (Nat.not_lt.mpr hi)
  · exact List.forall_mem_nil _
  · exact fun h => absurd rfl h
  · rintro p ⟨⟩
  · exact List.forall_mem_nil _
  · exact List.forall_mem_nil _

/-- With every id known to have an owner, the counter is past the ids that have one. -/
theorem Sound.lt_of_owner (hsound : g.Sound P owner) (hopen : g.recovery = none) {i r : Nat}
    (hown : owner i = some r) : i < g.st.tables.nextUpdateInternalId := by
  rcases Nat.lt_or_ge i g.st.tables.nextUpdateInternalId with hlt | hge
  · exact hlt
  · rw [hsound.fresh hopen i hge] at hown
    cases hown

theorem Owned.hold_direct (howned : g.Owned P owner) : Holdings.direct.Hold owner g := by
  refine ⟨?_, fun i hi => ?_, fun i hi _ => .inl hi⟩
  · rintro r i ⟨rfl, hr⟩
    exact howned.direct i hr
  · exact Nat.lt_of_lt_of_le hi (Nat.le_trans howned.first howned.later)

theorem Sound.begins {calls : List (PublicCall V Row)}
    (hsound : g.Sound (Derived calls) owner) (call : PublicCall V Row)
    (hopen : g.recovery = none) (hids : ∀ r ∈ call.ids, r ≤ kMaxRealId)
    (hcall : call ∈ calls) :
    Sound (Derived calls) owner { g with
      threads := ⟨call, call.program, none⟩ :: g.threads
      calls := call :: g.calls } := by
  have hsame : SameFiles g { g with
      threads := ⟨call, call.program, none⟩ :: g.threads
      calls := call :: g.calls } := ⟨rfl, rfl, rfl, rfl⟩
  refine ⟨hsame.owned hsound.owned, hsound.fresh, ?_, fun h => absurd hopen h, ?_, hsound.got,
    hsound.seen⟩
  · refine List.forall_mem_cons.mpr ⟨?_, fun t ht => ?_⟩
    · exact ⟨_, hsame.hold hsound.owned.hold_direct, PublicCall.confined hcall hids⟩
    · obtain ⟨k, hk, hconfined⟩ := hsound.threads t ht
      exact ⟨k, hsame.hold hk, hconfined⟩
  · intro p hp
    rw [show g.recovery = some p from hp] at hopen
    cases hopen

theorem PublicCall.lock_of_writer {call : PublicCall V Row} {r : Nat}
    (hrole : call.role = .writer r) : call.lock = some r := by
  match call with
  | .change (.write call) =>
      cases hrole
      rfl
  | .change (.rows _) => cases hrole
  | .getPayload _ => cases hrole
  | .search _ => cases hrole

/-- What a thread reads is derived for the id it is read for. -/
theorem Owned.got (howned : g.Owned P owner) (hk : k.Hold owner g) {call : PublicCall V Row}
    {c : LoggedCall V Row} (hallowed : Holdings.Allowed P call.role c k) :
    ∀ x ∈ call.got c (execLogged c g.st).1, P x.1 x.2 := by
  intro x hx
  unfold PublicCall.got at hx
  split at hx
  · rename_i r i row hreply
    rw [List.mem_singleton.mp hx]
    exact howned.rows i r row (hk.owned r i (hallowed r rfl)) hreply
  · cases hx

theorem seen_of_mem {call : PublicCall V Row} {c : LoggedCall V Row} {x : Nat × Row}
    (hx : x ∈ call.seen c (execLogged c g.st).1) :
    c = .store (.getRow x.1) ∧ g.st.rows x.1 = some x.2 := by
  unfold PublicCall.seen at hx
  split at hx
  · rename_i i row hreply
    rw [List.mem_singleton.mp hx]
    exact ⟨rfl, hreply⟩
  · cases hx

/-- What was read for a node is derived for its owner, also for one it gets later. -/
theorem Extends.seen {owner' : Nat → Option Nat} {x : Nat × Row}
    (hext : Extends owner owner' g g') (howned' : g'.Owned P owner')
    (hseen : (∀ r, owner x.1 = some r → P r x.2) ∧
      (owner x.1 = none → g.st.rows x.1 = some x.2)) :
    (∀ r, owner' x.1 = some r → P r x.2) ∧
      (owner' x.1 = none → g'.st.rows x.1 = some x.2) := by
  cases hold : owner x.1 with
  | none =>
      have hrow : g'.st.rows x.1 = some x.2 :=
        (hext.foreign x.1 hold).trans (hseen.2 hold)
      exact ⟨fun r hown => howned'.rows x.1 r x.2 hown hrow, fun _ => hrow⟩
  | some r =>
      have hkept := hext.owners x.1 r hold
      refine ⟨fun r' hown => ?_, fun hnone => ?_⟩
      · rw [hkept] at hown
        cases hown
        exact hseen.1 r hold
      · rw [hkept] at hnone
        cases hnone

theorem Sound.runs (hsound : g.Sound P owner) {before after : List (Thread V Row)}
    {t : Thread V Row} {c : LoggedCall V Row}
    {next : LoggedReply c → LoggedProg V Row Unit} (hthreads : g.threads = before ++ t :: after)
    (hrest : t.rest = .call c next)
    (hvacant : c = .store .allocateUpdateId → ∀ r, t.call.lock = some r → ∀ row,
      g.st.rows g.st.tables.nextUpdateInternalId = some row → P r row) :
    ∃ owner', Sound P owner' (g.ran before after t c next) := by
  have ht : t ∈ g.threads := by
    rw [hthreads]
    exact List.mem_append_right _ List.mem_cons_self
  have hopen : g.recovery = none := by
    by_contra hopening
    rw [(hsound.opening hopening).1] at ht
    cases ht
  obtain ⟨k, hk, hconfined⟩ := hsound.threads t ht
  rw [hrest] at hconfined
  obtain ⟨-, hallowed, hnext⟩ := hconfined
  have hserves : g.Serves P t.call.role c k owner := by
    refine hsound.owned.serves hk hallowed ?_
    rintro rfl
    exact ⟨hsound.fresh hopen _ (Nat.le_refl _),
      hvacant rfl _ (PublicCall.lock_of_writer hallowed)⟩
  obtain ⟨howned, hext, k', hstep, hk'⟩ := hserves
  have hsame : SameFiles (g.called c) (g.ran before after t c next) := ⟨rfl, rfl, rfl, rfl⟩
  refine ⟨_, hsame.owned howned, fun _ => hext.fresh (hsound.fresh hopen), ?_,
    fun h => absurd hopen h, ?_, ?_, ?_⟩
  · intro t' ht'
    have hmem : t' ∈ before ++ ⟨t.call, next (execLogged c g.st).1, g.lsnAfter t.lsn c⟩ ::
      after := ht'
    rcases List.mem_append.mp hmem with hbefore | hlater
    · obtain ⟨kept, hkept, hother⟩ := hsound.threads t' (by
        rw [hthreads]
        exact List.mem_append_left _ hbefore)
      exact ⟨kept, hsame.hold (hext.hold hkept), hother⟩
    · rcases List.mem_cons.mp hlater with rfl | hafter
      · exact ⟨k', hsame.hold hk', hnext _ _ hstep⟩
      · obtain ⟨kept, hkept, hother⟩ := hsound.threads t' (by
          rw [hthreads]
          exact List.mem_append_right _ (List.mem_cons_of_mem _ hafter))
        exact ⟨kept, hsame.hold (hext.hold hkept), hother⟩
  · intro p hp
    rw [show g.recovery = some p from hp] at hopen
    cases hopen
  · intro x hx
    rcases List.mem_append.mp hx with hnew | hold
    · exact hsound.owned.got hk hallowed x hnew
    · exact hsound.got x hold
  · intro x hx
    rcases List.mem_append.mp hx with hnew | hold
    · obtain ⟨rfl, hrow⟩ := seen_of_mem hnew
      exact ⟨fun r hown => hsound.owned.rows x.1 r x.2 hown hrow, fun _ => hrow⟩
    · exact hext.seen howned (hsound.seen x hold)

/-- Marking a record as aborted leaves the records. -/
theorem records_logAbort (log : List (LogEntry V Row)) (lsn : Option Nat) :
    (logAbort log lsn).map LogEntry.record = log.map LogEntry.record := by
  cases lsn with
  | none => rfl
  | some lsn =>
      apply List.ext_getElem?
      intro n
      change ((log.modify lsn fun entry => { entry with aborted := true }).map
        LogEntry.record)[n]? = _
      rw [List.getElem?_map, List.getElem?_map, List.getElem?_modify]
      cases log[n]? with
      | none => rfl
      | some entry =>
          change some (LogEntry.record (if lsn = n then _ else entry)) = some entry.record
          split <;> rfl

theorem exists_record {log log' : List (LogEntry V Row)}
    (hrecords : log'.map LogEntry.record = log.map LogEntry.record) {entry : LogEntry V Row}
    (hentry : entry ∈ log') : ∃ other ∈ log, other.record = entry.record := by
  have hmem := List.mem_map_of_mem (f := LogEntry.record) hentry
  rw [hrecords] at hmem
  exact List.mem_map.mp hmem

theorem Durable.of_records {i : Nat} (hi : g.Durable i) {log : List (LogEntry V Row)}
    (hrecords : log.map LogEntry.record = g.log.map LogEntry.record)
    (threads : List (Thread V Row)) :
    Durable { g with threads := threads, log := log } i := by
  intro hlogging
  refine (hi hlogging).imp_right (Or.imp_right ?_)
  rintro ⟨entry, hentry, hinserts, hinternal⟩
  obtain ⟨other, hother, heq⟩ := exists_record hrecords.symm hentry
  exact ⟨other, hother, heq ▸ hinserts, heq ▸ hinternal⟩

/-- A call that is over, or failed, leaves the others and the records. -/
theorem Sound.leaves (hsound : g.Sound P owner) {threads : List (Thread V Row)}
    {log : List (LogEntry V Row)} (hopen : g.recovery = none)
    (hthreads : ∀ t ∈ threads, t ∈ g.threads)
    (hrecords : log.map LogEntry.record = g.log.map LogEntry.record) :
    Sound P owner { g with threads := threads, log := log } := by
  have hhold : ∀ k : Holdings, k.Hold owner g →
      k.Hold owner { g with threads := threads, log := log } :=
    fun k hk => ⟨hk.owned, hk.taken, fun i hi => (hk.kept i hi).of_records hrecords threads⟩
  obtain ⟨hdirect, hfirst, hlater, hrows, hmapped, hsaved, hlog⟩ := hsound.owned
  refine ⟨⟨hdirect, hfirst, hlater, hrows, fun r i hmaps => ?_, hsaved, fun entry hentry => ?_⟩,
    hsound.fresh, fun t ht => ?_, fun h => absurd hopen h, fun p hp => ?_, hsound.got,
    hsound.seen⟩
  · obtain ⟨hown, hlt, hi⟩ := hmapped r i hmaps
    exact ⟨hown, hlt, hi.of_records hrecords threads⟩
  · obtain ⟨other, hother, heq⟩ := exists_record hrecords hentry
    rw [← heq]
    exact hlog other hother
  · obtain ⟨k, hk, hconfined⟩ := hsound.threads t (hthreads t ht)
    exact ⟨k, hhold k hk, hconfined⟩
  · rw [show g.recovery = some p from hp] at hopen
    cases hopen

theorem Sound.opened (hsound : g.Sound P owner) {before after : List (Thread V Row)}
    {t : Thread V Row} (hthreads : g.threads = before ++ t :: after) : g.recovery = none := by
  by_contra hopening
  have hnone := (hsound.opening hopening).1
  rw [hthreads] at hnone
  exact absurd hnone (by simp)

theorem mem_of_removed {before after : List (Thread V Row)} {t : Thread V Row}
    (hthreads : g.threads = before ++ t :: after) :
    ∀ other ∈ before ++ after, other ∈ g.threads := by
  intro other hother
  rw [hthreads]
  rcases List.mem_append.mp hother with hbefore | hafter
  · exact List.mem_append_left _ hbefore
  · exact List.mem_append_right _ (List.mem_cons_of_mem _ hafter)

theorem Sound.built (hsound : g.Sound P owner) {st : State V Row} (hopen : g.recovery = none)
    (htables : st.tables = g.st.tables) (hrows : st.rows = g.st.rows) :
    Sound P owner { g with st := st } := by
  have hsame : Same g.st st := ⟨hrows, by rw [htables], by rw [htables], by rw [htables]⟩
  have hext : Extends owner owner g { g with st := st } := .same hsame
  refine ⟨hsound.owned.same hsame, fun _ => hext.fresh (hsound.fresh hopen), fun t ht => ?_,
    hsound.opening, fun p hp => ?_, hsound.got,
    fun x hx => hext.seen (hsound.owned.same hsame) (hsound.seen x hx)⟩
  · obtain ⟨k, hk, hconfined⟩ := hsound.threads t ht
    exact ⟨k, hext.hold hk, hconfined⟩
  · rw [show g.recovery = some p from hp] at hopen
    cases hopen

/-- What was durable is in the new checkpoint. -/
theorem Sound.durable_checkpointed (hsound : g.Sound P owner) (hopen : g.recovery = none)
    {i : Nat} (hi : g.Durable i) : Durable { g with checkpoint := g.st, log := [] } i := by
  intro hlogging
  rcases hi hlogging with hlt | hlt | ⟨entry, hentry, -, rfl⟩
  · exact .inl hlt
  · exact .inr (.inl (Nat.lt_of_lt_of_le hlt hsound.owned.later))
  · exact .inr (.inl (hsound.lt_of_owner hopen (hsound.owned.log entry hentry).internal))

theorem Sound.checkpointed (hsound : g.Sound P owner) (hopen : g.recovery = none) :
    Sound P owner { g with checkpoint := g.st, log := [] } := by
  obtain ⟨hdirect, hfirst, hlater, hrows, hmapped, hsaved, hlog⟩ := hsound.owned
  have hdurable : ∀ i, g.Durable i → Durable { g with checkpoint := g.st, log := [] } i :=
    fun i hi => hsound.durable_checkpointed hopen hi
  refine ⟨⟨hdirect, Nat.le_trans hfirst hlater, Nat.le_refl _, hrows, ?_, ?_,
    List.forall_mem_nil _⟩, hsound.fresh, fun t ht => ?_, hsound.opening, fun p hp => ?_,
    hsound.got, hsound.seen⟩
  · intro r i hmaps
    obtain ⟨hown, hlt, hi⟩ := hmapped r i hmaps
    exact ⟨hown, hlt, hdurable i hi⟩
  · intro r i hmaps
    obtain ⟨hown, hlt, -⟩ := hmapped r i hmaps
    exact ⟨hown, hlt⟩
  · obtain ⟨k, hk, hconfined⟩ := hsound.threads t ht
    exact ⟨k, ⟨hk.owned, hk.taken, fun i hi => hdurable i (hk.kept i hi)⟩, hconfined⟩
  · rw [show g.recovery = some p from hp] at hopen
    cases hopen

/-- A reload builds the reverse map from the forward one. -/
theorem maps_of_reload {tables : IdTables} {r i : Nat} (hmaps : Maps tables.reload r i) :
    Maps tables r i := by
  rcases hmaps with hmap | hmap
  · exact .inl hmap
  · change (IdTables.reverseEntries tables.updatedRealToInternal.entries ∅).lookup i = some r
      at hmap
    rcases IdTables.lookup_reverseEntries tables.updatedRealToInternal.entries ∅ i with
      ⟨entry, hentry, rfl, hfound⟩ | ⟨-, hkept⟩
    · rw [hfound] at hmap
      cases hmap
      exact .inl (AList.mem_lookup_iff.mpr hentry)
    · rw [hkept, AList.lookup_empty] at hmap
      cases hmap

theorem Sound.reopens (hsound : g.Sound P owner) {base : State V Row}
    {items : List (LogEntry V Row × Plan)} (logging : Bool)
    (hrevives : base.Revives g.checkpoint) (hrows : base.rows = g.st.rows)
    (hitems : items.map Prod.fst = g.log) :
    Sound P owner { g with
      st := base
      threads := []
      logging := logging
      recovery := some (recoverFromOpLog items)
      seen := [] } := by
  obtain ⟨hdirect, hfirst, -, hold, -, hsaved, hlog⟩ := hsound.owned
  have hnext : base.tables.nextUpdateInternalId =
      g.checkpoint.tables.nextUpdateInternalId := by
    rw [hrevives.tables]
    rfl
  have hentries : ∀ item ∈ items, item.1 ∈ g.log := by
    intro item hitem
    rw [← hitems]
    exact List.mem_map_of_mem hitem
  refine ⟨⟨hdirect, hfirst, Nat.le_of_eq hnext.symm, ?_, ?_, hsaved, hlog⟩,
    (by rintro ⟨⟩), List.forall_mem_nil _, fun _ => ⟨rfl, rfl⟩, ?_, hsound.got,
    List.forall_mem_nil _⟩
  · change ∀ i r row, owner i = some r → base.rows i = some row → P r row
    rw [hrows]
    exact hold
  · intro r i hmaps
    replace hmaps : Maps base.tables r i := hmaps
    rw [hrevives.tables] at hmaps
    obtain ⟨hown, hlt⟩ := hsaved r i (maps_of_reload hmaps)
    exact ⟨hown, Nat.lt_of_lt_of_le hlt (Nat.le_of_eq hnext.symm), fun _ => .inr (.inl hlt)⟩
  · rintro p ⟨⟩
    refine ⟨⟨fun r i => owner i = some r, fun i => i < 2 ^ 63, Durable { g with
      st := base
      threads := []
      logging := logging
      recovery := some (recoverFromOpLog items)
      seen := [] }⟩, ⟨fun _ _ h => h, fun i hi => ?_, fun _ h => h⟩, ?_⟩
    · exact Nat.lt_of_lt_of_le hi (Nat.le_trans hfirst (Nat.le_of_eq hnext.symm))
    · refine (confined_recoverFromOpLog (fun item hitem => ?_) fun _ h => h).mono ?_
      · refine ⟨hlog item.1 (hentries item hitem), fun hinserts _ => .inr (.inr ?_)⟩
        exact ⟨item.1, hentries item hitem, hinserts, rfl⟩
      · rintro ok k ⟨-, hall⟩ hok entry hentry hinserts
        have hmem : entry ∈ items.map Prod.fst := by
          rw [hitems]
          exact hentry
        obtain ⟨item, hitem, rfl⟩ := List.mem_map.mp hmem
        exact hall hok item hitem hinserts

/-- The replay writes no records. -/
theorem logAfter_of_allowed {c : LoggedCall V Row}
    (hallowed : Holdings.Allowed P .other c k) : g.logAfter c = g.log := by
  cases c with
  | append record => exact absurd hallowed.1 (by rintro ⟨⟩)
  | store | observe | count => rfl

theorem Sound.replays (hsound : g.Sound P owner) {c : LoggedCall V Row}
    {next : LoggedReply c → LoggedProg V Row Bool}
    (hrecovery : g.recovery = some (.call c next)) :
    ∃ owner', Sound P owner' { g with
      st := (execLogged c g.st).2
      recovery := some (next (execLogged c g.st).1) } := by
  obtain ⟨hthreads, hnone⟩ := hsound.opening (by rw [hrecovery]; simp)
  obtain ⟨k, hk, hconfined⟩ := hsound.recovery _ hrecovery
  obtain ⟨-, hallowed, hnext⟩ := hconfined
  have hserves : g.Serves P .other c k owner := by
    refine hsound.owned.serves hk hallowed ?_
    rintro rfl
    exact absurd (show Role.other = Role.writer _ from hallowed) (by rintro ⟨⟩)
  obtain ⟨howned, hext, k', hstep, hk'⟩ := hserves
  have hsame : SameFiles (g.called c) { g with
      st := (execLogged c g.st).2
      recovery := some (next (execLogged c g.st).1) } :=
    ⟨rfl, rfl, (logAfter_of_allowed hallowed).symm, rfl⟩
  refine ⟨_, hsame.owned howned, (by rintro ⟨⟩), ?_, fun _ => ⟨hthreads, hnone⟩, ?_, hsound.got,
    ?_⟩
  · intro t ht
    rw [show g.threads = [] from hthreads] at ht
    cases ht
  · rintro p ⟨⟩
    exact ⟨k', hsame.hold hk', hnext _ _ hstep⟩
  · intro x hx
    rw [show g.seen = [] from hnone] at hx
    cases hx

/-- The replay is over: every id with an owner is below the counter, the rest is given up. -/
theorem Sound.recovered (hsound : g.Sound P owner)
    (hrecovery : g.recovery = some (.done true)) :
    ∃ owner', Sound P owner' { g with
      checkpoint := if g.log.isEmpty then g.checkpoint else g.st
      log := []
      recovery := none } := by
  obtain ⟨hthreads, hnone⟩ := hsound.opening (by rw [hrecovery]; simp)
  obtain ⟨hdirect, hfirst, hlater, hrows, hmapped, hsaved, hlog⟩ := hsound.owned
  have hkept : ∀ i r, owner i = some r → i < g.st.tables.nextUpdateInternalId →
      (if i < g.st.tables.nextUpdateInternalId then owner i else none) = some r := by
    intro i r hown hlt
    rw [if_pos hlt]
    exact hown
  refine ⟨fun i => if i < g.st.tables.nextUpdateInternalId then owner i else none,
    ⟨fun i hi => ?_, ?_, ?_, ?_, ?_, ?_, List.forall_mem_nil _⟩, ?_, ?_, ?_, ?_, hsound.got, ?_⟩
  · exact hkept i i (hdirect i hi)
      (Nat.lt_of_lt_of_le hi (Nat.le_trans hfirst hlater))
  · change 2 ^ 63 ≤ (if g.log.isEmpty then g.checkpoint else g.st).tables.nextUpdateInternalId
    split
    · exact hfirst
    · exact Nat.le_trans hfirst hlater
  · change (if g.log.isEmpty then g.checkpoint else g.st).tables.nextUpdateInternalId ≤ _
    split
    · exact hlater
    · exact Nat.le_refl _
  · intro i r row hown hrow
    split at hown
    · exact hrows i r row hown hrow
    · cases hown
  · intro r i hmaps
    obtain ⟨hown, hlt, hi⟩ := hmapped r i hmaps
    refine ⟨hkept i r hown hlt, hlt, fun hlogging => ?_⟩
    change i < 2 ^ 63 ∨
      i < (if g.log.isEmpty then g.checkpoint else g.st).tables.nextUpdateInternalId ∨ _
    split
    · rename_i hempty
      refine (hi hlogging).imp_right (Or.imp_right ?_)
      rintro ⟨entry, hentry, -⟩
      rw [List.isEmpty_iff.mp hempty] at hentry
      cases hentry
    · exact .inr (.inl hlt)
  · intro r i hmaps
    change Maps (if g.log.isEmpty then g.checkpoint else g.st).tables r i at hmaps
    change _ ∧ i < (if g.log.isEmpty then g.checkpoint else g.st).tables.nextUpdateInternalId
    split at hmaps
    · obtain ⟨hown, hlt⟩ := hsaved r i hmaps
      rename_i hempty
      rw [if_pos hempty]
      exact ⟨hkept i r hown (Nat.lt_of_lt_of_le hlt hlater), hlt⟩
    · obtain ⟨hown, hlt, -⟩ := hmapped r i hmaps
      rename_i hempty
      rw [if_neg hempty]
      exact ⟨hkept i r hown hlt, hlt⟩
  · exact fun _ i hi => if_neg (Nat.not_lt.mpr hi)
  · intro t ht
    rw [show g.threads = [] from hthreads] at ht
    cases ht
  · exact fun h => absurd rfl h
  · rintro p ⟨⟩
  · intro x hx
    rw [show g.seen = [] from hnone] at hx
    cases hx

variable {Session : Bool → Prop} {Condition Condition' : Lifetime V Row → Nat → Prop}

theorem Step.mono (hcondition : g.threads ≠ [] → ∀ r, Condition g r → Condition' g r)
    (hstep : Step Session Condition g g') : Step Session Condition' g g' := by
  cases hstep with
  | begins call hopen hids hlock => exact .begins g call hopen hids hlock
  | runs before after t c next hthreads hrest hcond =>
      refine .runs g before after t c next hthreads hrest
        fun hc r hlock => hcondition ?_ r (hcond hc r hlock)
      rw [hthreads]
      exact List.append_ne_nil_of_right_ne_nil before (List.cons_ne_nil t after)
  | ends before after t hthreads hrest => exact .ends g before after t hthreads hrest
  | fails before after t aborts hthreads => exact .fails g before after t aborts hthreads
  | built st hopen hidle htables hrows => exact .built g st hopen hidle htables hrows
  | checkpointed hopen hidle => exact .checkpointed g hopen hidle
  | reopens base items logging hsession hrevives hrows hitems =>
      exact .reopens g base items logging hsession hrevives hrows hitems
  | replays c next hrecovery => exact .replays g c next hrecovery
  | recovered hrecovery => exact .recovered g hrecovery

theorem Step.calls (hstep : Step Session Condition g g') : g.calls ⊆ g'.calls := by
  cases hstep with
  | begins call => exact List.subset_cons_self call g.calls
  | _ => exact fun _ h => h

/-- Every step keeps the invariant, when no row that came from elsewhere lies where a write
takes an update id. -/
theorem Sound.step {calls : List (PublicCall V Row)} (hsound : g.Sound (Derived calls) owner)
    (hstep : Step Session (fun g r => ∀ row,
      g.st.rows g.st.tables.nextUpdateInternalId = some row → Derived calls r row) g g')
    (hcalls : g'.calls ⊆ calls) : ∃ owner', g'.Sound (Derived calls) owner' := by
  cases hstep with
  | begins call hopen hids hlock =>
      exact ⟨owner, hsound.begins call hopen hids (hcalls List.mem_cons_self)⟩
  | runs before after t c next hthreads hrest hvacant =>
      exact hsound.runs hthreads hrest hvacant
  | ends before after t hthreads hrest =>
      exact ⟨owner, hsound.leaves (hsound.opened hthreads) (mem_of_removed hthreads) rfl⟩
  | fails before after t aborts hthreads =>
      refine ⟨owner, hsound.leaves (hsound.opened hthreads) (mem_of_removed hthreads) ?_⟩
      split
      · exact records_logAbort _ _
      · rfl
  | built st hopen hidle htables hrows => exact ⟨owner, hsound.built hopen htables hrows⟩
  | checkpointed hopen hidle => exact ⟨owner, hsound.checkpointed hopen⟩
  | reopens base items logging hsession hrevives hrows hitems =>
      exact ⟨owner, hsound.reopens logging hrevives hrows hitems⟩
  | replays c next hrecovery => exact hsound.replays hrecovery
  | recovered hrecovery => exact hsound.recovered hrecovery

/-- Every document read for an id is derived from what calls naming that id supplied. -/
def Private (g : Lifetime V Row) : Prop :=
  (∀ x ∈ g.got, Derived g.calls x.1 x.2) ∧
    ∀ x ∈ g.seen, ∀ r ≤ kMaxRealId, g.st.tables.resolveReal x.1 = r → Derived g.calls r x.2

/-- A node that translates to a caller id has this owner. -/
theorem Owned.owner_of_resolveReal (howned : g.Owned P owner) {i r : Nat}
    (hr : r ≤ kMaxRealId) (hreal : g.st.tables.resolveReal i = r) : owner i = some r := by
  have hsmall := (le_kMaxRealId_iff r).mp hr
  unfold IdTables.resolveReal at hreal
  split at hreal
  · rename_i hdirect
    rw [← hreal]
    exact howned.direct i ((isDirectId_iff i).mp hdirect)
  · rename_i hupdate
    cases hmap : g.st.tables.updatedInternalToReal.lookup i with
    | none =>
        rw [hmap, Option.getD_none] at hreal
        exact absurd ((isDirectId_iff i).mpr (hreal ▸ hsmall)) hupdate
    | some x =>
        rw [hmap, Option.getD_some] at hreal
        rw [← hreal]
        exact (howned.mapped x i (.inr hmap)).1

theorem Sound.private (hsound : g.Sound (Derived g.calls) owner) : g.Private :=
  ⟨hsound.got, fun x hx r hr hreal =>
    (hsound.seen x hx).1 r (hsound.owned.owner_of_resolveReal hr hreal)⟩

/-- The place of the update id that the next write takes holds no row of another id. -/
def Vacant (g : Lifetime V Row) (r : Nat) : Prop :=
  ∀ row, g.st.rows g.st.tables.nextUpdateInternalId = some row → Derived g.calls r row

theorem Runs.sound (hruns : Runs Session Vacant g) {calls : List (PublicCall V Row)}
    (hcalls : g.calls ⊆ calls) : ∃ owner, g.Sound (Derived calls) owner := by
  induction hruns with
  | new logging _ => exact ⟨_, sound_new _ logging⟩
  | step _ hstep ih =>
      obtain ⟨owner, hsound⟩ := ih (List.Subset.trans hstep.calls hcalls)
      refine hsound.step (hstep.mono fun _ r hvacant row hrow => ?_) hcalls
      exact (hvacant row hrow).mono (List.Subset.trans hstep.calls hcalls)

end Lifetime

end AsterVec.Dense

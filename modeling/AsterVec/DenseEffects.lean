import AsterVec.DenseTraffic

/-!
What calls do to the contents of all ids: by themselves, and when the rows they write go
to current versions.
-/

namespace AsterVec.Dense

open AsterVec.IdTypes
open AsterVec.Programs
open Prog

variable {V Row κ : Type}

/-! Effects on the contents of all ids -/

def putContents (items : List (Nat × Row)) (contents : Nat → Content Row) :
    Nat → Content Row :=
  items.foldl (fun contents item => Function.update contents item.1 (some (some item.2)))
    contents

theorem putContents_of_not_mem {items : List (Nat × Row)} {contents : Nat → Content Row}
    {r : Nat} (hr : ∀ item ∈ items, item.1 ≠ r) : putContents items contents r = contents r := by
  induction items generalizing contents with
  | nil => rfl
  | cons item items ih =>
      obtain ⟨hfirst, hrest⟩ := List.forall_mem_cons.mp hr
      exact (ih hrest).trans (Function.update_of_ne hfirst.symm _ _)

def RowCall.onContents : RowCall Row → (Nat → Content Row) → Nat → Content Row
  | .one call, contents =>
      Function.update contents call.r (call.onContent (contents call.r))
  | .batch items, contents =>
      if ∀ item ∈ items, (contents item.1).isSome = true then putContents items contents
      else contents

def DbCall.onContents : DbCall V Row → (Nat → Content Row) → Nat → Content Row
  | .write call, contents =>
      Function.update contents call.r (call.onContent (contents call.r))
  | .rows call, contents => call.onContents contents

/-- The contents after the calls that are over, of which those that failed count for
nothing. -/
def contentsAfter (contents : Nat → Content Row) :
    List (Finished V Row) → Nat → Content Row
  | [] => contents
  | last :: finished =>
      bif last.ok then last.call.onContents (contentsAfter contents finished)
      else contentsAfter contents finished

/-! Rows written to current versions -/

namespace Machine

variable {m : Machine V Row}

theorem Sound.current_eq (hsound : m.Sound) (r : Nat) :
    (m.slice r).current r = m.st.tables.resolveInternal r :=
  (IdTables.resolveInternal_eq hsound.good.covers r).symm

theorem Sound.alive_iff (hsound : m.Sound) {r : Nat} (hr : r < 2 ^ 63) :
    (m.slice r).Alive r ↔ AliveIn m.st r := by
  have howned := (hsound.inv r hr).owned_current
  unfold Slice.Alive AliveIn Located
  rw [hsound.current_eq] at howned ⊢
  obtain ⟨hdead, hvec, -⟩ := Quiet.slice_at m.st howned
  unfold slice
  rw [hdead, hvec]

/-- A row is written at the current version of an id that nobody writes. -/
theorem Sound.putRow (hsound : m.Sound) {r : Nat} (hr : r < 2 ^ 63)
    (hfree : m.writers r = none) (halive : (m.slice r).Alive r) (row : Row) :
    let m' : Machine V Row :=
      { m with st := (exec (.putRow (m.st.tables.resolveInternal r) row : Call V Row) m.st).2 }
    m'.Sound ∧ m'.slice r = (m.slice r).setRow ((m.slice r).current r) (some row) ∧
      ∀ x < 2 ^ 63, x ≠ r → m'.slice x = m.slice x := by
  rw [← hsound.current_eq]
  intro m'
  have hinv := hsound.inv r hr
  have hallowed : Slice.Allowed r (.putRow ((m.slice r).current r) row : Call V Row)
      (m.slice r) := hinv.owned_current
  have hown : m'.slice r = (m.slice r).setRow ((m.slice r).current r) (some row) :=
    sliceOf_step hsound.good hr hallowed
  have hother : ∀ x < 2 ^ 63, x ≠ r → m'.slice x = m.slice x :=
    fun x hx hne => sliceOf_other hsound.good hr hx hne hinv hallowed
  refine ⟨⟨good_exec hsound.good hr hinv hallowed, ?_, ?_, hsound.locked, ?_⟩, hown, hother⟩
  · intro x hx
    rcases eq_or_ne x r with rfl | hne
    · exact hinv.step hallowed (sliceOf_step hsound.good hx hallowed)
    · rw [hother x hx hne]
      exact hsound.inv x hx
  · intro x hx hnone
    rcases eq_or_ne x r with rfl | hne
    · rw [hown]
      exact (hsound.idle x hx hfree).setRow halive row
    · rw [hother x hx hne]
      exact hsound.idle x hx hnone
  · intro x p hp
    have hne : x ≠ r := by
      rintro rfl
      rw [show m.writers x = some p from hp] at hfree
      cases hfree
    rw [hother x (hsound.locked x p hp) hne]
    exact hsound.safe x p hp

theorem Sound.putRows (hsound : m.Sound) (contents : Nat → Content Row)
    (hcontents : ∀ r < 2 ^ 63, m.writers r = none → (m.slice r).content r = contents r)
    {items : List (Nat × Row)}
    (hitems : ∀ item ∈ items, item.1 < 2 ^ 63 ∧ m.writers item.1 = none ∧
      AliveIn m.st item.1) :
    let m' : Machine V Row :=
      { m with st := (exec (.putRows (items.map fun item =>
          (m.st.tables.resolveInternal item.1, item.2)) : Call V Row) m.st).2 }
    m'.Sound ∧
      (∀ r < 2 ^ 63, m.writers r = none →
        (m'.slice r).content r = putContents items contents r) ∧
      ∀ r < 2 ^ 63, m.writers r ≠ none → m'.slice r = m.slice r := by
  induction items generalizing m contents with
  | nil => exact ⟨hsound, hcontents, fun _ _ _ => rfl⟩
  | cons item items ih =>
      obtain ⟨hr, hfree, halive⟩ := hitems item List.mem_cons_self
      have hlive := (hsound.alive_iff hr).mpr halive
      obtain ⟨hsound', hown, hother⟩ := hsound.putRow hr hfree hlive item.2
      have hnext := ih hsound' (Function.update contents item.1 (some (some item.2)))
        (fun r hr' hnone => ?_)
        (fun other hmem => hitems other (List.mem_cons_of_mem _ hmem))
      · obtain ⟨hfinal, hcontents', hwriters⟩ := hnext
        refine ⟨hfinal, hcontents', fun r hr' hwriter => ?_⟩
        have hne : r ≠ item.1 := by
          rintro rfl
          exact hwriter hfree
        exact (hwriters r hr' hwriter).trans (hother r hr' hne)
      · rcases eq_or_ne r item.1 with rfl | hne
        · rw [hown, Function.update_self]
          have hstill : ((m.slice item.1).setRow ((m.slice item.1).current item.1)
            (some item.2)).Alive item.1 := hlive
          rw [hstill.content]
          exact congrArg some (Function.update_self _ _ _)
        · rw [hother r hr' hne, Function.update_of_ne hne]
          exact hcontents r hr' hnone

end Machine

/-! One call after another -/

namespace Quiet

variable {owner : Nat → Option Nat} {st : State V Row} {contents : Nat → Content Row}

theorem sound (hquiet : Quiet owner st) :
    Machine.Sound (⟨st, owner, fun _ => none⟩ : Machine V Row) where
  good := hquiet.good
  inv := hquiet.inv
  idle := fun r hr _ => hquiet.idle r hr
  locked := by rintro _ _ ⟨⟩
  safe := by rintro _ _ ⟨⟩

theorem alive_iff_content (hquiet : Quiet owner st)
    (hcontents : ∀ r < 2 ^ 63, (sliceOf r owner st).content r = contents r) {r : Nat}
    (hr : r < 2 ^ 63) : (contents r).isSome = true ↔ AliveIn st r := by
  rw [← hcontents r hr, ← hquiet.alive_iff hr]
  constructor
  · intro hsome
    obtain ⟨row, hrow⟩ := Option.isSome_iff_exists.mp hsome
    exact (Slice.alive_of_content hrow).1
  · intro halive
    rw [halive.content]
    rfl

/-- A call for one id changes the content of that id. -/
theorem run_content (hquiet : Quiet owner st)
    (hcontents : ∀ r < 2 ^ 63, (sliceOf r owner st).content r = contents r) {r : Nat}
    (hr : r < 2 ^ 63) {p : Prog V Row Bool} {content : Content Row}
    (hidle : SafeWrite r p (fun _ s => s.Idle r) (sliceOf r owner st))
    (hcontent : SafeWrite r p (fun _ s => s.content r = content) (sliceOf r owner st)) :
    ∃ owner', Quiet owner' (p.run exec st).2 ∧ ∀ x < 2 ^ 63,
      (sliceOf x owner' (p.run exec st).2).content x =
        Function.update contents r content x := by
  have hboth : SafeWrite r p (fun _ s => s.Idle r ∧ s.content r = content)
      (sliceOf r owner st) := Safe.and hidle hcontent
  obtain ⟨owner', hquiet', hpost, hsame⟩ := hquiet.run_slices hr hboth
  refine ⟨owner', hquiet', fun x hx => ?_⟩
  rcases eq_or_ne x r with rfl | hne
  · rw [hpost, Function.update_self]
  · rw [hsame x hx hne, Function.update_of_ne hne]
    exact hcontents x hx

end Quiet

/-- The items resolve exactly when all ids are alive. -/
theorem run_resolveItems_alive {st : State V Row} {items : List (Nat × Row)}
    (halive : ∀ item ∈ items, AliveIn st item.1) :
    (resolveItems items).run exec st =
      (some (items.map fun item => (st.tables.resolveInternal item.1, item.2)), st) := by
  induction items with
  | nil => rfl
  | cons item items ih =>
      obtain ⟨alive, hrun, hiff⟩ := run_isAlive st item.1
      unfold resolveItems
      rw [Program.run_bind, hrun, hiff.mpr (halive item List.mem_cons_self)]
      change ((resolveItems items >>= fun rest => pure _ : Prog V Row _)).run exec st = _
      rw [Program.run_bind, ih fun other hmem => halive other (List.mem_cons_of_mem _ hmem)]
      rfl

theorem run_resolveItems_dead {st : State V Row} {items : List (Nat × Row)}
    (hdead : ¬∀ item ∈ items, AliveIn st item.1) :
    (resolveItems items).run exec st = (none, st) := by
  induction items with
  | nil => exact absurd (fun _ h => by cases h) hdead
  | cons item items ih =>
      obtain ⟨alive, hrun, hiff⟩ := run_isAlive st item.1
      unfold resolveItems
      rw [Program.run_bind, hrun]
      cases alive with
      | false => rfl
      | true =>
          have hrest : ¬∀ other ∈ items, AliveIn st other.1 := fun hall =>
            hdead (List.forall_mem_cons.mpr ⟨hiff.mp rfl, hall⟩)
          change ((resolveItems items >>= fun rest => pure _ : Prog V Row _)).run exec st = _
          rw [Program.run_bind, ih hrest]
          rfl

/-- A call by itself has its effect on the contents. -/
theorem Quiet.run_dbCall {owner : Nat → Option Nat} {st : State V Row}
    {contents : Nat → Content Row} (hquiet : Quiet owner st)
    (hcontents : ∀ r < 2 ^ 63, (sliceOf r owner st).content r = contents r)
    (call : DbCall V Row) (hids : ∀ r ∈ call.ids, r < 2 ^ 63) :
    ∃ owner', Quiet owner' (call.program.run exec st).2 ∧ ∀ r < 2 ^ 63,
      (sliceOf r owner' (call.program.run exec st).2).content r =
        call.onContents contents r := by
  cases call with
  | write call =>
      have hr := hids call.r (List.mem_singleton_self _)
      have hinv := hquiet.inv _ hr
      have hidle := hquiet.idle _ hr
      have hready : SafeWrite call.r call.program (fun _ s => s.Idle call.r)
          (sliceOf call.r owner st) := by
        cases call with
        | upsert kind write => exact (safe_writeDense hinv hidle kind).mono fun _ _ h => h.2
        | delete r => exact (safe_deleteDense hinv hidle).mono fun _ _ h => h.2
      have heffect := content_writeCall call hinv hidle
      rw [hcontents _ hr] at heffect
      exact hquiet.run_content hcontents hr hready heffect
  | rows call =>
      cases call with
      | one call =>
          have hr := hids call.r (List.mem_singleton_self _)
          have hinv := hquiet.inv _ hr
          have hidle := hquiet.idle _ hr
          have heffect := content_payload (V := V) call hinv hidle
          rw [hcontents _ hr] at heffect
          exact hquiet.run_content hcontents hr (safe_payload hinv hidle call rfl) heffect
      | batch items =>
          have hlt : ∀ item ∈ items, item.1 < 2 ^ 63 :=
            fun item hitem => hids _ (List.mem_map_of_mem hitem)
          have hiff : (∀ item ∈ items, (contents item.1).isSome = true) ↔
              ∀ item ∈ items, AliveIn st item.1 :=
            forall₂_congr fun item hitem =>
              hquiet.alive_iff_content hcontents (hlt item hitem)
          change ∃ owner', Quiet owner' ((setPayloadBatch items).run exec st).2 ∧
            ∀ r < 2 ^ 63, (sliceOf r owner' ((setPayloadBatch items).run exec st).2).content r =
              (if ∀ item ∈ items, (contents item.1).isSome = true then
                putContents items contents else contents) r
          unfold setPayloadBatch
          rw [Program.run_bind]
          by_cases halive : ∀ item ∈ items, AliveIn st item.1
          · rw [run_resolveItems_alive halive, if_pos (hiff.mpr halive)]
            obtain ⟨hsound, hafter, -⟩ := hquiet.sound.putRows contents
              (fun r hr _ => hcontents r hr)
              (fun item hitem => ⟨hlt item hitem, rfl, halive item hitem⟩)
            exact ⟨owner, ⟨hsound.good, hsound.inv, fun r hr => hsound.idle r hr rfl,
              hquiet.mapped⟩, fun r hr => hafter r hr rfl⟩
          · rw [run_resolveItems_dead halive, if_neg (hiff.not.mpr halive)]
            exact ⟨owner, hquiet, hcontents⟩

/-! What payload calls write -/

/-- The rows are those of the call, given the row it has read. -/
def RowCall.Writes (rows : List (Nat × Row)) (found : Option (Option Row)) :
    RowCall Row → Prop
  | .one (.set _ row) => rows.map Prod.snd = [row]
  | .one (.update _ patch) =>
      ∃ existing, found = some existing ∧ rows.map Prod.snd = [patch existing]
  | .one (.deleteKeys _ erase) =>
      ∃ existing row, found = some existing ∧ existing.bind erase = some row ∧
        rows.map Prod.snd = [row]
  | .batch items => rows.map Prod.snd = items.map Prod.snd

def ReadsOnly : Call V Row → Prop
  | .resolveInternal _ | .isTombstoned _ | .vectorExists _ | .getRow _ => True
  | _ => False

/-- The program reads until it writes the rows of its call, which ends it. -/
def Faithful (call : RowCall Row) : Prog V Row Bool → Option (Option Row) → Prop
  | .done ok, _ => ok = false
  | .call c next, found =>
      (∀ rows, Traffic.rowsOf c = some rows →
        (∀ reply, next reply = .done true) ∧ call.Writes rows found) ∧
      (Traffic.rowsOf c = none → ReadsOnly c ∧
        ∀ reply, Faithful call (next reply) (Traffic.foundAfter c reply found))

section Faithful

variable {call : RowCall Row} {found : Option (Option Row)}

theorem faithful_read {c : Call V Row} {follow : Reply c → Prog V Row Bool}
    (hreads : ReadsOnly c)
    (hnext : ∀ reply, Faithful call (follow reply) (Traffic.foundAfter c reply found)) :
    Faithful call (perform c >>= follow) found := by
  refine ⟨fun rows hrows => ?_, fun _ => ⟨hreads, hnext⟩⟩
  cases c <;> first | exact False.elim hreads | cases hrows

theorem faithful_isAlive {r : Nat} {follow : Bool → Prog V Row Bool}
    (hnext : ∀ alive, Faithful call (follow alive) found) :
    Faithful call (isAlive r >>= follow) found := by
  unfold isAlive
  apply faithful_read (c := .resolveInternal r) trivial
  intro i
  apply faithful_read (c := .isTombstoned i) trivial
  intro dead
  cases (dead : Bool) with
  | true => exact hnext false
  | false => exact faithful_read (c := .vectorExists i) trivial fun alive => hnext alive

theorem faithful_putRow {i : Nat} {row : Row} (hwrites : call.Writes [(i, row)] found) :
    Faithful call (do putRow i row; pure true : Prog V Row Bool) found := by
  refine ⟨?_, fun h => by cases h⟩
  rintro _ ⟨⟩
  exact ⟨fun _ => rfl, hwrites⟩

theorem faithful_eraseRow {i : Nat} (r : Nat) (existing : Option Row)
    (erase : Row → Option Row) :
    Faithful (.one (.deleteKeys r erase)) (match existing.bind erase with
      | none => pure false
      | some row => do putRow i row; pure true : Prog V Row Bool) (some existing) := by
  cases herased : existing.bind erase with
  | none => exact rfl
  | some row => exact faithful_putRow ⟨existing, row, rfl, herased, rfl⟩

theorem faithful_resolveItems {items : List (Nat × Row)}
    {follow : Option (List (Nat × Row)) → Prog V Row Bool}
    (hnext : ∀ resolved, (∀ rows, resolved = some rows →
      rows.map Prod.snd = items.map Prod.snd) → Faithful call (follow resolved) found) :
    Faithful call (resolveItems items >>= follow) found := by
  induction items generalizing follow with
  | nil => exact hnext (some []) (by rintro _ ⟨⟩; rfl)
  | cons item items ih =>
      unfold resolveItems
      rw [Program.bind_assoc]
      apply faithful_isAlive
      intro alive
      cases alive with
      | false => exact hnext none (by rintro _ ⟨⟩)
      | true =>
          apply faithful_read (c := .resolveInternal item.1) trivial
          intro (i : Nat)
          change Faithful call ((resolveItems items >>= fun rest =>
            pure (rest.map ((i, item.2) :: ·))) >>= follow) found
          rw [Program.bind_assoc]
          apply ih
          intro resolved hresolved
          apply hnext
          intro rows hrows
          obtain ⟨rest, hrest, rfl⟩ := Option.map_eq_some_iff.mp hrows
          rw [List.map_cons, List.map_cons, hresolved rest hrest]

theorem faithful_program (call : RowCall Row) :
    Faithful call (call.program : Prog V Row Bool) none := by
  cases call with
  | one call =>
      cases call with
      | set r row =>
          apply faithful_isAlive
          intro alive
          cases alive with
          | false => exact rfl
          | true =>
              apply faithful_read (c := .resolveInternal r) trivial
              exact fun i => faithful_putRow rfl
      | update r patch =>
          apply faithful_isAlive
          intro alive
          cases alive with
          | false => exact rfl
          | true =>
              apply faithful_read (c := .resolveInternal r) trivial
              intro i
              apply faithful_read (c := .getRow i) trivial
              exact fun existing => faithful_putRow ⟨existing, rfl, rfl⟩
      | deleteKeys r erase =>
          apply faithful_read (c := .resolveInternal r) trivial
          intro i
          apply faithful_read (c := .getRow i) trivial
          intro existing
          exact faithful_eraseRow r existing erase
  | batch items =>
      apply faithful_resolveItems
      intro resolved hresolved
      cases resolved with
      | none => exact rfl
      | some rows =>
          refine ⟨?_, fun h => by cases h⟩
          rintro _ ⟨⟩
          exact ⟨fun _ => rfl, hresolved rows rfl⟩

end Faithful

theorem rows_eq {rows : List (Nat × Row)} {ids : List Nat} {values : List Row}
    {resolve : Nat → Nat} (hplaces : rows.map Prod.fst = ids.map resolve)
    (hvalues : rows.map Prod.snd = values) :
    rows = (ids.zip values).map fun item => (resolve item.1, item.2) := by
  subst hvalues
  induction rows generalizing ids with
  | nil =>
      rw [List.map_nil, List.zip_nil_right]
      rfl
  | cons row rows ih =>
      cases ids with
      | nil => cases hplaces
      | cons r ids =>
          obtain ⟨hfirst, hrest⟩ := List.cons.inj hplaces
          rw [List.map_cons, List.zip_cons_cons, List.map_cons, ← ih hrest, ← hfirst]

/-- Rows that go to the current versions of ids that are alive have the effect of their
call. -/
theorem RowCall.Writes.effect {call : RowCall Row} {rows : List (Nat × Row)}
    {found : Option (Option Row)} {contents : Nat → Content Row} {resolve : Nat → Nat}
    {stored : Nat → Option Row} (hwrites : call.Writes rows found)
    (hplaces : rows.map Prod.fst = call.ids.map resolve)
    (hfound : ∀ row ∈ rows, ∀ existing, found = some existing → stored row.1 = existing)
    (hcontents : ∀ r ∈ call.ids, contents r = some (stored (resolve r))) :
    ∃ items : List (Nat × Row),
      rows = items.map (fun item => (resolve item.1, item.2)) ∧
        (∀ item ∈ items, item.1 ∈ call.ids) ∧
        call.onContents contents = putContents items contents := by
  cases call with
  | one call =>
      have hcontent := hcontents call.r (List.mem_singleton_self _)
      have hread : ∀ {row : Row} {existing : Option Row}, rows.map Prod.snd = [row] →
          found = some existing → contents call.r = some existing := by
        intro row existing hvalue hexisting
        obtain rfl := rows_eq hplaces hvalue
        rw [hcontent, ← hfound _ (List.mem_singleton_self _) existing hexisting]
      have hone : ∀ {row : Row}, rows.map Prod.snd = [row] →
          call.onContent (contents call.r) = some (some row) →
          ∃ items : List (Nat × Row),
            rows = items.map (fun item => (resolve item.1, item.2)) ∧
              (∀ item ∈ items, item.1 ∈ (RowCall.one call).ids) ∧
              (RowCall.one call).onContents contents = putContents items contents := by
        intro row hvalue heffect
        refine ⟨[(call.r, row)], rows_eq hplaces hvalue, ?_, ?_⟩
        · intro item hitem
          rw [List.mem_singleton.mp hitem]
          exact List.mem_singleton_self _
        · exact congrArg (Function.update contents call.r) heffect
      cases call with
      | set r row =>
          apply hone hwrites
          rw [hcontent]
          rfl
      | update r patch =>
          obtain ⟨existing, hexisting, hvalue⟩ := hwrites
          apply hone hvalue
          rw [hread hvalue hexisting]
          rfl
      | deleteKeys r erase =>
          obtain ⟨existing, row, hexisting, herased, hvalue⟩ := hwrites
          apply hone hvalue
          rw [hread hvalue hexisting]
          change some ((existing.bind erase).or existing) = _
          rw [herased]
          rfl
  | batch items =>
      refine ⟨items, ?_, fun item hitem => List.mem_map_of_mem hitem, if_pos ?_⟩
      · rw [rows_eq hplaces hwrites]
        congr 1
        exact (List.zip_of_prod rfl rfl).symm
      · intro item hitem
        rw [hcontents _ (List.mem_map_of_mem hitem)]
        rfl

theorem exec_of_readsOnly {c : Call V Row} (hreads : ReadsOnly c) (st : State V Row) :
    (exec c st).2 = st := by
  cases c <;> first | rfl | exact False.elim hreads

theorem exec_of_rowsOf {c : Call V Row} {rows : List (Nat × Row)}
    (hrows : Traffic.rowsOf c = some rows) (st : State V Row) :
    (exec c st).2 = (exec (.putRows rows : Call V Row) st).2 := by
  cases c <;> cases hrows <;> rfl

end AsterVec.Dense

import AsterVec.LoggedOwners

/-!
Nothing that counts is lost: whenever the process is killed, the next session has, for
each id, the document that the calls that count make of it.
-/

namespace AsterVec.Dense

open AsterVec.IdTypes
open AsterVec.Programs
open Prog

variable {V Row : Type}

/-! A store that is open -/

namespace LoggedStore

variable {g : LoggedStore V Row} {owner₀ owner : Nat → Option Nat} {tallies : Nat →₀ Int}
  {r : Nat}

/-- What the store has for the id of a call under way. -/
def entry (g : LoggedStore V Row) (owner : Nat → Option Nat) (tallies : Nat →₀ Int)
    (t : Running V Row) : Entry V Row :=
  ⟨sliceOf t.call.r owner g.st, recordsOf g.log t.call.r, docAfter g.counted t.call.r,
    t.committed, tallies t.call.r⟩

/-- The count that the checkpoint has is that of its own ids. -/
def SavedCount (g : LoggedStore V Row) (owner₀ : Nat → Option Nat) : Prop :=
  Counts (fun r => (savedSlice owner₀ g.checkpoint r).doc r) g.checkpointLiveCount

/-- The count of live ids is what the ids added to it. -/
structure Tallies (g : LoggedStore V Row) (tallies : Nat →₀ Int) : Prop where
  total : (tallies.sum fun _ tally => tally) = g.liveCount
  free : ∀ r < 2 ^ 63, g.running r = none → tallies r = countOf (docAfter g.counted r)
  beyond : ∀ r, 2 ^ 63 ≤ r → tallies r = 0

/-- What holds while the store is open. -/
structure Open (g : LoggedStore V Row) (owner₀ owner : Nat → Option Nat)
    (tallies : Nat →₀ Int) : Prop where
  opened : g.recovery = none
  tracked : Tracked g.checkpoint g.st g.log owner₀ owner g.st.tables.nextUpdateInternalId
  ready : ∀ r < 2 ^ 63, g.running r = none →
    Ready r (savedSlice owner₀ g.checkpoint r) (sliceOf r owner g.st) (recordsOf g.log r)
      (docAfter g.counted r)
  safe : ∀ r t, g.running r = some t → r < 2 ^ 63 ∧ t.call.r = r ∧
    SafeEntry t.call (savedSlice owner₀ g.checkpoint r) t.rest
      (fun _ e => Ends t.call (savedSlice owner₀ g.checkpoint r) e) (g.entry owner tallies t)
  saved : g.SavedCount owner₀
  tallies : g.Tallies tallies

theorem Open.begins (hopen : g.Open owner₀ owner tallies) {call : IdCall V Row}
    (hr : call.r < 2 ^ 63) (hfree : g.running call.r = none) :
    Open { g with
      running := Function.update g.running call.r (some ⟨call, call.program, false⟩) }
      owner₀ owner tallies := by
  have hidle : ∀ r, Function.update g.running call.r (some ⟨call, call.program, false⟩) r =
      none → g.running r = none := by
    intro r hnone
    rcases eq_or_ne r call.r with rfl | hne
    · exact absurd ((Function.update_self _ _ _).symm.trans hnone) (by simp)
    · exact (Function.update_of_ne hne _ _).symm.trans hnone
  refine ⟨hopen.opened, hopen.tracked, fun r hr hnone => hopen.ready r hr (hidle r hnone),
    fun r t ht => ?_, hopen.saved, hopen.tallies.total,
    fun r hr hnone => hopen.tallies.free r hr (hidle r hnone), hopen.tallies.beyond⟩
  · rcases eq_or_ne r call.r with rfl | hne
    · change Function.update g.running call.r _ call.r = some t at ht
      rw [Function.update_self] at ht
      cases ht
      refine ⟨hr, rfl, ?_⟩
      unfold entry
      rw [hopen.tallies.free _ hr hfree]
      exact safe_program call (hopen.ready _ hr hfree) hr
    · exact hopen.safe r t ((Function.update_of_ne hne _ _).symm.trans ht)

/-- What counts for the other ids stays. -/
theorem docAfter_ran (g : LoggedStore V Row) (t : Running V Row) (c : LoggedCall V Row)
    (next : LoggedReply c → LoggedProg V Row Bool) {x : Nat} (hne : x ≠ t.call.r) :
    docAfter (g.ran t.call.r t c next).counted x = docAfter g.counted x := by
  unfold LoggedStore.ran
  dsimp only
  split
  · exact docAfter_append_other _ hne
  · rfl

/-- What the store has for the id of the call that made one more call. -/
theorem entry_ran (g : LoggedStore V Row) (t : Running V Row) (c : LoggedCall V Row)
    (next : LoggedReply c → LoggedProg V Row Bool) (owner : Nat → Option Nat)
    {tallies : Nat →₀ Int} {tally : Int} (hself : tallies t.call.r = tally) :
    (g.ran t.call.r t c next).entry owner tallies
      ⟨t.call, next (execLogged c g.st).1, t.committed || t.call.commits c⟩ =
      Entry.commit ⟨sliceOf t.call.r owner (execLogged c g.st).2,
        recordsOf (g.logAfter c) t.call.r, docAfter g.counted t.call.r, t.committed,
        tally⟩ t.call c := by
  unfold LoggedStore.ran entry Entry.commit
  dsimp only
  rw [hself]
  split
  · rename_i hcommits
    rw [docAfter_append_self, hcommits.1, hcommits.2]
    rfl
  · rename_i hnot
    cases hcommits : t.call.commits c with
    | false => rw [Bool.or_false]
    | true =>
        cases hcommitted : t.committed with
        | false => exact absurd ⟨hcommits, hcommitted⟩ hnot
        | true => rfl

/-- A call of `t` is seen at its own id only. -/
theorem Open.ran (hopen : g.Open owner₀ owner tallies) {t : Running V Row}
    (hrunning : g.running t.call.r = some t) {c : LoggedCall V Row}
    {next : LoggedReply c → LoggedProg V Row Bool} {owner' : Nat → Option Nat}
    (htracked : Tracked g.checkpoint (execLogged c g.st).2 (g.logAfter c) owner₀ owner'
      (execLogged c g.st).2.tables.nextUpdateInternalId)
    (hslices : ∀ x < 2 ^ 63, x ≠ t.call.r →
      sliceOf x owner' (execLogged c g.st).2 = sliceOf x owner g.st)
    (hrecords : ∀ x, x ≠ t.call.r → recordsOf (g.logAfter c) x = recordsOf g.log x)
    (hsafe : SafeEntry t.call (savedSlice owner₀ g.checkpoint t.call.r)
      (next (execLogged c g.st).1)
      (fun _ e => Ends t.call (savedSlice owner₀ g.checkpoint t.call.r) e)
      (Entry.commit ⟨sliceOf t.call.r owner' (execLogged c g.st).2,
        recordsOf (g.logAfter c) t.call.r, docAfter g.counted t.call.r, t.committed,
        tallies t.call.r + c.change⟩ t.call c)) :
    (g.ran t.call.r t c next).Open owner₀ owner'
      (tallies.update t.call.r (tallies t.call.r + c.change)) := by
  have hother : ∀ x, x ≠ t.call.r →
      tallies.update t.call.r (tallies t.call.r + c.change) x = tallies x := by
    intro x hne
    rw [Finsupp.coe_update, Function.update_of_ne hne]
  have hself : tallies.update t.call.r (tallies t.call.r + c.change) t.call.r =
      tallies t.call.r + c.change := by
    rw [Finsupp.coe_update, Function.update_self]
  have hcounted : ∀ x, x ≠ t.call.r →
      docAfter (g.ran t.call.r t c next).counted x = docAfter g.counted x :=
    fun x hne => docAfter_ran g t c next hne
  have hfree : ∀ x, (g.ran t.call.r t c next).running x = none →
      x ≠ t.call.r ∧ g.running x = none := by
    intro x hnone
    rcases eq_or_ne x t.call.r with rfl | hne
    · exact absurd ((Function.update_self _ _ _).symm.trans hnone) (by simp)
    · exact ⟨hne, (Function.update_of_ne hne _ _).symm.trans hnone⟩
  refine ⟨hopen.opened, htracked, fun x hx hnone => ?_, fun x t' ht' => ?_, hopen.saved, ?_,
    fun x hx hnone => ?_, fun x hx => ?_⟩
  · obtain ⟨hne, hidle⟩ := hfree x hnone
    have hready := hopen.ready x hx hidle
    rw [hcounted x hne]
    change Ready x _ (sliceOf x owner' (execLogged c g.st).2) (recordsOf (g.logAfter c) x) _
    rw [hslices x hx hne, hrecords x hne]
    exact hready
  · rcases eq_or_ne x t.call.r with rfl | hne
    · change Function.update g.running t.call.r _ t.call.r = some t' at ht'
      rw [Function.update_self] at ht'
      cases ht'
      refine ⟨(hopen.safe _ t hrunning).1, rfl, ?_⟩
      rw [entry_ran g t c next owner' hself]
      exact hsafe
    · obtain ⟨hx, rfl, hsafe'⟩ := hopen.safe x t'
        ((Function.update_of_ne hne _ _).symm.trans ht')
      refine ⟨hx, rfl, ?_⟩
      unfold entry at hsafe' ⊢
      rw [hcounted _ hne, hother _ hne]
      change SafeEntry _ _ _ _ ⟨sliceOf t'.call.r owner' (execLogged c g.st).2,
        recordsOf (g.logAfter c) t'.call.r, _, _, _⟩
      rw [hslices _ hx hne, hrecords _ hne]
      exact hsafe'
  · rw [sum_update, hopen.tallies.total]
    change _ = g.liveCount + c.change
    omega
  · obtain ⟨hne, hidle⟩ := hfree x hnone
    rw [hother x hne, hcounted x hne]
    exact hopen.tallies.free x hx hidle
  · have hne : x ≠ t.call.r := by
      rintro rfl
      exact absurd (hopen.safe _ t hrunning).1 (Nat.not_lt.mpr hx)
    rw [hother x hne]
    exact hopen.tallies.beyond x hx

theorem Open.runs (hopen : g.Open owner₀ owner tallies) {t : Running V Row}
    (hrunning : g.running r = some t) {c : LoggedCall V Row}
    {next : LoggedReply c → LoggedProg V Row Bool} (hrest : t.rest = .call c next) :
    ∃ owner' tallies', (g.ran r t c next).Open owner₀ owner' tallies' := by
  obtain ⟨hr, rfl, hsafe⟩ := hopen.safe r t hrunning
  rw [hrest] at hsafe
  obtain ⟨-, hallowed, hnext⟩ := hsafe
  have htracked := hopen.tracked
  cases c with
  | store c =>
      have hgood : Good owner g.st := htracked.good
      refine ⟨ownerAfter t.call.r c (exec c g.st).1 owner, _, hopen.ran hrunning
        (htracked.call hr hallowed) (fun x hx hne => ?_) (fun _ _ => rfl) ?_⟩
      · exact sliceOf_other hgood hr hx hne (htracked.inv _ hr) hallowed
      · change SafeEntry _ _ _ _ (Entry.commit ⟨_, _, _, _, tallies t.call.r + 0⟩ _ _)
        rw [add_zero]
        exact hnext _ _ ⟨_, sliceOf_step hgood hr hallowed, rfl⟩
  | append record =>
      obtain ⟨hrecord, howned⟩ := hallowed
      refine ⟨owner, _, hopen.ran hrunning ⟨htracked.quiet, htracked.older, htracked.below,
        htracked.good, htracked.inv, htracked.mapped, ?_, ?_⟩ (fun _ _ _ => rfl)
        (fun x hne => ?_) ?_⟩
      · intro other hother
        rcases List.mem_append.mp hother with hold | hlast
        · exact htracked.real other hold
        · obtain rfl := List.mem_singleton.mp hlast
          rw [hrecord]
          exact hr
      · intro other hother hinserts
        rcases List.mem_append.mp hother with hold | hlast
        · exact htracked.logged other hold hinserts
        · obtain rfl := List.mem_singleton.mp hlast
          rw [hrecord]
          exact howned hinserts
      · change recordsOf (g.log ++ [record]) x = _
        rw [recordsOf_append, recordsOf_cons_other (hrecord ▸ hne)]
        exact List.append_nil _
      · have hrecords : recordsOf (g.log ++ [record]) t.call.r =
            recordsOf g.log t.call.r ++ [record] := by
          rw [recordsOf_append, ← hrecord, recordsOf_cons_self]
          rfl
        have hstep := hnext () _ rfl
        change SafeEntry _ _ _ _ (Entry.commit ⟨_, recordsOf (g.log ++ [record]) t.call.r, _, _,
          tallies t.call.r + 0⟩ _ _)
        rw [hrecords, add_zero]
        exact hstep
  | observe => exact hallowed.elim
  | count change =>
      refine ⟨owner, _, hopen.ran hrunning htracked (fun _ _ _ => rfl) (fun _ _ => rfl) ?_⟩
      rw [Entry.commit_eq _ (by cases t.call <;> rfl)]
      exact hnext () _ rfl

theorem Open.ends (hopen : g.Open owner₀ owner tallies) {t : Running V Row} {ok : Bool}
    (hrunning : g.running r = some t) (hrest : t.rest = .done ok) :
    Open { g with
      running := Function.update g.running r none
      counted := if t.committed then g.counted else g.counted ++ [t.call] }
      owner₀ owner tallies := by
  obtain ⟨hr, rfl, hsafe⟩ := hopen.safe r t hrunning
  rw [hrest] at hsafe
  obtain ⟨hready, hunchanged, htally⟩ := hsafe
  have hcounted : ∀ x, docAfter (if t.committed then g.counted else g.counted ++ [t.call]) x =
      docAfter g.counted x := by
    intro x
    cases hcommitted : t.committed with
    | true => rfl
    | false =>
        change docAfter (g.counted ++ [t.call]) x = _
        rcases eq_or_ne x t.call.r with rfl | hne
        · rw [docAfter_append_self]
          exact hunchanged hcommitted
        · exact docAfter_append_other _ hne
  refine ⟨hopen.opened, hopen.tracked, fun x hx hnone => ?_, fun x t' ht' => ?_, hopen.saved,
    hopen.tallies.total, fun x hx hnone => ?_, hopen.tallies.beyond⟩
  · change Ready x _ _ _ (docAfter (if t.committed then _ else _) x)
    rw [hcounted x]
    rcases eq_or_ne x t.call.r with rfl | hne
    · exact hready
    · exact hopen.ready x hx ((Function.update_of_ne hne _ _).symm.trans hnone)
  · rcases eq_or_ne x t.call.r with rfl | hne
    · exact absurd ((Function.update_self _ _ _).symm.trans ht') (by simp)
    · obtain ⟨hx, rfl, hsafe⟩ := hopen.safe x t'
        ((Function.update_of_ne hne _ _).symm.trans ht')
      refine ⟨hx, rfl, ?_⟩
      change SafeEntry _ _ _ _ ⟨_, _, docAfter (if t.committed then _ else _) _, _, _⟩
      rw [hcounted]
      exact hsafe
  · change tallies x = countOf (docAfter (if t.committed then _ else _) x)
    rw [hcounted x]
    rcases eq_or_ne x t.call.r with rfl | hne
    · exact htally
    · exact hopen.tallies.free x hx ((Function.update_of_ne hne _ _).symm.trans hnone)

/-- What a checkpoint of the store counts. -/
theorem Open.counts (hopen : g.Open owner₀ owner tallies) (hidle : ∀ r, g.running r = none) :
    Counts (fun r => (savedSlice owner g.st r).doc r) g.liveCount := by
  refine ⟨tallies, fun r => ?_, hopen.tallies.total⟩
  split
  · rename_i hr
    rw [hopen.tallies.free r hr (hidle r), ← (hopen.ready r hr (hidle r)).doc_eq]
    exact (Slice.countOf_bare _ r).symm
  · rename_i hr
    exact hopen.tallies.beyond r (Nat.not_lt.mp hr)

theorem Open.checkpointed (hopen : g.Open owner₀ owner tallies)
    (hidle : ∀ r, g.running r = none) :
    Open { g with checkpoint := g.st, log := [], checkpointLiveCount := g.liveCount }
      owner owner tallies := by
  have htracked := hopen.tracked
  have hquiet : Quiet owner g.st := ⟨htracked.good, htracked.inv,
    fun r hr => (hopen.ready r hr (hidle r)).idle, htracked.mapped⟩
  refine ⟨hopen.opened, ⟨hquiet, fun _ _ => rfl, Nat.le_refl _, htracked.good, htracked.inv,
    htracked.mapped, by rintro _ ⟨⟩, by rintro _ ⟨⟩⟩, fun r hr hnone => ?_, fun r t ht => ?_,
    hopen.counts hidle, hopen.tallies.total, hopen.tallies.free, hopen.tallies.beyond⟩
  · exact (hopen.ready r hr hnone).anew
  · exact absurd ((hidle r).symm.trans ht) (by simp)

/-! A store that is being opened -/

/-- What has to be when the process is killed. -/
structure Kept (g : LoggedStore V Row) (owner₀ owner : Nat → Option Nat) (bound : Nat) :
    Prop where
  tracked : Tracked g.checkpoint g.st g.log owner₀ owner bound
  legal : ∀ r < 2 ^ 63, Legal r (savedSlice owner₀ g.checkpoint r) (recordsOf g.log r)
  recoverable : ∀ r < 2 ^ 63, Recoverable r (savedSlice owner₀ g.checkpoint r)
    (recordsOf g.log r) (sliceOf r owner g.st).rows (docAfter g.counted r)
  saved : g.SavedCount owner₀

/-- What holds while the replay goes on.  The ids in use are those of the checkpoint and of
the log. -/
structure Opening (g : LoggedStore V Row) (owner₀ owner : Nat → Option Nat) (bound : Nat)
    (p : LoggedProg V Row Bool) : Prop where
  opening : g.recovery = some p
  idle : ∀ r, g.running r = none
  tracked : Tracked g.checkpoint g.st g.log owner₀ owner bound
  used : ∀ i r, owner i = some r → i < g.checkpoint.tables.nextUpdateInternalId ∨
    ∃ record ∈ g.log, record.Inserts ∧ record.internalId = i
  legal : ∀ r < 2 ^ 63, Legal r (savedSlice owner₀ g.checkpoint r) (recordsOf g.log r)
  safe : SafeBook (savedSlice owner₀ g.checkpoint) g.log (docAfter g.counted) p
    (fun ok b => ok = true ∧ b.At (savedSlice owner₀ g.checkpoint) (docAfter g.counted) g.log []
      g.checkpoint.tables.nextUpdateInternalId)
    ⟨fun r => sliceOf r owner g.st, g.st.tables.nextUpdateInternalId, g.liveCount⟩
  saved : g.SavedCount owner₀

theorem Open.kept (hopen : g.Open owner₀ owner tallies) :
    g.Kept owner₀ owner g.st.tables.nextUpdateInternalId := by
  have hstops : ∀ r < 2 ^ 63, ∃ committed, Entry.Stops r (savedSlice owner₀ g.checkpoint r)
      ⟨sliceOf r owner g.st, recordsOf g.log r, docAfter g.counted r, committed,
        tallies r⟩ := by
    intro r hr
    cases hrunning : g.running r with
    | none =>
        rw [hopen.tallies.free r hr hrunning]
        exact ⟨false, (hopen.ready r hr hrunning).stops false⟩
    | some t =>
        obtain ⟨-, rfl, hsafe⟩ := hopen.safe r t hrunning
        cases hrest : t.rest with
        | done ok =>
            rw [hrest] at hsafe
            rw [show tallies t.call.r = _ from hsafe.tally]
            exact ⟨false, hsafe.ready.stops false⟩
        | call c next =>
            rw [hrest] at hsafe
            exact ⟨t.committed, hsafe.1⟩
  refine ⟨hopen.tracked, fun r hr => ?_, fun r hr => ?_, hopen.saved⟩
  · obtain ⟨committed, hstops⟩ := hstops r hr
    exact hstops.legal
  · obtain ⟨committed, hstops⟩ := hstops r hr
    exact hstops.recoverable

theorem Opening.kept {bound : Nat} {p : LoggedProg V Row Bool}
    (hopening : g.Opening owner₀ owner bound p) : g.Kept owner₀ owner bound := by
  refine ⟨hopening.tracked, hopening.legal, ?_, hopening.saved⟩
  have hsafe := hopening.safe
  cases p with
  | done ok =>
      have hstops := hsafe.2.stops
      rw [List.append_nil] at hstops
      exact hstops
  | call c next => exact hsafe.1

theorem Opening.replays {bound : Nat} {c : LoggedCall V Row}
    {next : LoggedReply c → LoggedProg V Row Bool}
    (hopening : g.Opening owner₀ owner bound (.call c next)) :
    Opening { g with
      st := (execLogged c g.st).2
      recovery := some (next (execLogged c g.st).1)
      liveCount := g.liveCount + c.change } owner₀ owner bound
      (next (execLogged c g.st).1) := by
  obtain ⟨-, hidle, htracked, hused, hlegal, ⟨-, hallowed, hnext⟩, hsaved⟩ := hopening
  cases c with
  | store c =>
      obtain ⟨hold, r, hr, hallowed⟩ := hallowed
      obtain ⟨htracked', -, -⟩ := htracked.replayCall hold hr hallowed
      refine ⟨rfl, hidle, htracked', hused, hlegal,
        hnext _ _ ⟨?_, add_zero _, fun x hx hone => ?_⟩, hsaved⟩
      · exact (exec_raised hold g.st 0).2.2
      · exact (htracked.replayCall hold hx hone).2
  | append => exact hallowed.elim
  | observe i =>
      have hst := observeUpdateId_eq g.st i
      rw [hst]
      refine ⟨rfl, hidle, htracked.raised _, hused, hlegal, ?_, hsaved⟩
      change SafeBook _ _ _ _ _ ⟨_, _, g.liveCount + 0⟩
      rw [add_zero]
      exact hnext () _ rfl
  | count change => exact ⟨rfl, hidle, htracked, hused, hlegal, hnext () _ rfl, hsaved⟩

theorem Opening.recovered {bound : Nat} (hopening : g.Opening owner₀ owner bound (.done true)) :
    ∃ owner₀' tallies, Open { g with
      checkpoint := if g.log.isEmpty then g.checkpoint else g.st
      log := []
      recovery := none
      checkpointLiveCount :=
        if g.log.isEmpty then g.checkpointLiveCount else g.liveCount } owner₀' owner
      tallies := by
  obtain ⟨-, hidle, htracked, hused, hlegal, ⟨-, hat⟩, hsaved⟩ := hopening
  have hgood : Good owner g.st := by
    obtain ⟨hcovers, -, -, hupdate, hreal, huntouched⟩ := htracked.good
    refine ⟨⟨hcovers.bitCount, hcovers.capacity, hcovers.contains⟩,
      htracked.quiet.good.first.trans hat.first, fun i hi => ?_, hupdate, hreal, huntouched⟩
    cases howner : owner i with
    | none => rfl
    | some r =>
        refine absurd hi (Nat.not_le.mpr ?_)
        rcases hused i r howner with hold | ⟨record, hrecord, hinserts, rfl⟩
        · exact hold.trans_le hat.first
        · exact hat.observed record hrecord hinserts (hupdate _ r howner)
  have hready : ∀ r < 2 ^ 63, Ready r (savedSlice owner₀ g.checkpoint r)
      (sliceOf r owner g.st) (recordsOf g.log r) (docAfter g.counted r) :=
    fun r hr => (hat.slices r hr).ready
  have hsafe : ∀ {h : LoggedStore V Row}, h.running = g.running → ∀ r t,
      h.running r ≠ some t := by
    intro h hsame r t ht
    rw [hsame, hidle r] at ht
    cases ht
  obtain ⟨tallies, htallies, htotal⟩ := hat.counted
  have hfree : ∀ r < 2 ^ 63, tallies r = countOf (docAfter g.counted r) := by
    intro r hr
    rw [htallies r, if_pos hr]
    exact congrArg countOf (hready r hr).doc_eq
  have hbeyond : ∀ r, 2 ^ 63 ≤ r → tallies r = 0 :=
    fun r hr => (htallies r).trans (if_neg (Nat.not_lt.mpr hr))
  cases hlog : g.log with
  | nil =>
      refine ⟨owner₀, tallies, rfl, ⟨htracked.quiet, htracked.older, hat.first, hgood,
        htracked.inv, htracked.mapped, by rintro _ ⟨⟩, by rintro _ ⟨⟩⟩, fun r hr _ => ?_,
        fun r t ht => absurd ht (hsafe rfl r t), hsaved, htotal, fun r hr _ => hfree r hr,
        hbeyond⟩
      have hone := hready r hr
      rw [hlog] at hone
      exact hone
  | cons record records =>
      have hquiet : Quiet owner g.st :=
        ⟨hgood, htracked.inv, fun r hr => (hready r hr).idle, htracked.mapped⟩
      refine ⟨owner, tallies, rfl, ⟨hquiet, fun _ _ => rfl, Nat.le_refl _, hgood, htracked.inv,
        htracked.mapped, by rintro _ ⟨⟩, by rintro _ ⟨⟩⟩, fun r hr _ => (hready r hr).anew,
        fun r t ht => absurd ht (hsafe rfl r t), ?_, htotal, fun r hr _ => hfree r hr, hbeyond⟩
      exact hat.counted.congr fun r _ => Slice.countOf_bare _ r

/-- The owners of the ids once the store is killed: what was allocated and is neither in the
checkpoint nor in the log is free again. -/
structure Reowned (g : LoggedStore V Row) (owner₀ owner owner' : Nat → Option Nat) : Prop where
  used : ∀ i r, owner' i = some r → owner i = some r ∧
    (i < g.checkpoint.tables.nextUpdateInternalId ∨
      ∃ record ∈ g.log, record.Inserts ∧ record.internalId = i)
  older : ∀ i < g.checkpoint.tables.nextUpdateInternalId, owner' i = owner₀ i
  logged : ∀ record ∈ g.log, record.Inserts →
    owns owner' record.realId record.internalId = true
  rows : ∀ i, owner' i = none → 2 ^ 63 ≤ i → g.st.rows i = none

theorem Kept.owners {bound : Nat} (hkept : g.Kept owner₀ owner bound) :
    ∃ owner', g.Reowned owner₀ owner owner' := by
  classical
  have htracked := hkept.tracked
  let Used := fun i => i < g.checkpoint.tables.nextUpdateInternalId ∨
    ∃ record ∈ g.log, record.Inserts ∧ record.internalId = i
  refine ⟨fun i => if Used i then owner i else none, fun i r howner => ?_, fun i hi => ?_,
    fun record hrecord hinserts => ?_, fun i hfree hi => ?_⟩
  · by_cases hused : Used i
    · exact ⟨(if_pos hused).symm.trans howner, hused⟩
    · cases (if_neg hused).symm.trans howner
  · exact (if_pos (.inl hi)).trans (htracked.older i hi)
  · refine owns_iff.mpr ((owns_iff.mp (htracked.logged record hrecord hinserts)).imp_right
      fun howner => ?_)
    exact (if_pos (.inr ⟨record, hrecord, hinserts, rfl⟩)).trans howner
  · cases howner : owner i with
    | none => exact (htracked.good.untouched i hi howner).2.2.2
    | some r =>
        have hunused : ¬Used i := by
          intro hused
          cases (if_pos hused).symm.trans (hfree : (if Used i then owner i else none) = none) ▸
            howner
        have hr := htracked.good.owner_real i r howner
        have howns : owns owner r i = true := owns_iff.mpr (.inr howner)
        cases hrow : g.st.rows i with
        | none => rfl
        | some row =>
            -- A row is of a version that the checkpoint or the log knows.
            have hslice : ((sliceOf r owner g.st).rows i).isSome = true := by
              rw [(Quiet.slice_at g.st howns).2.2, hrow]
              rfl
            refine absurd ?_ hunused
            rcases replayed_vectors ((hkept.recoverable r hr).stored hslice) with
              hstored | ⟨record, hrecord, hinserts, hsame⟩
            · left
              by_contra hlt
              have hnone := htracked.quiet.good.untouched i hi
                (htracked.quiet.good.unused i (Nat.not_lt.mp hlt))
              change (if owns owner₀ r i then g.checkpoint.vectors i else none).isSome = true
                at hstored
              rw [hnone.2.1, ite_self] at hstored
              cases hstored
            · exact .inr ⟨record, List.mem_of_mem_filter hrecord, hinserts, hsame⟩

section Reopened

variable {owner' : Nat → Option Nat} {bound : Nat} {base : State V Row}

theorem Reowned.update (hreowned : g.Reowned owner₀ owner owner')
    (hkept : g.Kept owner₀ owner bound) (i r : Nat) (howner : owner' i = some r) :
    2 ^ 63 ≤ i :=
  hkept.tracked.good.owner_update i r (hreowned.used i r howner).1

/-- What is free is untouched in the store that is opened. -/
theorem Reowned.good (hreowned : g.Reowned owner₀ owner owner')
    (hkept : g.Kept owner₀ owner bound) (hrestores : base.Restores g.checkpoint g.st) :
    Good owner' (base.raised bound) := by
  obtain ⟨hquiet, -, -, hgood, -⟩ := hkept.tracked
  have hcovers : base.tables.BloomCovers := hrestores.tables ▸ IdTables.BloomCovers.reload _
  refine ⟨⟨hcovers.bitCount, hcovers.capacity, hcovers.contains⟩, hgood.first,
    fun i hi => ?_, hreowned.update hkept,
    fun i r howner => hgood.owner_real i r (hreowned.used i r howner).1, fun i hi hfree => ?_⟩
  · cases howner : owner' i with
    | none => rfl
    | some r => exact (hreowned.used i r howner).1.symm.trans (hgood.unused i hi)
  · have hfree₀ : owner₀ i = none := by
      rcases Nat.lt_or_ge i g.checkpoint.tables.nextUpdateInternalId with hlt | hge
      · rw [← hreowned.older i hlt, hfree]
      · exact hquiet.good.unused i hge
    obtain ⟨hlive, hvector, hlookup, -⟩ := hquiet.good.untouched i hi hfree₀
    refine ⟨?_, ?_, ?_, ?_⟩
    · change base.tables.isTombstoned i = false
      rw [hrestores.tables]
      exact hlive
    · change base.vectors i = none
      rw [hrestores.vectors, hvector]
    · change base.tables.updatedInternalToReal.lookup i = none
      rw [hrestores.tables, hquiet.lookup_reloaded, hlookup]
    · change base.rows i = none
      rw [hrestores.rows, hreowned.rows i hfree hi]

theorem Reowned.tracked (hreowned : g.Reowned owner₀ owner owner')
    (hkept : g.Kept owner₀ owner bound) (hrestores : base.Restores g.checkpoint g.st) :
    Tracked g.checkpoint base g.log owner₀ owner' bound := by
  obtain ⟨hquiet, -, hbelow, -, -, -, hreal, -⟩ := hkept.tracked
  refine ⟨hquiet, hreowned.older, hbelow, hreowned.good hkept hrestores, fun r hr => ?_,
    fun r i hmap => ?_, hreal, hreowned.logged⟩
  · obtain ⟨hmore, hslice⟩ := @sliceOf_restored _ _ _ _ _ _ _ r hquiet hrestores
      hreowned.older (hreowned.update hkept)
    rw [hslice]
    refine (hquiet.inv r hr).reown hmore (fun i hi hne => ?_) fun i hi => ?_
    · exact hreowned.update hkept i r ((owns_iff.mp hi).resolve_left hne)
    · exact if_neg (by rw [hi]; exact Bool.false_ne_true)
  · rw [hrestores.tables] at hmap
    exact hquiet.mapped r i hmap

/-- The rows of an id are those before. -/
theorem Reowned.rows_eq (hreowned : g.Reowned owner₀ owner owner')
    (hkept : g.Kept owner₀ owner bound) (hrestores : base.Restores g.checkpoint g.st) (r : Nat) :
    (sliceOf r owner' base).rows = (sliceOf r owner g.st).rows := by
  funext i
  change (if owns owner' r i then base.rows i else none) =
    if owns owner r i then g.st.rows i else none
  rw [hrestores.rows]
  cases hi : owns owner' r i with
  | true =>
      rw [owns_iff.mpr ((owns_iff.mp hi).imp_right fun howner =>
        (hreowned.used i r howner).1)]
  | false =>
      cases hi₀ : owns owner r i with
      | false => rfl
      | true =>
          have hnot : ¬(i = r ∨ owner' i = some r) := by
            rw [← owns_iff, hi]
            exact Bool.false_ne_true
          have howner := (owns_iff.mp hi₀).resolve_left fun h => hnot (.inl h)
          refine (hreowned.rows i ?_ (hkept.tracked.good.owner_update i r howner)).symm
          cases howner' : owner' i with
          | none => rfl
          | some x =>
              have hx := (hreowned.used i x howner').1
              rw [howner] at hx
              exact absurd (.inr (howner'.trans hx.symm)) hnot

/-- Nothing of the log is replayed yet. -/
theorem Reowned.replayedTo (hreowned : g.Reowned owner₀ owner owner')
    (hkept : g.Kept owner₀ owner bound) (hrestores : base.Restores g.checkpoint g.st) {r : Nat}
    (hr : r < 2 ^ 63) :
    ReplayedTo r (savedSlice owner₀ g.checkpoint r) [] (recordsOf g.log r)
      ⟨sliceOf r owner' base, countOf ((sliceOf r owner' base).doc r)⟩
      (docAfter g.counted r) := by
  have htracked := hreowned.tracked hkept hrestores
  obtain ⟨-, hslice⟩ := @sliceOf_restored _ _ _ _ _ _ _ r hkept.tracked.quiet hrestores
    hreowned.older (hreowned.update hkept)
  have hrecoverable := hkept.recoverable r hr
  rw [← hreowned.rows_eq hkept hrestores r] at hrecoverable
  refine ⟨htracked.inv r hr, htracked.tidy hr, ?_, hkept.legal r hr,
    fun record hrecord hinserts => ?_, hrecoverable, fun hnil => ?_, fun i hi => ?_, rfl⟩
  · change (sliceOf r owner' base).bare = _
    rw [hslice]
    rfl
  · have hlog := List.mem_filter.mp hrecord
    have howned := hreowned.logged record hlog.1 hinserts
    rw [of_decide_eq_true hlog.2] at howned
    exact howned
  · change Committed r _ (recordsOf g.log r) (sliceOf r owner' base).rows _
    rw [hnil] at hrecoverable ⊢
    exact hrecoverable.of_nil
  · have hlive := hrecoverable.live hi
    change (sliceOf r owner' base).tombstoned i = false
    rw [hslice]
    exact hlive

theorem Kept.reopens (hkept : g.Kept owner₀ owner bound)
    {items : List (LogEntry V Row × Plan)} (loadCount : Nat)
    (hrestores : base.Restores g.checkpoint g.st)
    (hitems : items.map Prod.fst = g.log.map fun record => ⟨record, false⟩) :
    ∃ owner', Opening { g with
      st := base
      running := fun _ => none
      recovery := some (recoverFromOpLog items)
      liveCount := if 0 ≤ g.checkpointLiveCount then g.checkpointLiveCount else loadCount }
      owner₀ owner' bound (recoverFromOpLog items) := by
  obtain ⟨owner', hreowned⟩ := hkept.owners
  have htracked := hreowned.tracked hkept hrestores
  have hrecords : (items.map fun item => item.1.record) = g.log := by
    have hmapped := congrArg (List.map LogEntry.record) hitems
    rw [List.map_map, List.map_map] at hmapped
    exact hmapped.trans (List.map_id _)
  have hentries : ∀ item ∈ items, item.1.aborted = false ∧
      item.1.record.realId < 2 ^ 63 := by
    intro item hitem
    have hmem : item.1 ∈ g.log.map fun record => (⟨record, false⟩ : LogEntry V Row) := by
      rw [← hitems]
      exact List.mem_map_of_mem hitem
    obtain ⟨record, hrecord, heq⟩ := List.mem_map.mp hmem
    rw [← heq]
    exact ⟨rfl, htracked.real record hrecord⟩
  have hcount : (if 0 ≤ g.checkpointLiveCount then g.checkpointLiveCount else (loadCount : Int)) =
      g.checkpointLiveCount := if_pos (Counts.nonneg hkept.saved)
  refine ⟨owner', rfl, fun _ => rfl, htracked, fun i r howner => (hreowned.used i r howner).2,
    hkept.legal, safe_recoverFromOpLog [] hentries ?_ hrecords.symm, hkept.saved⟩
  rw [hrecords]
  dsimp only
  rw [hcount]
  refine ⟨fun r hr => hreowned.replayedTo hkept hrestores hr,
    Counts.congr hkept.saved fun r _ => ?_, by rintro _ ⟨⟩, ?_⟩
  · obtain ⟨-, hslice⟩ := @sliceOf_restored _ _ _ _ _ _ _ r hkept.tracked.quiet hrestores
      hreowned.older (hreowned.update hkept)
    change countOf ((sliceOf r owner' base).doc r) = _
    rw [← Slice.countOf_bare, hslice]
    rfl
  · change g.checkpoint.tables.nextUpdateInternalId ≤ base.tables.nextUpdateInternalId
    rw [hrestores.tables]
    exact Nat.le_refl _

end Reopened

/-- What holds in every state of a run. -/
inductive Sound (g : LoggedStore V Row) : Prop
  | opened (owner₀ owner : Nat → Option Nat) (tallies : Nat →₀ Int)
      (hopen : g.Open owner₀ owner tallies)
  | opening (owner₀ owner : Nat → Option Nat) (bound : Nat) (p : LoggedProg V Row Bool)
      (hopening : g.Opening owner₀ owner bound p)

theorem Sound.kept (hsound : g.Sound) : ∃ owner₀ owner bound, g.Kept owner₀ owner bound := by
  cases hsound with
  | opened owner₀ owner tallies hopen => exact ⟨owner₀, owner, _, hopen.kept⟩
  | opening owner₀ owner bound p hopening => exact ⟨owner₀, owner, bound, hopening.kept⟩

theorem Sound.opened_of (hsound : g.Sound) (hopen : g.recovery = none) :
    ∃ owner₀ owner tallies, g.Open owner₀ owner tallies := by
  cases hsound with
  | opened owner₀ owner tallies h => exact ⟨owner₀, owner, tallies, h⟩
  | opening owner₀ owner bound p hopening =>
      cases hopen.symm.trans hopening.opening

theorem Sound.opening_of (hsound : g.Sound) {p : LoggedProg V Row Bool}
    (hrecovery : g.recovery = some p) :
    ∃ owner₀ owner bound, g.Opening owner₀ owner bound p := by
  cases hsound with
  | opened owner₀ owner tallies h => cases h.opened.symm.trans hrecovery
  | opening owner₀ owner bound p' hopening =>
      obtain rfl := Option.some.inj (hopening.opening.symm.trans hrecovery)
      exact ⟨owner₀, owner, bound, hopening⟩

/-- Only an open store runs calls. -/
theorem Sound.open_of_running (hsound : g.Sound) {t : Running V Row}
    (hrunning : g.running r = some t) :
    ∃ owner₀ owner tallies, g.Open owner₀ owner tallies := by
  cases hsound with
  | opened owner₀ owner tallies h => exact ⟨owner₀, owner, tallies, h⟩
  | opening owner₀ owner bound p hopening =>
      cases (hopening.idle r).symm.trans hrunning

theorem empty_doc (r : Nat) : (sliceOf r (fun _ => none) (State.empty V Row)).doc r = none := by
  apply Slice.doc_of_dead
  rintro ⟨-, hvector⟩
  change (if _ then none else none : Option V).isSome = true at hvector
  rw [ite_self] at hvector
  cases hvector

theorem savedCount_new : (new V Row).SavedCount fun _ => none := by
  refine ⟨0, fun r => ?_, Finsupp.sum_zero_index⟩
  split
  · change 0 = countOf (Slice.doc (Slice.bare (sliceOf r _ (State.empty V Row))) r)
    rw [Slice.countOf_bare, empty_doc]
    rfl
  · rfl

theorem sound_new : (new V Row).Sound := by
  refine .opened (fun _ => none) (fun _ => none) 0 ⟨rfl, ⟨quiet_empty, fun _ _ => rfl,
    Nat.le_refl _, quiet_empty.good, quiet_empty.inv, quiet_empty.mapped, by rintro _ ⟨⟩,
    by rintro _ ⟨⟩⟩, fun r hr _ => ?_, by rintro r t ⟨⟩, savedCount_new,
    Finsupp.sum_zero_index, fun r _ _ => rfl, fun r _ => rfl⟩
  have hidle : (sliceOf r (fun _ => none) (State.empty V Row)).Idle r :=
    quiet_empty.idle r hr
  have hcommitted := committed_nil hidle
  refine ⟨quiet_empty.inv r hr, hidle, hidle.tidy (quiet_empty.inv r hr), rfl, trivial, ?_⟩
  rw [empty_doc] at hcommitted
  exact hcommitted

theorem Sound.step {g' : LoggedStore V Row} (hsound : g.Sound) (hstep : Step g g') :
    g'.Sound := by
  cases hstep with
  | begins call hopen hr hfree =>
      obtain ⟨owner₀, owner, tallies, h⟩ := hsound.opened_of hopen
      exact .opened _ _ _ (h.begins ((le_kMaxRealId_iff _).mp hr) hfree)
  | runs r t c next hrunning hrest =>
      obtain ⟨owner₀, owner, tallies, h⟩ := hsound.open_of_running hrunning
      obtain ⟨owner', tallies', h'⟩ := h.runs hrunning hrest
      exact .opened _ _ _ h'
  | ends r t ok hrunning hrest =>
      obtain ⟨owner₀, owner, tallies, h⟩ := hsound.open_of_running hrunning
      exact .opened _ _ _ (h.ends hrunning hrest)
  | checkpointed hopen hidle =>
      obtain ⟨owner₀, owner, tallies, h⟩ := hsound.opened_of hopen
      exact .opened _ _ _ (h.checkpointed hidle)
  | reopens base items loadCount hrestores hitems =>
      obtain ⟨owner₀, owner, bound, hkept⟩ := hsound.kept
      obtain ⟨owner', h⟩ := hkept.reopens loadCount hrestores hitems
      exact .opening _ _ _ _ h
  | replays c next hrecovery =>
      obtain ⟨owner₀, owner, bound, h⟩ := hsound.opening_of hrecovery
      exact .opening _ _ _ _ h.replays
  | recovered hrecovery =>
      obtain ⟨owner₀, owner, bound, h⟩ := hsound.opening_of hrecovery
      obtain ⟨owner₀', tallies, h'⟩ := h.recovered
      exact .opened _ _ _ h'

theorem Runs.sound (hruns : g.Runs) : g.Sound := by
  induction hruns with
  | new => exact sound_new
  | step _ hstep ih => exact ih.step hstep

/-! What the next session finds -/

/-- What is left of the calls for an id that no call works on. -/
theorem Open.finds (hopen : g.Open owner₀ owner tallies) (hr : r < 2 ^ 63)
    (hfree : g.running r = none) :
    ((getDense r).run exec g.st).1 =
        (docAfter g.counted r).elim GetResult.notFound (fun doc => .ok doc.1) ∧
      ((getPayloadDense r).run exec g.st).1 = (docAfter g.counted r).bind Prod.snd := by
  have hready := hopen.ready r hr hfree
  have hgood : Good owner g.st := hopen.tracked.good
  have hresolve : g.st.tables.resolveInternal r = (sliceOf r owner g.st).current r :=
    IdTables.resolveInternal_eq hgood.covers r
  obtain ⟨hdead, hvector, hrow⟩ := Quiet.slice_at g.st hready.inv.owned_current
  rw [← hresolve] at hdead hvector hrow
  have halive : (sliceOf r owner g.st).Alive r ↔ AliveIn g.st r := by
    unfold Slice.Alive AliveIn Located
    rw [← hresolve, hdead, hvector]
  obtain ⟨alive, hrun, hiff⟩ := run_isAlive g.st r
  unfold getDense
  rw [Program.run_bind, hrun, ← hready.doc_eq]
  cases alive with
  | false =>
      have hnot : ¬(sliceOf r owner g.st).Alive r := fun h =>
        absurd (hiff.mpr (halive.mp h)) (by simp)
      rw [Slice.doc_of_dead hnot]
      refine ⟨rfl, ?_⟩
      change g.st.rows (g.st.tables.resolveInternal r) = none
      rw [← hrow]
      exact (hready.idle.of_dead hnot).2 _
  | true =>
      have hlive := halive.mpr (hiff.mp rfl)
      obtain ⟨vector, hstored⟩ := Option.isSome_iff_exists.mp hlive.2
      rw [hlive.doc vector hstored]
      rw [← hresolve, hvector] at hstored
      refine ⟨?_, ?_⟩
      · change (g.st.vectors (g.st.tables.resolveInternal r)).elim _ _ = GetResult.ok vector
        rw [hstored]
        rfl
      · change g.st.rows (g.st.tables.resolveInternal r) = (sliceOf r owner g.st).rows _
        rw [← hresolve, hrow]

/-- Without calls under way the store is at rest. -/
theorem Open.quiet (hopen : g.Open owner₀ owner tallies) (hidle : ∀ r, g.running r = none) :
    Quiet owner g.st :=
  ⟨hopen.tracked.good, hopen.tracked.inv, fun r hr => (hopen.ready r hr (hidle r)).idle,
    hopen.tracked.mapped⟩

/-- One more call of what runs for `r`; it is over after its last call. -/
def stepped (r : Nat) (g : LoggedStore V Row) : LoggedStore V Row :=
  match g.running r with
  | some ⟨call, .call c next, committed⟩ => g.ran r ⟨call, .call c next, committed⟩ c next
  | some ⟨call, .done _, committed⟩ =>
      { g with
        running := Function.update g.running r none
        counted := if committed then g.counted else g.counted ++ [call] }
  | none => g

theorem Runs.stepped (hruns : g.Runs) (r n : Nat) : ((stepped r)^[n] g).Runs := by
  induction n generalizing g with
  | zero => exact hruns
  | succ n ih =>
      refine ih ?_
      unfold LoggedStore.stepped
      split
      · rename_i hrunning
        exact hruns.step (.runs g r _ _ _ hrunning rfl)
      · rename_i hrunning
        exact hruns.step (.ends g r _ _ hrunning rfl)
      · exact hruns

/-- What a program does to the count of live ids. -/
def changeOf : LoggedProg V Row Bool → State V Row → Int
  | .done _, _ => 0
  | .call c next, st => c.change + changeOf (next (execLogged c st).1) (execLogged c st).2

/-- The store killed and opened at its checkpoint, with what the replay leaves. -/
def opened (g : LoggedStore V Row) (plan : Plan) : LoggedStore V Row :=
  let base := { g.checkpoint with tables := g.checkpoint.tables.reload, rows := g.st.rows }
  let items := g.log.map fun record => ((⟨record, false⟩ : LogEntry V Row), plan)
  let st := ((recoverFromOpLog items).run execLogged base).2
  let liveCount := (if 0 ≤ g.checkpointLiveCount then g.checkpointLiveCount else (0 : Nat)) +
    changeOf (recoverFromOpLog items) base
  { g with
    st := st
    running := fun _ => none
    checkpoint := if g.log.isEmpty then g.checkpoint else st
    log := []
    recovery := none
    liveCount := liveCount
    checkpointLiveCount := if g.log.isEmpty then g.checkpointLiveCount else liveCount }

theorem Runs.replayed (p : LoggedProg V Row Bool) (g : LoggedStore V Row)
    (hruns : Runs { g with recovery := some p }) :
    Runs { g with
      st := (p.run execLogged g.st).2
      recovery := some (.done (p.run execLogged g.st).1)
      liveCount := g.liveCount + changeOf p g.st } := by
  induction p generalizing g with
  | done value =>
      unfold changeOf
      rw [add_zero]
      exact hruns
  | call c next ih =>
      unfold changeOf
      rw [← add_assoc]
      exact ih _ { g with st := (execLogged c g.st).2, liveCount := g.liveCount + c.change }
        (hruns.step (.replays _ c next rfl))

/-- A store that was killed can be opened. -/
theorem Runs.opened (hruns : g.Runs) (plan : Plan) : (g.opened plan).Runs := by
  have hreopens := hruns.step (.reopens g
    { g.checkpoint with tables := g.checkpoint.tables.reload, rows := g.st.rows }
    (g.log.map fun record => (⟨record, false⟩, plan)) 0 ⟨rfl, rfl, rfl⟩
    (by rw [List.map_map]; rfl))
  have hreplayed := Runs.replayed _ { g with
    st := { g.checkpoint with tables := g.checkpoint.tables.reload, rows := g.st.rows }
    running := fun _ => none
    liveCount := if 0 ≤ g.checkpointLiveCount then g.checkpointLiveCount else (0 : Nat) }
    hreopens
  obtain ⟨owner₀, owner, bound, h⟩ := hreplayed.sound.opening_of rfl
  exact hreplayed.step (.recovered _ (congrArg (fun ok => some (Program.done ok)) h.safe.1))

/-- The call begins and makes `n` calls of the store. -/
def begun (g : LoggedStore V Row) (call : IdCall V Row) (n : Nat) : LoggedStore V Row :=
  (stepped call.r)^[n] { g with
    running := Function.update g.running call.r (some ⟨call, call.program, false⟩) }

theorem Runs.begun (hruns : g.Runs) {call : IdCall V Row} (hopen : g.recovery = none)
    (hr : call.r ≤ kMaxRealId) (hfree : g.running call.r = none) (n : Nat) :
    (g.begun call n).Runs :=
  (hruns.step (.begins g call hopen hr hfree)).stepped call.r n

/-- Whenever the process was killed before, `GetVector` and `GetPayload` find for an id what
the calls that count made of it: nothing that returned is lost, and nothing else is
there. -/
theorem finds_counted (hruns : g.Runs) (hopen : g.recovery = none) (hr : r ≤ kMaxRealId)
    (hfree : g.running r = none) :
    ((getDense r).run exec g.st).1 =
        (docAfter g.counted r).elim GetResult.notFound (fun doc => .ok doc.1) ∧
      ((getPayloadDense r).run exec g.st).1 = (docAfter g.counted r).bind Prod.snd := by
  obtain ⟨owner₀, owner, tallies, h⟩ := hruns.sound.opened_of hopen
  exact h.finds ((le_kMaxRealId_iff r).mp hr) hfree

def upsert (kind : Kind) (vector : Nat) (metadata : Option Bool) : IdCall Nat Bool :=
  .write (.upsert kind ⟨1, vector, metadata, Journal.lone⟩)

/-- The id 1 is inserted; its update is killed once it is logged. -/
def killedUpdate : LoggedStore Nat Bool :=
  ((LoggedStore.new Nat Bool).begun (upsert .insert 5 none) 10).begun
    (upsert .update 6 (some true)) 6

theorem killedUpdate_runs : killedUpdate.Runs :=
  (Runs.new.begun rfl (by decide) rfl 10).begun rfl (by decide) (by decide) 6

theorem finds_counted_kill :
    killedUpdate.st.vectors (2 ^ 63) = none ∧
      ((getDense 1).run exec (killedUpdate.opened Journal.lone).st).1 = GetResult.ok 6 ∧
      ((getPayloadDense 1).run exec (killedUpdate.opened Journal.lone).st).1 = some true :=
  ⟨by decide, finds_counted (killedUpdate_runs.opened Journal.lone) rfl (by decide) rfl⟩

/-- Whatever was under way when the process is killed, the replay of its log over the
checkpoint meets no record that it cannot replay. -/
theorem replay_succeeds (hruns : g.Runs) {base : State V Row}
    (hrestores : base.Restores g.checkpoint g.st) {items : List (LogEntry V Row × Plan)}
    (hitems : items.map Prod.fst = g.log.map fun record => ⟨record, false⟩) :
    ((recoverFromOpLog items).run execLogged base).1 = true := by
  have hreplayed := Runs.replayed _ { g with
    st := base
    running := fun _ => none
    liveCount := if 0 ≤ g.checkpointLiveCount then g.checkpointLiveCount else (0 : Nat) }
    (hruns.step (.reopens g base items 0 hrestores hitems))
  obtain ⟨owner₀, owner, bound, h⟩ := hreplayed.sound.opening_of rfl
  exact h.safe.1

/-- The process is killed in the middle of an update, with two records in the log. -/
theorem replay_succeeds_kill :
    killedUpdate.log.length = 2 ∧
      ((recoverFromOpLog (killedUpdate.log.map fun record =>
        (⟨record, false⟩, Journal.lone))).run execLogged
        ((State.empty Nat Bool).reopen)).1 = true :=
  ⟨rfl, replay_succeeds killedUpdate_runs ⟨rfl, rfl, rfl⟩ (by rw [List.map_map]; rfl)⟩

/-- An update id that is not handed out yet has nothing, whatever was under way when the
process was killed. -/
theorem vacant_from_next (hruns : g.Runs) (hopen : g.recovery = none) {i : Nat}
    (hi : g.st.tables.nextUpdateInternalId ≤ i) :
    g.st.tables.isTombstoned i = false ∧ g.st.vectors i = none ∧
      g.st.tables.updatedInternalToReal.lookup i = none ∧ g.st.rows i = none := by
  obtain ⟨owner₀, owner, tallies, h⟩ := hruns.sound.opened_of hopen
  have hgood : Good owner g.st := h.tracked.good
  exact hgood.untouched i (hgood.first.trans hi) (hgood.unused i hi)

/-- The update id of the killed update is in use. -/
theorem vacant_from_next_kill :
    (killedUpdate.opened Journal.lone).st.vectors (2 ^ 63) = some 6 ∧
      (killedUpdate.opened Journal.lone).st.vectors (2 ^ 63 + 1) = none :=
  ⟨by decide, (vacant_from_next (killedUpdate_runs.opened Journal.lone) rfl (by decide)).2.1⟩

/-- While no call is under way, the maps of the ids are inverse, no mapped id is dead, and an
id has one live version while it is alive and none while it is not. -/
theorem versions_after_kills (hruns : g.Runs) (hopen : g.recovery = none)
    (hidle : ∀ r, g.running r = none) : OneVersion g.st := by
  obtain ⟨owner₀, owner, tallies, h⟩ := hruns.sound.opened_of hopen
  exact (h.quiet hidle).oneVersion

theorem versions_after_kills_kill :
    ((isAlive 1).run exec (killedUpdate.opened Journal.lone).st).1 = true ∧
      OneVersion (killedUpdate.opened Journal.lone).st :=
  ⟨by decide, versions_after_kills (killedUpdate_runs.opened Journal.lone) rfl fun _ => rfl⟩

end LoggedStore

end AsterVec.Dense

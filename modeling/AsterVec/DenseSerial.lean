import AsterVec.DenseEffects
import Mathlib.Data.List.Permutation

/-!
Writes and payload calls have the effect of an order of them when every payload call
writes to versions, and over rows, that are still current.  A write counts with its end,
a payload call with its last step.
-/

namespace AsterVec.Dense

open AsterVec.IdTypes
open AsterVec.Programs

variable {V Row κ : Type}

namespace Traffic

/-- What is left of the writes. -/
def programs (t : Traffic V Row κ) : Nat → Option (Prog V Row Bool) :=
  Option.map Writing.rest ∘ t.writers

def machine (t : Traffic V Row κ) (owner : Nat → Option Nat) : Machine V Row :=
  ⟨t.st, owner, t.programs⟩

/-- What holds of the calls under way and of those that are over, which began with
`contents`. -/
structure Held (contents : Nat → Content Row) (owner : Nat → Option Nat)
    (t : Traffic V Row κ) : Prop where
  sound : (t.machine owner).Sound
  mapped : ∀ r i, t.st.tables.updatedRealToInternal.lookup r = some i → r < 2 ^ 63
  settled : ∀ r < 2 ^ 63, t.writers r = none →
    (sliceOf r owner t.st).content r = contentsAfter contents t.finished r
  writing : ∀ r w, t.writers r = some w → w.call.r = r ∧ w.began < t.clock ∧
    SafeWrite r w.rest
      (fun _ s => s.content r = w.call.onContent (contentsAfter contents t.finished r))
      (sliceOf r owner t.st)
  serving : ∀ k s, t.serving k = some s → (∀ r ∈ s.call.ids, r < 2 ^ 63) ∧
    s.began < t.clock ∧ Faithful s.call s.rest s.found
  stamped : ∀ f ∈ t.finished, f.began ≤ f.ended ∧ f.ended < t.clock ∧
    ∀ r ∈ f.call.ids, r < 2 ^ 63
  ordered : t.finished.Pairwise fun a b => b.ended < a.ended

section Steps

variable {contents : Nat → Content Row} {owner : Nat → Option Nat}
  {t : Traffic V Row κ}

theorem programs_update (writers : Nat → Option (Writing V Row)) (r : Nat)
    (w : Option (Writing V Row)) :
    Option.map Writing.rest ∘ Function.update writers r w =
      Function.update (Option.map Writing.rest ∘ writers) r (w.map Writing.rest) :=
  Function.comp_update _ _ _ _

theorem Held.writeBegins (hheld : Held contents owner t) {call : WriteCall V Row}
    (hr : call.r ≤ kMaxRealId) (hfree : t.writers call.r = none) :
    Held contents owner { t with
      clock := t.clock + 1
      writers := Function.update t.writers call.r (some ⟨call, t.clock, call.program⟩) } := by
  have hlt : call.r < 2 ^ 63 := (le_kMaxRealId_iff _).mp hr
  have hnone : t.programs call.r = none := congrArg (Option.map Writing.rest) hfree
  refine ⟨?_, hheld.mapped, ?_, ?_, ?_, ?_, hheld.ordered⟩
  · have hsound := hheld.sound.step (.begins call hr hnone)
    rw [show (t.machine owner).writers = t.programs from rfl] at hsound
    unfold machine programs
    rw [programs_update]
    exact hsound
  · intro r hr' hwriter
    have hne : r ≠ call.r := by
      rintro rfl
      exact absurd ((Function.update_self _ _ _).symm.trans hwriter) (by simp)
    exact hheld.settled r hr' ((Function.update_of_ne hne _ _).symm.trans hwriter)
  · intro r w hw
    rcases eq_or_ne r call.r with rfl | hne
    · change Function.update t.writers call.r _ call.r = some w at hw
      rw [Function.update_self] at hw
      cases hw
      refine ⟨rfl, Nat.lt_succ_self _, ?_⟩
      have hcontent := content_writeCall call (hheld.sound.inv _ hlt)
        (hheld.sound.idle _ hlt hnone)
      rw [show ((t.machine owner).slice call.r).content call.r = _ from
        hheld.settled _ hlt hfree] at hcontent
      exact hcontent
    · obtain ⟨hcall, hbegan, hsafe⟩ :=
        hheld.writing r w ((Function.update_of_ne hne _ _).symm.trans hw)
      exact ⟨hcall, Nat.lt_succ_of_lt hbegan, hsafe⟩
  · intro k s hs
    obtain ⟨hids, hbegan, hfaithful⟩ := hheld.serving k s hs
    exact ⟨hids, Nat.lt_succ_of_lt hbegan, hfaithful⟩
  · intro f hf
    obtain ⟨hbegan, hended, hids⟩ := hheld.stamped f hf
    exact ⟨hbegan, Nat.lt_succ_of_lt hended, hids⟩

theorem Held.writeCalls (hheld : Held contents owner t) {r : Nat} {call : WriteCall V Row}
    {began : Nat} {c : Call V Row} {next : Reply c → Prog V Row Bool}
    (hwriter : t.writers r = some ⟨call, began, .call c next⟩) :
    Held contents (ownerAfter r c (exec c t.st).1 owner) { t with
      st := (exec c t.st).2
      clock := t.clock + 1
      writers := Function.update t.writers r
        (some ⟨call, began, next (exec c t.st).1⟩) } := by
  have hprogram : t.programs r = some (.call c next) :=
    congrArg (Option.map Writing.rest) hwriter
  have hr := hheld.sound.locked r _ hprogram
  obtain ⟨hcall, hbegan, -, hallowed, hnext⟩ := hheld.writing r _ hwriter
  have hother : ∀ x < 2 ^ 63, x ≠ r →
      sliceOf x (ownerAfter r c (exec c t.st).1 owner) (exec c t.st).2 =
        sliceOf x owner t.st := fun x hx hne =>
    sliceOf_other hheld.sound.good hr hx hne (hheld.sound.inv r hr) hallowed
  refine ⟨?_, mapped_exec hr hallowed hheld.mapped, ?_, ?_, ?_, ?_, hheld.ordered⟩
  · have hsound := hheld.sound.step (.calls hprogram)
    unfold machine programs
    rw [programs_update]
    exact hsound
  · intro x hx hnone
    have hne : x ≠ r := by
      rintro rfl
      exact absurd ((Function.update_self _ _ _).symm.trans hnone) (by simp)
    rw [hother x hx hne]
    exact hheld.settled x hx ((Function.update_of_ne hne _ _).symm.trans hnone)
  · intro x w hw
    rcases eq_or_ne x r with rfl | hne
    · change Function.update t.writers x _ x = some w at hw
      rw [Function.update_self] at hw
      cases hw
      exact ⟨hcall, Nat.lt_succ_of_lt hbegan,
        hnext _ _ (sliceOf_step hheld.sound.good hr hallowed)⟩
    · have hw' : t.writers x = some w := (Function.update_of_ne hne _ _).symm.trans hw
      obtain ⟨hcall', hbegan', hsafe⟩ := hheld.writing x w hw'
      have hx := hheld.sound.locked x w.rest (congrArg (Option.map Writing.rest) hw')
      refine ⟨hcall', Nat.lt_succ_of_lt hbegan', ?_⟩
      rw [hother x hx hne]
      exact hsafe
  · intro k s hs
    obtain ⟨hids, hbegan', hfaithful⟩ := hheld.serving k s hs
    exact ⟨hids, Nat.lt_succ_of_lt hbegan', hfaithful⟩
  · intro f hf
    obtain ⟨hbegan', hended, hids⟩ := hheld.stamped f hf
    exact ⟨hbegan', Nat.lt_succ_of_lt hended, hids⟩

/-- A write counts when it ends. -/
theorem Held.writeEnds (hheld : Held contents owner t) {r : Nat} {call : WriteCall V Row}
    {began : Nat} {ok : Bool} (hwriter : t.writers r = some ⟨call, began, .done ok⟩) :
    Held contents owner { t with
      clock := t.clock + 1
      writers := Function.update t.writers r none
      finished := ⟨.write call, began, t.clock, ok⟩ :: t.finished } := by
  have hprogram : t.programs r = some (.done ok) :=
    congrArg (Option.map Writing.rest) hwriter
  have hr := hheld.sound.locked r _ hprogram
  obtain ⟨hok, -⟩ : ok = true ∧ _ := hheld.sound.safe r _ hprogram
  obtain ⟨rfl, hbegan, hcontent⟩ := hheld.writing r _ hwriter
  subst hok
  have hself : contentsAfter contents (⟨.write call, began, t.clock, true⟩ :: t.finished)
      call.r = call.onContent (contentsAfter contents t.finished call.r) :=
    Function.update_self _ _ _
  have hother : ∀ x, x ≠ call.r →
      contentsAfter contents (⟨.write call, began, t.clock, true⟩ :: t.finished) x =
        contentsAfter contents t.finished x := fun x hne => Function.update_of_ne hne _ _
  refine ⟨?_, hheld.mapped, ?_, ?_, ?_, ?_, ?_⟩
  · have hsound := hheld.sound.step (.ends hprogram)
    unfold machine programs
    rw [programs_update]
    exact hsound
  · intro x hx hnone
    rcases eq_or_ne x call.r with rfl | hne
    · exact hcontent.trans hself.symm
    · refine Eq.trans ?_ (hother x hne).symm
      exact hheld.settled x hx ((Function.update_of_ne hne _ _).symm.trans hnone)
  · intro x w hw
    have hne : x ≠ call.r := by
      rintro rfl
      exact absurd ((Function.update_self _ _ _).symm.trans hw) (by simp)
    obtain ⟨hcall, hbegan', hsafe⟩ :=
      hheld.writing x w ((Function.update_of_ne hne _ _).symm.trans hw)
    refine ⟨hcall, Nat.lt_succ_of_lt hbegan', ?_⟩
    rw [hother x hne]
    exact hsafe
  · intro k s hs
    obtain ⟨hids, hbegan', hfaithful⟩ := hheld.serving k s hs
    exact ⟨hids, Nat.lt_succ_of_lt hbegan', hfaithful⟩
  · intro f hf
    rcases List.mem_cons.mp hf with rfl | hf
    · refine ⟨hbegan.le, Nat.lt_succ_self _, fun x hx => ?_⟩
      rw [List.mem_singleton.mp hx]
      exact hr
    · obtain ⟨hbegan', hended, hids⟩ := hheld.stamped f hf
      exact ⟨hbegan', Nat.lt_succ_of_lt hended, hids⟩
  · exact List.pairwise_cons.mpr ⟨fun f hf => (hheld.stamped f hf).2.1, hheld.ordered⟩

/-- Where the contents are those of the calls that are over, current versions have them. -/
theorem Held.content_alive (hheld : Held contents owner t) {r : Nat} (hr : r < 2 ^ 63)
    (hfree : t.writers r = none) (halive : AliveIn t.st r) :
    contentsAfter contents t.finished r =
      some (t.st.rows (t.st.tables.resolveInternal r)) := by
  have hlive := (hheld.sound.alive_iff hr).mpr halive
  have howned := (hheld.sound.inv r hr).owned_current
  have hcurrent := hheld.sound.current_eq r
  rw [hcurrent] at howned
  obtain ⟨-, -, hrows⟩ := Quiet.slice_at t.st howned
  rw [← hheld.settled r hr hfree]
  refine hlive.content.trans (congrArg some ?_)
  rw [hcurrent]
  exact hrows

variable [DecidableEq κ]

theorem Held.rowsBegins (hheld : Held contents owner t) (k : κ) {call : RowCall Row}
    (hids : ∀ r ∈ call.ids, r ≤ kMaxRealId) :
    Held contents owner { t with
      clock := t.clock + 1
      serving := Function.update t.serving k
        (some ⟨call, t.clock, call.program, none⟩) } := by
  refine ⟨hheld.sound, hheld.mapped, hheld.settled, ?_, ?_, ?_, hheld.ordered⟩
  · intro r w hw
    obtain ⟨hcall, hbegan, hsafe⟩ := hheld.writing r w hw
    exact ⟨hcall, Nat.lt_succ_of_lt hbegan, hsafe⟩
  · intro k' s hs
    change Function.update t.serving k _ k' = some s at hs
    rcases eq_or_ne k' k with rfl | hne
    · rw [Function.update_self] at hs
      cases hs
      exact ⟨fun r hr => (le_kMaxRealId_iff _).mp (hids r hr), Nat.lt_succ_self _,
        faithful_program call⟩
    · rw [Function.update_of_ne hne] at hs
      obtain ⟨hids', hbegan, hfaithful⟩ := hheld.serving k' s hs
      exact ⟨hids', Nat.lt_succ_of_lt hbegan, hfaithful⟩
  · intro f hf
    obtain ⟨hbegan, hended, hids'⟩ := hheld.stamped f hf
    exact ⟨hbegan, Nat.lt_succ_of_lt hended, hids'⟩

theorem Held.rowsCalls (hheld : Held contents owner t) {k : κ} {s : Serving V Row}
    {c : Call V Row} {next : Reply c → Prog V Row Bool} (hserving : t.serving k = some s)
    (hrest : s.rest = .call c next)
    (hmore : (next (exec c t.st).1).result? = none) :
    Held contents owner { t with
      st := (exec c t.st).2
      clock := t.clock + 1
      serving := Function.update t.serving k (some { s with
        rest := next (exec c t.st).1
        found := foundAfter c (exec c t.st).1 s.found }) } := by
  obtain ⟨hids, hbegan, hfaithful⟩ := hheld.serving k s hserving
  rw [hrest] at hfaithful
  obtain ⟨hwrites, hreads⟩ := hfaithful
  -- A call that writes rows is the last one.
  have hnone : rowsOf c = none := by
    cases hrows : rowsOf c with
    | none => rfl
    | some rows =>
        rw [(hwrites rows hrows).1] at hmore
        cases hmore
  obtain ⟨hreading, hnext⟩ := hreads hnone
  rw [exec_of_readsOnly hreading]
  refine ⟨hheld.sound, hheld.mapped, hheld.settled, ?_, ?_, ?_, hheld.ordered⟩
  · intro r w hw
    obtain ⟨hcall, hbegan', hsafe⟩ := hheld.writing r w hw
    exact ⟨hcall, Nat.lt_succ_of_lt hbegan', hsafe⟩
  · intro k' s' hs
    change Function.update t.serving k _ k' = some s' at hs
    rcases eq_or_ne k' k with rfl | hne
    · rw [Function.update_self] at hs
      cases hs
      exact ⟨hids, Nat.lt_succ_of_lt hbegan, hnext _⟩
    · rw [Function.update_of_ne hne] at hs
      obtain ⟨hids', hbegan', hfaithful'⟩ := hheld.serving k' s' hs
      exact ⟨hids', Nat.lt_succ_of_lt hbegan', hfaithful'⟩
  · intro f hf
    obtain ⟨hbegan', hended, hids'⟩ := hheld.stamped f hf
    exact ⟨hbegan', Nat.lt_succ_of_lt hended, hids'⟩

/-- A payload call counts with its last step. -/
theorem Held.rowsLast (hheld : Held contents owner t) {k : κ} {s : Serving V Row}
    {c : Call V Row} {next : Reply c → Prog V Row Bool} {ok : Bool}
    (hserving : t.serving k = some s) (hrest : s.rest = .call c next)
    (hcurrent : Current t s c) (hlast : (next (exec c t.st).1).result? = some ok) :
    Held contents owner { t with
      st := (exec c t.st).2
      clock := t.clock + 1
      serving := Function.update t.serving k none
      finished := ⟨.rows s.call, s.began, t.clock, ok⟩ :: t.finished } := by
  obtain ⟨hids, hbegan, hfaithful⟩ := hheld.serving k s hserving
  rw [hrest] at hfaithful
  obtain ⟨hwrites, hreads⟩ := hfaithful
  have hserves : ∀ k' s', Function.update t.serving k none k' = some s' →
      (∀ r ∈ s'.call.ids, r < 2 ^ 63) ∧ s'.began < t.clock + 1 ∧
        Faithful s'.call s'.rest s'.found := by
    intro k' s' hs
    rcases eq_or_ne k' k with rfl | hne
    · rw [Function.update_self] at hs
      cases hs
    · rw [Function.update_of_ne hne] at hs
      obtain ⟨hids', hbegan', hfaithful'⟩ := hheld.serving k' s' hs
      exact ⟨hids', Nat.lt_succ_of_lt hbegan', hfaithful'⟩
  have hstamped : ∀ f ∈ (⟨.rows s.call, s.began, t.clock, ok⟩ :: t.finished :
      List (Finished V Row)), f.began ≤ f.ended ∧ f.ended < t.clock + 1 ∧
        ∀ r ∈ f.call.ids, r < 2 ^ 63 := by
    intro f hf
    rcases List.mem_cons.mp hf with rfl | hf
    · exact ⟨hbegan.le, Nat.lt_succ_self _, hids⟩
    · obtain ⟨hbegan', hended, hids'⟩ := hheld.stamped f hf
      exact ⟨hbegan', Nat.lt_succ_of_lt hended, hids'⟩
  have hordered : (⟨.rows s.call, s.began, t.clock, ok⟩ :: t.finished :
      List (Finished V Row)).Pairwise fun a b => b.ended < a.ended :=
    List.pairwise_cons.mpr ⟨fun f hf => (hheld.stamped f hf).2.1, hheld.ordered⟩
  cases hrows : rowsOf c with
  | none =>
      obtain ⟨hreading, hnext⟩ := hreads hrows
      have hfailed : ok = false := by
        have hdone := hnext (exec c t.st).1
        rw [Program.eq_done_of_result? hlast] at hdone
        exact hdone
      subst hfailed
      rw [exec_of_readsOnly hreading]
      refine ⟨hheld.sound, hheld.mapped, hheld.settled, ?_, hserves, hstamped, hordered⟩
      intro r w hw
      obtain ⟨hcall, hbegan', hsafe⟩ := hheld.writing r w hw
      exact ⟨hcall, Nat.lt_succ_of_lt hbegan', hsafe⟩
  | some rows =>
      obtain ⟨hdone, hrowsWritten⟩ := hwrites rows hrows
      rw [hdone] at hlast
      cases hlast
      obtain ⟨hplaces, hfree, hfound⟩ := hcurrent rows hrows
      obtain ⟨items, rfl, hitems, heffect⟩ := hrowsWritten.effect hplaces hfound
        fun r hr => hheld.content_alive (hids r hr) (hfree r hr).1 (hfree r hr).2
      rw [exec_of_rowsOf hrows]
      have hnone : ∀ r, t.writers r = none ↔ (t.machine owner).writers r = none :=
        fun r => Option.map_eq_none_iff.symm
      obtain ⟨hsound, hafter, hwriters⟩ := hheld.sound.putRows
        (contentsAfter contents t.finished)
        (fun r hr hwriter => hheld.settled r hr ((hnone r).mpr hwriter))
        (fun item hitem => ⟨hids _ (hitems item hitem),
          (hnone _).mp (hfree _ (hitems item hitem)).1, (hfree _ (hitems item hitem)).2⟩)
      refine ⟨hsound, hheld.mapped, ?_, ?_, hserves, hstamped, hordered⟩
      · intro r hr hwriter
        refine (hafter r hr ((hnone r).mp hwriter)).trans ?_
        exact congrFun heffect.symm r
      · intro r w hw
        obtain ⟨hcall, hbegan', hsafe⟩ := hheld.writing r w hw
        have hprogram : t.programs r = some w.rest := congrArg (Option.map Writing.rest) hw
        have hr := hheld.sound.locked r _ hprogram
        refine ⟨hcall, Nat.lt_succ_of_lt hbegan', ?_⟩
        have hsame := hwriters r hr (by
          rw [show (t.machine owner).writers r = some w.rest from hprogram]
          simp)
        have hkept : contentsAfter contents
            (⟨.rows s.call, s.began, t.clock, true⟩ :: t.finished) r =
              contentsAfter contents t.finished r := by
          change s.call.onContents _ r = _
          rw [heffect]
          exact putContents_of_not_mem fun item hitem h => by
            rw [← h, (hfree _ (hitems item hitem)).1] at hw
            cases hw
        have hslice : sliceOf r owner (exec (.putRows (items.map fun item =>
            (t.st.tables.resolveInternal item.1, item.2)) : Call V Row) t.st).2 =
              sliceOf r owner t.st := hsame
        rw [hkept, hslice]
        exact hsafe

theorem Held.step (hheld : Held contents owner t) {t' : Traffic V Row κ}
    (hstep : Step Current t t') : ∃ owner', Held contents owner' t' := by
  cases hstep with
  | writeBegins call hr hfree => exact ⟨owner, hheld.writeBegins hr hfree⟩
  | writeCalls r call began c next hwriter => exact ⟨_, hheld.writeCalls hwriter⟩
  | writeEnds r call began ok hwriter => exact ⟨owner, hheld.writeEnds hwriter⟩
  | rowsBegins k call hids hfree => exact ⟨owner, hheld.rowsBegins k hids⟩
  | rowsCalls k s c next hserving hrest hallowed hmore =>
      exact ⟨owner, hheld.rowsCalls hserving hrest hmore⟩
  | rowsLast k s c next ok hserving hrest hallowed hlast =>
      exact ⟨owner, hheld.rowsLast hserving hrest hallowed hlast⟩

end Steps

theorem held_start {owner : Nat → Option Nat} {st : State V Row} (hquiet : Quiet owner st) :
    Held (fun r => (sliceOf r owner st).content r) owner (start st : Traffic V Row κ) where
  sound := hquiet.sound
  mapped := hquiet.mapped
  settled := fun _ _ _ => rfl
  writing := by rintro _ _ ⟨⟩
  serving := by rintro _ _ ⟨⟩
  stamped := by rintro _ ⟨⟩
  ordered := .nil

theorem Held.quiet {contents : Nat → Content Row} {owner : Nat → Option Nat}
    {t : Traffic V Row κ} (hheld : Held contents owner t) (hidle : t.Idle) :
    Quiet owner t.st :=
  ⟨hheld.sound.good, hheld.sound.inv,
    fun r hr => hheld.sound.idle r hr (congrArg (Option.map Writing.rest) (hidle.1 r)),
    hheld.mapped⟩

end Traffic

/-! States with the same contents -/

namespace Quiet

variable {owner : Nat → Option Nat} {st : State V Row} {r : Nat}

theorem mem_storedRows (hquiet : Quiet owner st) {x : Nat × Row} :
    x ∈ st.StoredRows ↔
      x.1 < 2 ^ 63 ∧ (sliceOf x.1 owner st).content x.1 = some (some x.2) := by
  constructor
  · rintro ⟨i, hrow, hreal⟩
    obtain ⟨r, hr, rfl, halive⟩ := hquiet.version_of_row (by rw [hrow]; rfl)
    rw [hquiet.resolveReal_resolveInternal hr] at hreal
    subst hreal
    refine ⟨hr, ?_⟩
    rw [((hquiet.alive_iff hr).mpr halive).content, (hquiet.at_current hr).2]
    exact congrArg some hrow
  · rintro ⟨hr, hcontent⟩
    obtain ⟨-, hrow⟩ := Slice.alive_of_content hcontent
    rw [(hquiet.at_current hr).2] at hrow
    exact ⟨_, hrow, hquiet.resolveReal_resolveInternal hr⟩

end Quiet

theorem sequentially_contents {owner : Nat → Option Nat} {st : State V Row}
    (hquiet : Quiet owner st) {finished : List (Finished V Row)}
    (hok : ∀ f ∈ finished, f.ok = true) (hids : ∀ f ∈ finished, ∀ r ∈ f.call.ids, r < 2 ^ 63) :
    ∃ owner', Quiet owner' (st.sequentially (finished.reverse.map Finished.call)) ∧
      ∀ r < 2 ^ 63, (sliceOf r owner'
        (st.sequentially (finished.reverse.map Finished.call))).content r =
          contentsAfter (fun r => (sliceOf r owner st).content r) finished r := by
  induction finished with
  | nil => exact ⟨owner, hquiet, fun _ _ => rfl⟩
  | cons last finished ih =>
      obtain ⟨hlast, hrest⟩ := List.forall_mem_cons.mp hok
      obtain ⟨hlastIds, hrestIds⟩ := List.forall_mem_cons.mp hids
      obtain ⟨owner', hquiet', hcontents⟩ := ih hrest hrestIds
      obtain ⟨owner'', hquiet'', hcontents'⟩ :=
        hquiet'.run_dbCall hcontents last.call hlastIds
      have hrun : st.sequentially ((last :: finished).reverse.map Finished.call) =
          (last.call.program.run exec
            (st.sequentially (finished.reverse.map Finished.call))).2 := by
        unfold State.sequentially
        rw [List.reverse_cons, List.map_append, List.foldl_append]
        rfl
      have hafter : contentsAfter (fun r => (sliceOf r owner st).content r)
          (last :: finished) = last.call.onContents
            (contentsAfter (fun r => (sliceOf r owner st).content r) finished) := by
        rw [contentsAfter, hlast]
        rfl
      rw [hrun, hafter]
      exact ⟨owner'', hquiet'', hcontents'⟩

/-- Writes and payload calls on any ids, from any state of a store: when they are all over
and were successful, the payloads are those of an order of the calls, provided that every
payload call wrote its rows while what it had read was current. -/
theorem Reached.serialisable [DecidableEq κ] {st : State V Row} (hreached : Reached st)
    {t : Traffic V Row κ}
    (hrun : Relation.ReflTransGen (Traffic.Step Traffic.Current) (Traffic.start st) t)
    (hidle : t.Idle) (hok : ∀ f ∈ t.finished, f.ok = true) : Serialisable st t := by
  obtain ⟨owner, hquiet⟩ := hreached.settled.quiet
  have hheld : ∃ owner', t.Held (fun r => (sliceOf r owner st).content r) owner' := by
    clear hidle hok
    induction hrun with
    | refl => exact ⟨owner, Traffic.held_start hquiet⟩
    | tail _ hstep ih =>
        obtain ⟨owner', hheld⟩ := ih
        exact hheld.step hstep
  obtain ⟨owner', hheld⟩ := hheld
  have hquiet' := hheld.quiet hidle
  have hcontents : ∀ r < 2 ^ 63,
      (sliceOf r owner' t.st).content r = contentsAfter _ t.finished r :=
    fun r hr => hheld.settled r hr (hidle.1 r)
  obtain ⟨owner'', hquiet'', hsequential⟩ := sequentially_contents hquiet hok
    fun f hf => (hheld.stamped f hf).2.2
  refine ⟨t.finished.reverse, List.reverse_perm _, ?_, ?_, ?_⟩
  · rw [List.pairwise_reverse]
    refine hheld.ordered.imp_of_mem ?_
    intro a b ha hb hbefore
    exact Nat.not_lt.mpr ((hheld.stamped b hb).1.trans hbefore.le)
  · intro r hr
    have hlt := (le_kMaxRealId_iff r).mp hr
    unfold State.payload
    rw [hquiet'.row_eq_content hlt, hquiet''.row_eq_content hlt, hcontents r hlt,
      hsequential r hlt]
  · ext x
    rw [hquiet'.mem_storedRows, hquiet''.mem_storedRows]
    refine and_congr_right fun hlt => ?_
    rw [hcontents x.1 hlt, hsequential x.1 hlt]

/-! Runs that are given by their moves -/

namespace Traffic

/-- A step by its author. -/
inductive Move (V Row κ : Type) where
  | begins (call : WriteCall V Row)
  | writer (r : Nat)
  | serves (k : κ) (call : RowCall Row)
  | row (k : κ)

section Moves

variable [DecidableEq κ]

/-- The traffic after a move that `check` lets pass. -/
def move (check : Traffic V Row κ → Serving V Row → Call V Row → Bool)
    (t : Traffic V Row κ) : Move V Row κ → Option (Traffic V Row κ)
  | .begins call =>
      if call.r ≤ kMaxRealId ∧ (t.writers call.r).isNone then
        some { t with
          clock := t.clock + 1
          writers := Function.update t.writers call.r (some ⟨call, t.clock, call.program⟩) }
      else none
  | .writer r =>
      match t.writers r with
      | none => none
      | some ⟨call, began, .call c next⟩ =>
          some { t with
            st := (exec c t.st).2
            clock := t.clock + 1
            writers := Function.update t.writers r
              (some ⟨call, began, next (exec c t.st).1⟩) }
      | some ⟨call, began, .done ok⟩ =>
          some { t with
            clock := t.clock + 1
            writers := Function.update t.writers r none
            finished := ⟨.write call, began, t.clock, ok⟩ :: t.finished }
  | .serves k call =>
      if (∀ r ∈ call.ids, r ≤ kMaxRealId) ∧ (t.serving k).isNone then
        some { t with
          clock := t.clock + 1
          serving := Function.update t.serving k
            (some ⟨call, t.clock, call.program, none⟩) }
      else none
  | .row k =>
      match t.serving k with
      | some ⟨call, began, .call c next, found⟩ =>
          if check t ⟨call, began, .call c next, found⟩ c then
            match (next (exec c t.st).1).result? with
            | none => some { t with
                st := (exec c t.st).2
                clock := t.clock + 1
                serving := Function.update t.serving k
                  (some ⟨call, began, next (exec c t.st).1,
                    foundAfter c (exec c t.st).1 found⟩) }
            | some ok => some { t with
                st := (exec c t.st).2
                clock := t.clock + 1
                serving := Function.update t.serving k none
                finished := ⟨.rows call, began, t.clock, ok⟩ :: t.finished }
          else none
      | _ => none

def moves (check : Traffic V Row κ → Serving V Row → Call V Row → Bool)
    (ms : List (Move V Row κ)) (t : Traffic V Row κ) : Option (Traffic V Row κ) :=
  ms.foldlM (move check) t

variable {check : Traffic V Row κ → Serving V Row → Call V Row → Bool}

theorem step_of_move {Allowed : Traffic V Row κ → Serving V Row → Call V Row → Prop}
    (hcheck : ∀ t s c, check t s c = true → Allowed t s c) {t t' : Traffic V Row κ}
    {m : Move V Row κ} (hmove : move check t m = some t') : Step Allowed t t' := by
  cases m with
  | begins call =>
      simp only [move] at hmove
      split at hmove
      · rename_i hfree
        cases hmove
        exact .writeBegins t call hfree.1 (Option.isNone_iff_eq_none.mp hfree.2)
      · cases hmove
  | writer r =>
      simp only [move] at hmove
      split at hmove
      · cases hmove
      · rename_i hwriter
        cases hmove
        exact .writeCalls t r _ _ _ _ hwriter
      · rename_i hwriter
        cases hmove
        exact .writeEnds t r _ _ _ hwriter
  | serves k call =>
      simp only [move] at hmove
      split at hmove
      · rename_i hfree
        cases hmove
        exact .rowsBegins t k call hfree.1 (Option.isNone_iff_eq_none.mp hfree.2)
      · cases hmove
  | row k =>
      simp only [move] at hmove
      split at hmove
      · rename_i hserving
        split at hmove
        · rename_i hpass
          split at hmove
          · rename_i hmore
            cases hmove
            exact .rowsCalls t k _ _ _ hserving rfl (hcheck _ _ _ hpass) hmore
          · rename_i hlast
            cases hmove
            exact .rowsLast t k _ _ _ _ hserving rfl (hcheck _ _ _ hpass) hlast
        · cases hmove
      · cases hmove

theorem run_of_moves {Allowed : Traffic V Row κ → Serving V Row → Call V Row → Prop}
    (hcheck : ∀ t s c, check t s c = true → Allowed t s c) {ms : List (Move V Row κ)}
    {t t' : Traffic V Row κ} (hmoves : moves check ms t = some t') :
    Relation.ReflTransGen (Step Allowed) t t' := by
  induction ms generalizing t with
  | nil =>
      cases hmoves
      exact .refl
  | cons m ms ih =>
      obtain ⟨between, hfirst, hrest⟩ := Option.bind_eq_some_iff.mp hmoves
      exact .head (step_of_move hcheck hfirst) (ih hrest)

/-- The id that a move writes. -/
def Move.id? : Move V Row κ → Option Nat
  | .begins call => some call.r
  | .writer r => some r
  | _ => none

/-- The writers of other ids are left alone. -/
theorem writers_of_move {t t' : Traffic V Row κ} {m : Move V Row κ} {r : Nat}
    (hr : m.id? ≠ some r) (hmove : move check t m = some t') :
    t'.writers r = t.writers r := by
  cases m with
  | begins call =>
      have hne : r ≠ call.r := fun h => hr (congrArg some h.symm)
      simp only [move] at hmove
      split at hmove
      · cases hmove
        exact Function.update_of_ne hne _ _
      · cases hmove
  | writer x =>
      have hne : r ≠ x := fun h => hr (congrArg some h.symm)
      simp only [move] at hmove
      split at hmove
      · cases hmove
      · cases hmove
        exact Function.update_of_ne hne _ _
      · cases hmove
        exact Function.update_of_ne hne _ _
  | serves k call =>
      simp only [move] at hmove
      split at hmove <;> cases hmove
      rfl
  | row k =>
      simp only [move] at hmove
      split at hmove
      · split at hmove
        · split at hmove <;> cases hmove <;> rfl
        · cases hmove
      · cases hmove

theorem writers_of_moves {ms : List (Move V Row κ)} {t t' : Traffic V Row κ} {r : Nat}
    (hr : ∀ m ∈ ms, m.id? ≠ some r) (hmoves : moves check ms t = some t') :
    t'.writers r = t.writers r := by
  induction ms generalizing t with
  | nil =>
      cases hmoves
      rfl
  | cons m ms ih =>
      obtain ⟨hfirst, hothers⟩ := List.forall_mem_cons.mp hr
      obtain ⟨between, hmove, hrest⟩ := Option.bind_eq_some_iff.mp hmoves
      exact (ih hothers hrest).trans (writers_of_move hfirst hmove)

/-- What `Current` asks, as a test. -/
def current? [DecidableEq Row] (t : Traffic V Row κ) (s : Serving V Row)
    (c : Call V Row) : Bool :=
  (rowsOf c).all fun rows =>
    decide (rows.map Prod.fst = s.call.ids.map t.st.tables.resolveInternal) &&
      decide (∀ r ∈ s.call.ids, (t.writers r).isNone = true ∧
        t.st.tables.isTombstoned (t.st.tables.resolveInternal r) = false ∧
        (t.st.vectors (t.st.tables.resolveInternal r)).isSome = true) &&
      rows.all fun row => s.found.all fun existing => decide (t.st.rows row.1 = existing)

omit [DecidableEq κ] in
theorem current_of_test [DecidableEq Row] {t : Traffic V Row κ} {s : Serving V Row}
    {c : Call V Row} (htest : current? t s c = true) : Current t s c := by
  intro rows hrows
  unfold current? at htest
  rw [hrows] at htest
  simp only [Option.all_some, Bool.and_eq_true, decide_eq_true_eq, List.all_eq_true] at htest
  obtain ⟨⟨hplaces, hfree⟩, hfound⟩ := htest
  refine ⟨hplaces, ?_, ?_⟩
  · intro r hr
    obtain ⟨hnone, hlive, hvector⟩ := hfree r hr
    exact ⟨Option.isNone_iff_eq_none.mp hnone, hlive, hvector⟩
  · intro row hrow existing hexisting
    have hread := hfound row hrow
    rw [hexisting] at hread
    simpa using hread

end Moves

/-- A store with a vector for the id 0. -/
def insertZero : WriteCall Nat (List Nat) :=
  .upsert .insert ⟨0, 7, none, ⟨[], [], false, false⟩⟩

def updateZero : WriteCall Nat (List Nat) :=
  .upsert .update ⟨0, 8, none, ⟨[], [], false, false⟩⟩

def oneInserted : State Nat (List Nat) :=
  (insertZero.program.run exec (State.empty Nat (List Nat))).2

theorem reached_oneInserted : Reached oneInserted :=
  .wrote insertZero .empty (by decide) (by rintro _ ⟨⟩)

/-- A patch that appends to the payload of the id 0. -/
def appendZero (n : Nat) : RowCall (List Nat) :=
  .one (.update 0 fun existing => existing.getD [] ++ [n])

/-- Two patches begin, and the second reads its row when the first and an update of the
vector are over. -/
def inTurn : List (Move Nat (List Nat) Bool) :=
  [.serves false (appendZero 1), .serves true (appendZero 2)] ++
    List.replicate 6 (.row false) ++ .begins updateZero :: List.replicate 15 (.writer 0) ++
    List.replicate 6 (.row true)

/-- Both patches read the row before one of them writes. -/
def crossing : List (Move Nat (List Nat) Bool) :=
  [.serves false (appendZero 1), .serves true (appendZero 2)] ++
    List.replicate 5 (.row false) ++ List.replicate 6 (.row true) ++ [.row false]

theorem idle_of_moves {check} {ms : List (Move Nat (List Nat) Bool)}
    {t : Traffic Nat (List Nat) Bool}
    (hmoves : moves check ms (start oneInserted) = some t)
    (hids : ∀ m ∈ ms, m.id? = none ∨ m.id? = some 0) (hzero : (t.writers 0).isNone)
    (hserving : ∀ k, (t.serving k).isNone) : t.Idle := by
  refine ⟨fun r => ?_, fun k => Option.isNone_iff_eq_none.mp (hserving k)⟩
  rcases eq_or_ne r 0 with rfl | hne
  · exact Option.isNone_iff_eq_none.mp hzero
  · refine (writers_of_moves (fun m hm h => ?_) hmoves).trans rfl
    rcases hids m hm with hid | hid
    · rw [hid] at h
      cases h
    · rw [hid] at h
      exact hne (Option.some.inj h).symm

def merged : Traffic Nat (List Nat) Bool :=
  (moves current? inTurn (start oneInserted)).get (by decide +kernel)

theorem moves_merged : moves current? inTurn (start oneInserted) = some merged :=
  (Option.some_get _).symm

theorem merged_serialisable : merged.st.payload 0 = some [1, 2] ∧
    Serialisable oneInserted merged := by
  have hrun := run_of_moves (fun _ _ _ => current_of_test) moves_merged
  have hidle : merged.Idle :=
    idle_of_moves moves_merged (by decide) (by decide +kernel) (by decide +kernel)
  exact ⟨by decide +kernel,
    reached_oneInserted.serialisable hrun hidle (by decide +kernel)⟩

def crossed : Traffic Nat (List Nat) Bool :=
  (moves (fun _ _ _ => true) crossing (start oneInserted)).get (by decide +kernel)

theorem moves_crossed :
    moves (fun _ _ _ => true) crossing (start oneInserted) = some crossed :=
  (Option.some_get _).symm

/-- The patch that was written first is lost. -/
theorem crossing_losesPatch :
    ¬∀ (st : State Nat (List Nat)) (t : Traffic Nat (List Nat) Bool), Reached st →
      Relation.ReflTransGen (Step fun _ _ _ => True) (start st) t → t.Idle →
      (∀ f ∈ t.finished, f.ok = true) → Serialisable st t := by
  intro hclaim
  have hrun : Relation.ReflTransGen (Step fun _ _ _ => True) (start oneInserted) crossed :=
    run_of_moves (fun _ _ _ _ => trivial) moves_crossed
  have hidle : crossed.Idle :=
    idle_of_moves moves_crossed (by decide) (by decide +kernel) (by decide +kernel)
  obtain ⟨order, hperm, -, hpayload, -⟩ :=
    hclaim _ _ reached_oneInserted hrun hidle (by decide +kernel)
  have hcalls : (order.map Finished.call).Perm
      [.rows (appendZero 1), .rows (appendZero 2)] := hperm.map _
  have hlost : crossed.st.payload 0 = some [1] := by decide +kernel
  have hzero := hpayload 0 (Nat.zero_le _)
  rw [hlost] at hzero
  revert hzero
  rcases List.perm_pair.mp hcalls with horder | horder
  · rw [horder]
    decide +kernel
  · rw [horder]
    decide +kernel

end Traffic

end AsterVec.Dense

import AsterVec.BulkBuildSteps
import AsterVec.KeyMapRuns
import AsterVec.NothingLost

/-!
A keyed store: the callers have ids of their own, which the id map takes to the dense ids
that the store works on.
-/

namespace AsterVec.Dense

open AsterVec.BulkBuild (Resolution tooLong)
open AsterVec.IdTypes
open AsterVec.KeyMap (lookupKey)
open AsterVec.PointIds
open AsterVec.Programs

variable {V Row : Type}

/-- `callers d` is the id that the last call on the dense id `d` was made for, and `named`
are the calls that count with their ids. -/
structure KeyedStore (V Row : Type) where
  keys : KeyMap.Machine
  store : LoggedStore V Row
  callers : Nat → PointId
  named : List (PointId × IdCall V Row)

/-- What a read of a point returns: its reply, or why the id was not resolved. -/
inductive PointReply (α : Type) where
  | ok (reply : α)
  | invalidArgument (text : String)
  | corruption
deriving DecidableEq

/-- What the calls make of a point, from nothing. -/
def docNamed (named : List (PointId × IdCall V Row)) (id : PointId) : Doc V Row :=
  (named.filter fun item => item.1 = id).foldl (fun doc item => item.2.onDoc doc) none

namespace KeyedStore

/-- No store was created yet. -/
def new (V Row : Type) : KeyedStore V Row :=
  ⟨.fresh, LoggedStore.new V Row, fun _ => .int 0, []⟩

/-- `resolveId` without `create`. -/
def resolveId (g : KeyedStore V Row) (id : PointId) : Resolution :=
  if tooLong id then .invalidArgument "string id longer than 1024 bytes"
  else
    match lookupKey g.keys.ids (encode id) with
    | .found dense => .ok dense
    | .notFound => .notFound
    | .corruption => .corruption

def get (g : KeyedStore V Row) (id : PointId) : PointReply (GetResult V) :=
  match g.resolveId id with
  | .ok dense => .ok ((getDense dense).run exec g.store.st).1
  | .notFound => .ok .notFound
  | .invalidArgument text => .invalidArgument text
  | .corruption => .corruption

/-- `none` is the empty payload. -/
def getPayload (g : KeyedStore V Row) (id : PointId) : PointReply (Option Row) :=
  match g.resolveId id with
  | .ok dense => .ok ((getPayloadDense dense).run exec g.store.st).1
  | .notFound => .ok none
  | .invalidArgument text => .invalidArgument text
  | .corruption => .corruption

/-- An insert or an update has put the key of its id or found it; the other calls have found
it, or they return at once. -/
def Resolves (g : KeyedStore V Row) (id : PointId) : IdCall V Row → Prop
  | .write (.upsert _ write) =>
      tooLong id = false ∧ ∃ t, g.keys.writers t = some (.resolved (encode id) write.r)
  | call => g.resolveId id = .ok call.r

/-- A call for the point begins on its dense id. -/
def began (g : KeyedStore V Row) (id : PointId) (call : IdCall V Row) : KeyedStore V Row :=
  { g with
    store := { g.store with
      running := Function.update g.store.running call.r (some ⟨call, call.program, false⟩) }
    callers := Function.update g.callers call.r id }

/-- The calls that count now are those of their callers. -/
def moved (g : KeyedStore V Row) (store : LoggedStore V Row) : KeyedStore V Row :=
  { g with
    store := store
    named := g.named ++ (store.counted.drop g.store.counted.length).map fun call =>
      (g.callers call.r, call) }

/-- The map and the store move in turn, each with its own part of the log, and a call begins
while both are open.  A kill is one of the map and then one of the store.  Bulk builds, which
write without calls, are left out. -/
inductive Step (shard : KeyMap.Key → Nat) : KeyedStore V Row → KeyedStore V Row → Prop
  | keys (g : KeyedStore V Row) (keys : KeyMap.Machine) (hstep : KeyMap.Step shard g.keys keys)
      (hbulk : keys.bulk = none) : Step shard g { g with keys := keys }
  | begins (g : KeyedStore V Row) (id : PointId) (call : IdCall V Row)
      (hopened : g.keys.stage = .opened) (hopen : g.store.recovery = none)
      (hresolves : g.Resolves id call) (hfree : g.store.running call.r = none) :
      Step shard g (g.began id call)
  | moves (g : KeyedStore V Row) (store : LoggedStore V Row)
      (hstep : LoggedStore.Step g.store store)
      (hbegan : ∀ r, g.store.running r = none → store.running r = none) :
      Step shard g (g.moved store)

/-- The runs from before the store was created. -/
inductive Runs (shard : KeyMap.Key → Nat) : KeyedStore V Row → Prop
  | new : Runs shard (new V Row)
  | step {g g' : KeyedStore V Row} : Runs shard g → Step shard g g' → Runs shard g'

end KeyedStore

/-! The calls that count -/

namespace LoggedStore

variable {g g' : LoggedStore V Row}

/-- A call that is under way works on its own id. -/
theorem Runs.running_r (hruns : g.Runs) {r : Nat} {t : Running V Row}
    (hrunning : g.running r = some t) : t.call.r = r := by
  obtain ⟨owner₀, owner, tallies, h⟩ := hruns.sound.open_of_running hrunning
  exact (h.safe r t hrunning).2.1

/-- The calls that begin to count were under way. -/
theorem Runs.counts (hruns : g.Runs) (hstep : Step g g') :
    ∃ calls, g'.counted = g.counted ++ calls ∧
      ∀ call ∈ calls, g.running call.r ≠ none := by
  have hunder : ∀ {r : Nat} {t : Running V Row}, g.running r = some t →
      ∀ call ∈ [t.call], g.running call.r ≠ none := by
    intro r t hrunning call hcall
    rw [List.mem_singleton.mp hcall, hruns.running_r hrunning, hrunning]
    exact Option.some_ne_none t
  have hsame : g.counted = g.counted ++ [] := (List.append_nil _).symm
  cases hstep with
  | runs r t c next hrunning hrest =>
      unfold ran
      dsimp only
      split
      · exact ⟨[t.call], rfl, hunder hrunning⟩
      · exact ⟨[], hsame, List.forall_mem_nil _⟩
  | ends r t ok hrunning hrest =>
      dsimp only
      split
      · exact ⟨[], hsame, List.forall_mem_nil _⟩
      · exact ⟨[t.call], rfl, hunder hrunning⟩
  | begins | checkpointed | reopens | replays | recovered =>
      exact ⟨[], hsame, List.forall_mem_nil _⟩

end LoggedStore

namespace KeyedStore

variable {shard : KeyMap.Key → Nat} {g g' : KeyedStore V Row}
  {pairs : List (KeyMap.Key × Nat)}

/-- What holds in every run: the calls that count, and those under way, work on the dense
ids of their callers. -/
structure Kept (shard : KeyMap.Key → Nat) (g : KeyedStore V Row)
    (pairs : List (KeyMap.Key × Nat)) : Prop where
  map : KeyMap.Inv shard g.keys pairs
  runs : g.store.Runs
  counted : g.named.map Prod.snd = g.store.counted
  named : ∀ item ∈ g.named, (encode item.1, item.2.r) ∈ pairs
  callers : ∀ r, g.store.running r ≠ none → (encode (g.callers r), r) ∈ pairs

theorem kept_new : Kept shard (new V Row) [] where
  map := KeyMap.inv_fresh shard
  runs := .new
  counted := rfl
  named := by rintro _ ⟨⟩
  callers := fun _ hrunning => absurd rfl hrunning

theorem resolveId_ok {id : PointId} {d : Nat} (hresolved : g.resolveId id = .ok d) :
    lookupKey g.keys.ids (encode id) = .found d := by
  unfold resolveId at hresolved
  split at hresolved
  · cases hresolved
  · split at hresolved
    · rename_i hfound
      rw [hfound, Resolution.ok.inj hresolved]
    · cases hresolved
    · cases hresolved

/-- A call that begins knows the dense id of its caller. -/
theorem Kept.resolved (hkept : g.Kept shard pairs) {id : PointId} {call : IdCall V Row}
    (hresolves : g.Resolves id call) : (encode id, call.r) ∈ pairs := by
  have hfound : g.resolveId id = .ok call.r → (encode id, call.r) ∈ pairs := fun hok =>
    hkept.map.stores.lookupKey_iff.mp (resolveId_ok hok)
  cases call with
  | payload call => exact hfound hresolves
  | write call =>
      cases call with
      | delete r => exact hfound hresolves
      | upsert kind write =>
          obtain ⟨-, t, hwriter⟩ := hresolves
          exact (hkept.map.writing t _ hwriter).2.2

theorem Kept.began (hkept : g.Kept shard pairs) {id : PointId} {call : IdCall V Row}
    (hopen : g.store.recovery = none) (hresolves : g.Resolves id call)
    (hfree : g.store.running call.r = none) : (g.began id call).Kept shard pairs where
  map := hkept.map
  runs := hkept.runs.step (.begins _ call hopen
    ((le_kMaxRealId_iff _).mpr (hkept.map.stores.real _ _ (hkept.resolved hresolves))) hfree)
  counted := hkept.counted
  named := hkept.named
  callers := by
    intro r hrunning
    change (encode (Function.update g.callers call.r id r), r) ∈ pairs
    rcases eq_or_ne r call.r with rfl | hne
    · rw [Function.update_self]
      exact hkept.resolved hresolves
    · rw [Function.update_of_ne hne]
      refine hkept.callers r ?_
      rwa [← Function.update_of_ne hne (some ⟨call, call.program, false⟩) g.store.running]

theorem Kept.moved (hkept : g.Kept shard pairs) {store : LoggedStore V Row}
    (hstep : LoggedStore.Step g.store store)
    (hbegan : ∀ r, g.store.running r = none → store.running r = none) :
    (g.moved store).Kept shard pairs := by
  obtain ⟨calls, hcounted, hunder⟩ := hkept.runs.counts hstep
  have hnamed : (g.moved store).named =
      g.named ++ calls.map fun call => (g.callers call.r, call) := by
    unfold KeyedStore.moved
    rw [hcounted, List.drop_left]
  refine ⟨hkept.map, hkept.runs.step hstep, ?_, fun item hitem => ?_, fun r hrunning =>
    hkept.callers r fun hnone => hrunning (hbegan r hnone)⟩
  · rw [hnamed, List.map_append, List.map_map, hkept.counted]
    change _ ++ calls.map id = store.counted
    rw [List.map_id, hcounted]
  · rw [hnamed] at hitem
    rcases List.mem_append.mp hitem with hold | hnew
    · exact hkept.named item hold
    · obtain ⟨call, hcall, rfl⟩ := List.mem_map.mp hnew
      exact hkept.callers call.r (hunder call hcall)

theorem Kept.step (hkept : g.Kept shard pairs) (hstep : Step shard g g') :
    ∃ pairs', g'.Kept shard pairs' := by
  cases hstep with
  | keys keys hstep hbulk =>
      obtain ⟨pairs', hmap, hsub⟩ := hkept.map.step hstep
      exact ⟨pairs', hmap, hkept.runs, hkept.counted,
        fun item hitem => hsub _ (hkept.named item hitem),
        fun r hrunning => hsub _ (hkept.callers r hrunning)⟩
  | begins id call hopened hopen hresolves hfree =>
      exact ⟨pairs, hkept.began hopen hresolves hfree⟩
  | moves store hstep hbegan => exact ⟨pairs, hkept.moved hstep hbegan⟩

theorem Runs.kept (hruns : g.Runs shard) : ∃ pairs, g.Kept shard pairs := by
  induction hruns with
  | new => exact ⟨[], kept_new⟩
  | step _ hstep ih =>
      obtain ⟨pairs, hkept⟩ := ih
      exact hkept.step hstep

/-! What the callers find -/

/-- The calls of a point are those on its dense id. -/
theorem Kept.docNamed_eq (hkept : g.Kept shard pairs) {id : PointId} {d : Nat}
    (hmem : (encode id, d) ∈ pairs) : docNamed g.named id = docAfter g.store.counted d := by
  have hsame : ∀ item ∈ g.named, (item.1 = id) = (item.2.r = d) := by
    intro item hitem
    have hnamed := hkept.named item hitem
    refine propext ⟨?_, ?_⟩
    · rintro rfl
      exact hkept.map.stores.dense_unique hnamed hmem
    · rintro rfl
      exact encode_injective (hkept.map.stores.key_unique hnamed hmem)
  unfold docNamed docAfter
  rw [← hkept.counted, List.filter_map, List.foldl_map]
  congr 1
  refine List.filter_congr fun item hitem => ?_
  rw [Function.comp_apply]
  exact decide_eq_decide.mpr (iff_of_eq (hsame item hitem))

theorem Kept.docNamed_none (hkept : g.Kept shard pairs) {id : PointId}
    (hnone : ∀ d, (encode id, d) ∉ pairs) : docNamed g.named id = none := by
  have hempty : (g.named.filter fun item => item.1 = id) = [] := by
    rw [List.filter_eq_nil_iff]
    intro item hitem hid
    rw [decide_eq_true_eq] at hid
    exact hnone item.2.r (hid ▸ hkept.named item hitem)
  unfold docNamed
  rw [hempty]
  rfl

/-- A point is resolved to its dense id, or it is not in the map. -/
theorem Kept.resolveId_cases (hkept : g.Kept shard pairs) {id : PointId}
    (hid : tooLong id = false) :
    (∃ d, (encode id, d) ∈ pairs ∧ g.resolveId id = .ok d) ∨
      (∀ d, (encode id, d) ∉ pairs) ∧ g.resolveId id = .notFound := by
  unfold resolveId
  rw [hid]
  by_cases hmapped : ∃ d, (encode id, d) ∈ pairs
  · obtain ⟨d, hmem⟩ := hmapped
    refine .inl ⟨d, hmem, ?_⟩
    rw [hkept.map.stores.forward _ d hmem]
    rfl
  · have hnone : ∀ d, (encode id, d) ∉ pairs := fun d hmem => hmapped ⟨d, hmem⟩
    refine .inr ⟨hnone, ?_⟩
    rw [hkept.map.stores.absent _ hnone]
    rfl

/-- Whatever the writers of the map and the calls did, and whenever the process was killed:
`Get` and `GetPayload` find for a point what the calls that were made for it and count made
of it, and nothing of the calls for other points. -/
theorem finds_named (hruns : g.Runs shard) (hopen : g.store.recovery = none) {id : PointId}
    (hid : tooLong id = false)
    (hfree : ∀ d, lookupKey g.keys.ids (encode id) = .found d → g.store.running d = none) :
    g.get id = .ok ((docNamed g.named id).elim .notFound fun doc => .ok doc.1) ∧
      g.getPayload id = .ok ((docNamed g.named id).bind Prod.snd) := by
  obtain ⟨pairs, hkept⟩ := hruns.kept
  unfold get getPayload
  rcases hkept.resolveId_cases hid with ⟨d, hmem, hresolve⟩ | ⟨hnone, hresolve⟩
  · obtain ⟨owner₀, owner, tallies, h⟩ := hkept.runs.sound.opened_of hopen
    obtain ⟨hvector, hpayload⟩ := h.finds (hkept.map.stores.real _ d hmem)
      (hfree d (hkept.map.stores.forward _ d hmem))
    rw [hresolve, hkept.docNamed_eq hmem]
    exact ⟨congrArg PointReply.ok hvector, congrArg PointReply.ok hpayload⟩
  · rw [hresolve, hkept.docNamed_none hnone]
    exact ⟨rfl, rfl⟩

/-! A run with a kill -/

/-- One more step of what runs for the dense id `r`. -/
def ran (r : Nat) (g : KeyedStore V Row) : KeyedStore V Row := g.moved (g.store.stepped r)

theorem stepped_free (g : LoggedStore V Row) (r : Nat) {x : Nat} (hnone : g.running x = none) :
    (g.stepped r).running x = none := by
  have hne : ∀ {t : Running V Row}, g.running r = some t → x ≠ r := by
    rintro t hrunning rfl
    rw [hrunning] at hnone
    cases hnone
  unfold LoggedStore.stepped
  split
  · rename_i hrunning
    exact (Function.update_of_ne (hne hrunning) _ _).trans hnone
  · rename_i hrunning
    exact (Function.update_of_ne (hne hrunning) _ _).trans hnone
  · exact hnone

theorem Runs.ran (hruns : g.Runs shard) (r : Nat) : (ran r g).Runs shard := by
  have hmoves : LoggedStore.Step g.store (g.store.stepped r) → (KeyedStore.ran r g).Runs shard :=
    fun hstep => hruns.step (.moves g _ hstep fun _ => stepped_free g.store r)
  cases hrunning : g.store.running r with
  | none =>
      have hsame : g.store.stepped r = g.store := by
        unfold LoggedStore.stepped
        rw [hrunning]
      unfold KeyedStore.ran moved
      rw [hsame, List.drop_length, List.map_nil, List.append_nil]
      exact hruns
  | some t =>
      obtain ⟨call, rest, committed⟩ := t
      refine hmoves ?_
      unfold LoggedStore.stepped
      rw [hrunning]
      cases rest with
      | call c next => exact .runs g.store r _ c next hrunning rfl
      | done ok => exact .ends g.store r _ ok hrunning rfl

theorem Runs.ran_iterate (hruns : g.Runs shard) (r n : Nat) :
    ((KeyedStore.ran r)^[n] g).Runs shard := by
  induction n generalizing g with
  | zero => exact hruns
  | succ n ih => exact ih (hruns.ran r)

theorem ran_iterate_free (r n : Nat) {x : Nat} (hnone : g.store.running x = none) :
    ((ran r)^[n] g).store.running x = none := by
  induction n generalizing g with
  | zero => exact hnone
  | succ n ih => exact ih (stepped_free g.store r hnone)

/-- The store after a checkpoint. -/
def saved (g : KeyedStore V Row) : KeyedStore V Row :=
  { g with store := { g.store with
      checkpoint := g.store.st
      log := []
      checkpointLiveCount := g.store.liveCount } }

/-- The store killed and opened at a checkpoint that covers the log. -/
def reopened (g : KeyedStore V Row) : KeyedStore V Row :=
  { g with
    keys := { g.keys with
      nextDenseId := ((KeyMap.maxMappedId g.keys.ids).getD none).elim 0 (· + 1)
      writers := fun _ => none
      bulk := none
      stage := .opened }
    store := { g.store with
      st := { g.store.checkpoint with
        tables := g.store.checkpoint.tables.reload
        rows := g.store.st.rows }
      running := fun _ => none
      log := []
      recovery := none
      liveCount :=
        if 0 ≤ g.store.checkpointLiveCount then g.store.checkpointLiveCount else (0 : Nat) } }

theorem Runs.moved_same (hruns : g.Runs shard) {store : LoggedStore V Row}
    (hstep : LoggedStore.Step g.store store)
    (hbegan : ∀ r, g.store.running r = none → store.running r = none)
    (hcounted : store.counted = g.store.counted) : Runs shard { g with store := store } := by
  have hmoved := hruns.step (.moves g store hstep hbegan)
  unfold moved at hmoved
  rw [hcounted, List.drop_length, List.map_nil, List.append_nil] at hmoved
  exact hmoved

theorem Runs.saved (hruns : g.Runs shard) (hopen : g.store.recovery = none)
    (hidle : ∀ r, g.store.running r = none) : g.saved.Runs shard :=
  hruns.moved_same (.checkpointed _ hopen hidle) (fun _ hnone => hnone) rfl

theorem Runs.reopened (hruns : g.Runs shard) (hlog : g.store.log = []) {max : Option Nat}
    (hmax : KeyMap.maxMappedId g.keys.ids = some max) : g.reopened.Runs shard := by
  have hopened := ((hruns.step (.keys _ _ .kills rfl)).step
    (.keys _ _ (.opens max [] rfl hmax (List.nil_sublist _)) rfl)).step
    (.keys _ _ (.starts rfl) rfl)
  have hreopens := hopened.moved_same (.reopens _ { g.store.checkpoint with
    tables := g.store.checkpoint.tables.reload, rows := g.store.st.rows } [] 0 ⟨rfl, rfl, rfl⟩
    (by rw [hlog]; rfl)) (fun _ _ => rfl) rfl
  have hrecovered := hreopens.moved_same (.recovered _ rfl) (fun _ _ => rfl) rfl
  dsimp only at hrecovered
  rw [hlog] at hrecovered
  unfold KeyedStore.reopened
  rw [hmax]
  exact hrecovered

def insertSeven : IdCall Nat Bool := .write (.upsert .insert ⟨0, 5, some true, Journal.lone⟩)

/-- The point 7 is inserted under the dense id 0. -/
def inserted : KeyedStore Nat Bool :=
  (ran 0)^[11] ({ new Nat Bool with keys := KeyMap.sevenPut }.began (.int 7) insertSeven)

theorem inserted_runs : inserted.Runs fun _ => 0 := by
  have hlock : ∀ t' w held, (KeyMap.justOpened.setWriter 0
      (some (.waiting KeyMap.seven))).writers t' = some w → w.lockedKey = some held → 0 ≠ 0 := by
    intro t w held hw hheld
    rcases KeyMap.setWriter_some hw with ⟨-, heq⟩ | ⟨-, hnone⟩
    · cases heq
      cases hheld
    · cases hnone
  have hopened : Runs (fun _ => 0) { new Nat Bool with keys := KeyMap.justOpened } :=
    (Runs.new.step (.keys _ _ (.opens none [] rfl rfl (List.Sublist.refl _)) rfl)).step
      (.keys _ _ (.starts rfl) rfl)
  have hlocked := (hopened.step (.keys _ _ (.begins 0 (.int 7) rfl rfl rfl) rfl)).step
    (.keys _ _ (.locks 0 KeyMap.seven rfl hlock) rfl)
  have hmissing := hlocked.step (.keys _ _ (.misses 0 KeyMap.seven rfl rfl) rfl)
  have hallocated : Runs (fun _ => 0) { new Nat Bool with keys := KeyMap.sevenAllocated } :=
    hmissing.step (.keys _ _ (.allocates 0 KeyMap.seven rfl) rfl)
  have hput : Runs (fun _ => 0) { new Nat Bool with keys := KeyMap.sevenPut } :=
    hallocated.step (.keys _ _ (.puts 0 KeyMap.seven 0 rfl) rfl)
  exact (hput.step (.begins _ (.int 7) insertSeven rfl rfl ⟨rfl, 0, rfl⟩ rfl)).ran_iterate 0 11

theorem inserted_idle (r : Nat) : inserted.store.running r = none := by
  rcases eq_or_ne r 0 with rfl | hne
  · decide
  · exact ran_iterate_free 0 11 (Function.update_of_ne hne _ _)

/-- The insert is checkpointed and the process is killed. -/
def killedInsert : KeyedStore Nat Bool := inserted.saved.reopened

theorem killedInsert_runs : killedInsert.Runs fun _ => 0 := by
  have hmax : KeyMap.maxMappedId inserted.keys.ids = some (some 0) := by
    have hkeys : inserted.keys = KeyMap.sevenPut := by rfl
    rw [hkeys]
    decide
  exact (inserted_runs.saved (by rfl) inserted_idle).reopened rfl hmax

/-- The dense id 0 is not the point 0. -/
theorem finds_named_kill :
    killedInsert.get (.int 7) = .ok (GetResult.ok 5) ∧
      killedInsert.get (.int 0) = .ok GetResult.notFound := by
  have hnamed : docNamed killedInsert.named (.int 7) = some (5, some true) ∧
      docNamed killedInsert.named (.int 0) = none := by decide
  have hseven := @finds_named _ _ _ _ killedInsert_runs rfl (.int 7) rfl fun _ _ => rfl
  have hzero := @finds_named _ _ _ _ killedInsert_runs rfl (.int 0) rfl fun _ _ => rfl
  rw [hnamed.1] at hseven
  rw [hnamed.2] at hzero
  exact ⟨hseven.1, hzero.1⟩

end KeyedStore

end AsterVec.Dense

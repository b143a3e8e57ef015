import AsterVec.DenseGet
import AsterVec.DenseSearch

/-!
An unfiltered search among writers.  A hit is translated by the reverse map after its
tombstone check; while the map still has it, the id returned was alive during the
search.
-/

namespace AsterVec.Dense

open AsterVec.IdTypes
open AsterVec.Programs
open Prog

variable {V Row D : Type} [LinearOrder D]

/-! What the steps of writers keep -/

namespace Machine

variable {m m' : Machine V Row}

theorem vectors_of_step (hsound : m.Sound) (hstep : WriterStep m m') {i : Nat} {vector : V}
    (hvector : m.st.vectors i = some vector) : m'.st.vectors i = some vector := by
  cases hstep with
  | begins | ends => exact hvector
  | calls hwriter =>
      rename_i r c next
      obtain ⟨-, hallowed, -⟩ := hsound.safe r _ hwriter
      cases c with
      | storeVector j other =>
          have hne : i ≠ j := by
            rintro rfl
            obtain ⟨howned, hnone, -⟩ := hallowed
            rw [show (m.slice r).vectors i = m.st.vectors i from if_pos howned,
              hvector] at hnone
            cases hnone
          exact (Function.update_of_ne hne _ _).trans hvector
      | _ => exact hvector

theorem owner_of_step (hsound : m.Sound) (hstep : WriterStep m m') {i r : Nat}
    (howner : m.owner i = some r) : m'.owner i = some r := by
  cases hstep with
  | begins | ends => exact howner
  | calls hwriter =>
      rename_i x c next
      cases c with
      | allocateUpdateId =>
          have hne : i ≠ m.st.tables.nextUpdateInternalId := by
            rintro rfl
            rw [hsound.good.unused _ (Nat.le_refl _)] at howner
            cases howner
          exact (Function.update_of_ne hne _ _).trans howner
      | _ => exact howner

end Machine

/-- A search among writers, with the caller ids alive at some moment of it. -/
structure Searching (V Row : Type) where
  machine : Machine V Row
  alive : Nat → Prop

namespace Searching

def AliveNow (m : Machine V Row) (r : Nat) : Prop := r ≤ kMaxRealId ∧ (m.slice r).Alive r

def after (g : Searching V Row) (m : Machine V Row) : Searching V Row :=
  ⟨m, fun r => g.alive r ∨ AliveNow m r⟩

def reply (c : Call V Row) (g : Searching V Row) : Reply c := (exec c g.machine.st).1

/-- The runs of one search program among any writers; `Condition` is asked of every
call it makes.  A search changes nothing. -/
inductive Runs {α : Type} (Condition : Call V Row → Searching V Row → Bool)
    (search : Prog V Row α) : Searching V Row → Prog V Row α → Prop where
  | called {m : Machine V Row} (hsound : m.Sound) :
      Runs Condition search ⟨m, AliveNow m⟩ search
  | wrote {g : Searching V Row} {p : Prog V Row α} {m : Machine V Row}
      (hruns : Runs Condition search g p) (hstep : Machine.WriterStep g.machine m) :
      Runs Condition search (g.after m) p
  | searched {g : Searching V Row} {c : Call V Row} {follow : Reply c → Prog V Row α}
      (hruns : Runs Condition search g (.call c follow)) (hmeets : Condition c g = true) :
      Runs Condition search g (follow (g.reply c))

/-- An update id is translated while the reverse map has it. -/
def stillMapped : Call V Row → Searching V Row → Bool
  | .resolveReal i, g =>
      isDirectId i || (g.machine.st.tables.updatedInternalToReal.lookup i).isSome
  | _, _ => true

def Env (g g' : Searching V Row) : Prop :=
  ∃ m, Machine.WriterStep g.machine m ∧ g' = g.after m

def Step (Condition : Call V Row → Searching V Row → Bool) (c : Call V Row)
    (g : Searching V Row) (reply : Reply c) (g' : Searching V Row) : Prop :=
  Condition c g = true ∧ reply = g.reply c ∧ g' = g

/-- The machine is sound and `alive` knows the ids alive now. -/
def Current (g : Searching V Row) : Prop :=
  g.machine.Sound ∧ ∀ r, AliveNow g.machine r → g.alive r

def Located (i : Nat) (g : Searching V Row) : Prop :=
  (g.machine.st.vectors i).isSome = true

/-- The version is one of an id that was alive, once it has a reverse entry. -/
structure Checked (i : Nat) (g : Searching V Row) : Prop where
  located : Located i g
  direct : i < 2 ^ 63 → g.alive i
  mapped : ∀ r, g.machine.owner i = some r → (g.machine.slice r).reverse i ≠ none →
    g.alive r

theorem stable_current : Stable Env (@Current V Row) := by
  rintro g _ ⟨hsound, -⟩ ⟨m, hstep, rfl⟩
  exact ⟨hsound.step hstep, fun r hr => .inr hr⟩

theorem Located.env {i : Nat} {g g' : Searching V Row} (hlocated : Located i g)
    (hcurrent : g.Current) (henv : Env g g') : Located i g' := by
  obtain ⟨m, hstep, rfl⟩ := henv
  obtain ⟨vector, hvector⟩ := Option.isSome_iff_exists.mp hlocated
  unfold Located
  rw [show (g.after m).machine.st.vectors i = some vector from
    Machine.vectors_of_step hcurrent.1 hstep hvector]
  rfl

/-- A located update id has an owner. -/
theorem Located.owner {i : Nat} {g : Searching V Row} (hlocated : Located i g)
    (hcurrent : g.Current) (hupdate : 2 ^ 63 ≤ i) : ∃ r, g.machine.owner i = some r := by
  cases howner : g.machine.owner i with
  | some r => exact ⟨r, rfl⟩
  | none =>
      obtain ⟨-, hnone, -⟩ := hcurrent.1.good.untouched i hupdate howner
      unfold Located at hlocated
      rw [hnone] at hlocated
      cases hlocated

theorem Checked.env {i : Nat} {g g' : Searching V Row} (hchecked : Checked i g)
    (hcurrent : g.Current) (henv : Env g g') : Checked i g' := by
  have hlocated := hchecked.located.env hcurrent henv
  have hcurrent' := stable_current g g' hcurrent henv
  obtain ⟨m, hstep, rfl⟩ := henv
  refine ⟨hlocated, fun hi => .inl (hchecked.direct hi), ?_⟩
  intro r howner hreverse
  have hupdate := hcurrent'.1.good.owner_update i r howner
  have hr := hcurrent'.1.good.owner_real i r howner
  obtain ⟨r', howner'⟩ := hchecked.located.owner hcurrent hupdate
  have hsame : r' = r := by
    have hkept := Machine.owner_of_step hcurrent.1 hstep howner'
    change m.owner i = some r at howner
    rw [hkept] at howner
    exact Option.some.inj howner
  subst hsame
  have howns : (g.machine.slice r').owned i = true := owns_iff.mpr (.inr howner')
  have hmoves := hcurrent.1.moves hstep hr
  change (m.slice r').reverse i ≠ none at hreverse
  generalize hs' : m.slice r' = s' at hmoves hreverse
  cases hmoves with
  | same hsame =>
      rw [hsame.2.1] at hreverse
      exact .inl (hchecked.mapped r' howner' hreverse)
  | forgot => exact absurd ((hcurrent.1.inv r' hr).cleared i) hreverse
  | tombstoned | stored => exact .inl (hchecked.mapped r' howner' hreverse)
  | recorded j hallowed =>
      rcases eq_or_ne i j with rfl | hne
      · -- The version becomes current with this step.
        obtain ⟨-, -, -, hlive, -⟩ := hallowed
        refine .inr ⟨(le_kMaxRealId_iff r').mpr hr, ?_⟩
        rw [hs']
        refine ⟨hlive, ?_⟩
        change ((g.machine.slice r').vectors i).isSome = true
        rw [Getting.vectors_of_owned howns]
        exact hchecked.located
      · rw [Slice.record_reverse, if_neg hne] at hreverse
        exact absurd ((hcurrent.1.inv r' hr).cleared i) hreverse

/-- A located version that is not tombstoned belongs to an id that is alive, if it is
mapped. -/
theorem checked_of_live {i : Nat} {g : Searching V Row} (hcurrent : g.Current)
    (hlocated : Located i g) (hlive : g.machine.st.tables.isTombstoned i = false) :
    Checked i g := by
  obtain ⟨hsound, halive⟩ := hcurrent
  have hslice : ∀ r, (g.machine.slice r).owned i = true →
      (g.machine.slice r).tombstoned i = false ∧
        ((g.machine.slice r).vectors i).isSome = true := by
    intro r howned
    rw [Getting.vectors_of_owned howned]
    refine ⟨?_, hlocated⟩
    change (owns g.machine.owner r i && g.machine.st.tables.isTombstoned i) = false
    rw [hlive, Bool.and_false]
  refine ⟨hlocated, ?_, ?_⟩
  · intro hi
    have hinv := hsound.inv i hi
    obtain ⟨hdead, hvec⟩ := hslice i hinv.owned_self
    refine halive i ⟨(le_kMaxRealId_iff i).mpr hi, ?_⟩
    unfold Slice.Alive Slice.current
    cases hmap : (g.machine.slice i).mapping with
    | none => exact ⟨hdead, hvec⟩
    | some m => exact (hinv.alive m hmap hdead).symm
  · intro r howner hreverse
    have hr := hsound.good.owner_real i r howner
    obtain ⟨hdead, hvec⟩ := hslice r (owns_iff.mpr (.inr howner))
    obtain ⟨x, hx⟩ := Option.ne_none_iff_exists'.mp hreverse
    refine halive r ⟨(le_kMaxRealId_iff r).mpr hr, ?_⟩
    unfold Slice.Alive Slice.current
    rw [((hsound.inv r hr).reversed i x hx).2]
    exact ⟨hdead, hvec⟩

/-- What the translation of a checked hit gives. -/
theorem Checked.resolveReal {i : Nat} {g : Searching V Row} (hchecked : Checked i g)
    (hcurrent : g.Current) (hmeets : stillMapped (.resolveReal i) g = true) :
    (g.machine.st.tables.resolveReal i) ≤ kMaxRealId ∧
      g.alive (g.machine.st.tables.resolveReal i) := by
  unfold IdTables.resolveReal
  split
  · rename_i hdirect
    have hi := (isDirectId_iff i).mp hdirect
    exact ⟨(le_kMaxRealId_iff i).mpr hi, hchecked.direct hi⟩
  · rename_i hdirect
    have hupdate : 2 ^ 63 ≤ i := 
      (isDirectId_eq_false_iff i).mp (Bool.eq_false_iff.mpr hdirect)
    obtain ⟨r, howner⟩ := hchecked.located.owner hcurrent hupdate
    have hr := hcurrent.1.good.owner_real i r howner
    have hsome : (g.machine.st.tables.updatedInternalToReal.lookup i).isSome = true := by
      have hor : (isDirectId i ||
        (g.machine.st.tables.updatedInternalToReal.lookup i).isSome) = true := hmeets
      rw [Bool.or_eq_true] at hor
      exact hor.resolve_left hdirect
    obtain ⟨x, hx⟩ := Option.isSome_iff_exists.mp hsome
    have hreverse : (g.machine.slice r).reverse i = some x := by
      rw [← hx]
      exact if_pos (owns_iff.mpr (.inr howner))
    obtain ⟨rfl, -⟩ := (hcurrent.1.inv r hr).reversed i x hreverse
    rw [hx]
    exact ⟨(le_kMaxRealId_iff x).mpr hr,
      hchecked.mapped x howner (by rw [hreverse]; simp)⟩

/-! The programs of a search -/

/-- What the search knows: which ids it read, which passed the tombstone check and
which caller ids it has to return. -/
structure Facts (located checked ids : List Nat) (g : Searching V Row) : Prop where
  current : g.Current
  located : ∀ i ∈ located, Located i g
  checked : ∀ i ∈ checked, Checked i g
  alive : ∀ r ∈ ids, r ≤ kMaxRealId ∧ g.alive r

theorem stable_facts (located checked ids : List Nat) :
    Stable Env (@Facts V Row located checked ids) := by
  intro g g' hfacts henv
  refine ⟨stable_current g g' hfacts.current henv,
    fun i hi => (hfacts.located i hi).env hfacts.current henv,
    fun i hi => (hfacts.checked i hi).env hfacts.current henv, fun r hr => ?_⟩
  obtain ⟨hmax, halive⟩ := hfacts.alive r hr
  obtain ⟨m, -, rfl⟩ := henv
  exact ⟨hmax, .inl halive⟩

/-- Facts after a call that only reads. -/
theorem Facts.mono {located checked ids located' : List Nat} {g : Searching V Row}
    (hfacts : Facts located checked ids g) (hsub : ∀ i ∈ located', i ∈ located) :
    Facts located' checked ids g :=
  ⟨hfacts.current, fun i hi => hfacts.located i (hsub i hi), hfacts.checked, hfacts.alive⟩

abbrev SecureSearch {α : Type} (p : Prog V Row α) (Post : α → Searching V Row → Prop)
    (g : Searching V Row) : Prop :=
  Secure Env (Step stillMapped) p Post g

section Programs

variable {located checked ids : List Nat} {g : Searching V Row}

theorem secure_done {α : Type} {value : α} {Post : α → Searching V Row → Prop}
    (hfacts : Facts located checked ids g)
    (hpost : ∀ g, Facts located checked ids g → Post value g) :
    SecureSearch (pure value) Post g :=
  Secure.done _ (stable_facts located checked ids) hfacts hpost

theorem secure_call {α : Type} {c : Call V Row} {follow : Reply c → Prog V Row α}
    {Post : α → Searching V Row → Prop} (hfacts : Facts located checked ids g)
    (hnext : ∀ g, Facts located checked ids g → stillMapped c g = true →
      SecureSearch (follow (g.reply c)) Post g) :
    SecureSearch (perform c >>= follow) Post g := by
  apply Secure.perform _ (stable_facts located checked ids) hfacts
  rintro g reply g' hfacts ⟨hmeets, hreply, hsame⟩
  rw [hreply, hsame]
  exact hnext g hfacts hmeets

/-- A result that promises nothing. -/
theorem secure_trivial {α : Type} {value : α} {Post : α → Searching V Row → Prop}
    (g : Searching V Row) (hpost : ∀ g, Post value g) : SecureSearch (pure value) Post g :=
  Secure.done (fun _ => True) (fun _ _ _ _ => trivial) trivial fun g _ => hpost g

theorem secure_readAll (reads : List Nat) (hfacts : Facts located checked ids g) :
    SecureSearch (readAll reads) (fun vectors g => ∀ found, vectors = some found →
      Facts (found.map Prod.fst ++ located) checked ids g) g := by
  induction reads generalizing located g with
  | nil =>
      apply secure_done hfacts
      rintro g hfacts _ ⟨⟩
      exact hfacts
  | cons id reads ih =>
      unfold readAll
      apply secure_call (c := .readVector id) hfacts
      intro g hfacts _
      cases hread : g.reply (.readVector id) with
      | none => exact secure_done hfacts fun _ _ _ h => by cases h
      | some vector =>
          have hlocated : Located id g := by
            unfold Located
            rw [show g.machine.st.vectors id = some vector from hread]
            rfl
          have hmore : Facts (id :: located) checked ids g :=
            ⟨hfacts.current, List.forall_mem_cons.mpr ⟨hlocated, hfacts.located⟩,
              hfacts.checked, hfacts.alive⟩
          apply Secure.bind
          apply (ih hmore).mono
          intro rest g hrest
          cases rest with
          | none => exact secure_trivial g fun _ _ h => by cases h
          | some found =>
              apply secure_done (hrest found rfl)
              rintro g hfacts _ ⟨⟩
              refine ⟨hfacts.current, fun i hi => hfacts.located i ?_, hfacts.checked,
                hfacts.alive⟩
              simp only [List.map_cons, List.cons_append, List.mem_cons, List.mem_append]
                at hi ⊢
              tauto

/-- What is kept as near was so before or is a neighbor with its distance. -/
theorem mem_nearest_considerNeighbors {metric : Metric V D} {query : V} {efSearch : Nat}
    {neighbors : List (Nat × V)} {state : SearchState D} {x : D × Nat}
    (hx : x ∈ (neighbors.foldl (considerNeighbor metric query efSearch) state).nearest) :
    x ∈ state.nearest ∨
      ∃ neighbor ∈ neighbors, x = (metric.distance query neighbor.2, neighbor.1) := by
  induction neighbors generalizing state with
  | nil => exact .inl hx
  | cons first neighbors ih =>
      rcases ih hx with hmem | ⟨neighbor, hmem, rfl⟩
      · rcases mem_nearest_considerNeighbor hmem with hold | rfl
        · exact .inl hold
        · exact .inr ⟨first, List.mem_cons_self, rfl⟩
      · exact .inr ⟨neighbor, List.mem_cons_of_mem _ hmem, rfl⟩

variable {metric : Metric V D} {query : V} {efSearch : Nat}

theorem secure_searchLoop (fuel : Nat) {state : SearchState D}
    (hfacts : Facts (state.nearest.map Prod.snd) checked ids g) :
    SecureSearch (searchLoop metric query efSearch fuel state)
      (fun found g => ∀ state', found = .hits state' →
        Facts (state'.nearest.map Prod.snd) checked ids g) g := by
  induction fuel generalizing state g with
  | zero => exact secure_trivial g fun _ _ h => by cases h
  | succ fuel ih =>
      unfold searchLoop
      split
      · apply secure_done hfacts
        rintro g hfacts _ ⟨⟩
        exact hfacts
      · rename_i current _
        simp only
        split
        · apply secure_done hfacts
          rintro g hfacts _ ⟨⟩
          exact hfacts
        · apply secure_call (c := .getEdges current.2) hfacts
          intro g hfacts _
          apply Secure.bind
          apply (secure_readAll _ hfacts).mono
          intro vectors g hread
          cases vectors with
          | none => exact secure_trivial g fun _ _ h => by cases h
          | some vectors =>
              apply ih
              apply (hread vectors rfl).mono
              intro i hi
              obtain ⟨x, hx, rfl⟩ := List.mem_map.mp hi
              rcases mem_nearest_considerNeighbors hx with hmem | ⟨neighbor, hmem, rfl⟩
              · exact List.mem_append_right _ (List.mem_map_of_mem hmem)
              · exact List.mem_append_left _ (List.mem_map_of_mem hmem)

theorem secure_searchLayer (fuel entryPointId : Nat)
    (hfacts : Facts [] checked ids g) :
    SecureSearch (searchLayer metric query efSearch fuel entryPointId)
      (fun found g => ∀ hits, found = .hits hits →
        Facts (hits.map Prod.snd) checked ids g) g := by
  unfold searchLayer
  apply secure_call (c := .readVector entryPointId) hfacts
  intro g hfacts _
  cases hread : g.reply (.readVector entryPointId) with
  | none => exact secure_trivial g fun _ _ h => by cases h
  | some vector =>
      have hlocated : Located entryPointId g := by
        unfold Located
        rw [show g.machine.st.vectors entryPointId = some vector from hread]
        rfl
      apply Secure.bind
      let d := metric.distance query vector
      let start : SearchState D :=
        ⟨[entryPointId], [(d, entryPointId)], [(d, entryPointId)]⟩
      have hstart : Facts (start.nearest.map Prod.snd) checked ids g :=
        ⟨hfacts.current, List.forall_mem_singleton.mpr hlocated,
        hfacts.checked, hfacts.alive⟩
      apply (secure_searchLoop fuel hstart).mono
      intro found g hfound
      cases found with
      | hits state =>
          apply secure_done (hfound state rfl)
          rintro g hfacts _ ⟨⟩
          apply hfacts.mono
          intro i hi
          exact ((metric.sort_perm _).map Prod.snd).mem_iff.mp hi
      | invalidArgument | threw | exhausted =>
          exact secure_trivial g fun _ _ h => by cases h

omit [LinearOrder D] in
theorem secure_dropTombstoned (k : Nat) (filtered results : List (D × Nat))
    (hfacts : Facts (results.map Prod.snd) (filtered.map Prod.snd) ids g) :
    SecureSearch (dropTombstoned k filtered results)
      (fun kept g => Facts [] (kept.map Prod.snd) ids g) g := by
  induction results generalizing filtered g with
  | nil => exact secure_done hfacts fun g hfacts => hfacts
  | cons result results ih =>
      unfold dropTombstoned
      apply secure_call (c := .isTombstoned result.2) hfacts
      intro g hfacts _
      have hrest : ∀ i ∈ results.map Prod.snd, Located i g :=
        fun i hi => hfacts.located i (List.mem_cons_of_mem _ hi)
      cases hdead : g.reply (.isTombstoned result.2) with
      | true => exact ih filtered ⟨hfacts.current, hrest, hfacts.checked, hfacts.alive⟩
      | false =>
          have hchecked : ∀ i ∈ (filtered ++ [result]).map Prod.snd, Checked i g := by
            intro i hi
            rw [List.map_append, List.mem_append] at hi
            rcases hi with hi | hi
            · exact hfacts.checked i hi
            · obtain rfl := List.mem_singleton.mp hi
              exact checked_of_live hfacts.current
                (hfacts.located _ List.mem_cons_self) hdead
          change SecureSearch (if _ then _ else _) _ g
          split
          · have hdone : Facts [] _ ids g := ⟨hfacts.current,
              fun _ hi => absurd hi List.not_mem_nil, hchecked, hfacts.alive⟩
            exact secure_done hdone fun g hfacts => hfacts
          · exact ih (filtered ++ [result])
              ⟨hfacts.current, hrest, hchecked, hfacts.alive⟩

theorem secure_knnSearchK (descent : Nat → Nat) (fuel : Nat) (k efSearch : Int)
    (hfacts : Facts [] [] ids g) :
    SecureSearch (knnSearchK metric descent fuel query k efSearch)
      (fun found g => ∀ hits, found = .hits hits →
        Facts [] (hits.map Prod.snd) ids g) g := by
  unfold knnSearchK
  apply secure_call (c := .loadEntryPoint) hfacts
  intro g hfacts _
  cases hentry : g.reply .loadEntryPoint with
  | none =>
      apply secure_done hfacts
      rintro g hfacts _ ⟨⟩
      exact hfacts
  | some ep =>
      apply Secure.bind
      apply (secure_searchLayer fuel (descent ep) hfacts).mono
      intro found g hfound
      cases found with
      | hits results =>
          apply Secure.bind
          apply (secure_dropTombstoned k.toNat [] results (hfound results rfl)).mono
          intro filtered g hfacts
          apply secure_done hfacts
          rintro g hfacts _ ⟨⟩
          exact hfacts
      | invalidArgument | threw | exhausted =>
          exact secure_trivial g fun _ _ h => by cases h

omit [LinearOrder D] in
theorem secure_translate (limit : Option Nat) (out results : List (D × Nat))
    (hfacts : Facts [] (results.map Prod.snd) (out.map Prod.snd) g) :
    SecureSearch (translate limit out results)
      (fun hits g => Facts [] [] (hits.map Prod.snd) g) g := by
  induction results generalizing out g with
  | nil => exact secure_done hfacts fun g hfacts => hfacts
  | cons result results ih =>
      unfold translate
      apply secure_call (c := .isTombstoned result.2) hfacts
      intro g hfacts _
      have hrest : ∀ {g : Searching V Row}, (∀ i ∈ (result :: results).map Prod.snd,
          Checked i g) → ∀ i ∈ results.map Prod.snd, Checked i g :=
        fun hchecked i hi => hchecked i (List.mem_cons_of_mem _ hi)
      cases hdead : g.reply (.isTombstoned result.2) with
      | true => exact ih out ⟨hfacts.current, hfacts.located, hrest hfacts.checked, hfacts.alive⟩
      | false =>
          apply secure_call (c := .resolveReal result.2) hfacts
          intro g hfacts hmeets
          have hresolved := (hfacts.checked _ List.mem_cons_self).resolveReal
            hfacts.current hmeets
          have halive : ∀ r ∈ (out ++ [(result.1, show Nat from g.reply (.resolveReal result.2))]).map
              Prod.snd, r ≤ kMaxRealId ∧ g.alive r := by
            intro r hr
            rw [List.map_append, List.mem_append] at hr
            rcases hr with hr | hr
            · exact hfacts.alive r hr
            · obtain rfl := List.mem_singleton.mp hr
              exact hresolved
          split
          · have hdone : Facts [] [] _ g := ⟨hfacts.current, hfacts.located,
              fun _ hi => absurd hi List.not_mem_nil, halive⟩
            exact secure_done hdone fun g hfacts => hfacts
          · exact ih _ ⟨hfacts.current, hfacts.located, hrest hfacts.checked, halive⟩

theorem secure_searchUnfilteredDense (descent : Nat → Nat) (fuel : Nat) (k efSearch : Int)
    (hfacts : Facts [] [] [] g) :
    SecureSearch (searchUnfilteredDense metric descent fuel query k efSearch)
      (fun found g => ∀ hits, found = .hits hits →
        ∀ hit ∈ hits, hit.2 ≤ kMaxRealId ∧ g.alive hit.2) g := by
  unfold searchUnfilteredDense
  split
  · exact secure_trivial g fun _ _ h => by cases h
  · apply Secure.bind
    apply (secure_knnSearchK descent fuel k efSearch hfacts).mono
    intro found g hfound
    cases found with
    | hits results =>
        apply Secure.bind
        apply (secure_translate (some k.toNat) [] results (hfound results rfl)).mono
        intro out g hfacts
        apply secure_done hfacts
        rintro g hfacts _ ⟨⟩ hit hmem
        exact hfacts.alive _ (List.mem_map_of_mem hmem)
    | invalidArgument | threw | exhausted =>
        exact secure_trivial g fun _ _ h => by cases h

end Programs

theorem Runs.secure {descent : Nat → Nat} {metric : Metric V D} {query : V} {fuel : Nat}
    {k efSearch : Int} {g : Searching V Row}
    {p : Prog V Row (SearchEnd (List (D × Nat)))}
    (hruns : Runs stillMapped
      (searchUnfilteredDense metric descent fuel query k efSearch) g p) :
    SecureSearch p (fun found g => ∀ hits, found = .hits hits →
      ∀ hit ∈ hits, hit.2 ≤ kMaxRealId ∧ g.alive hit.2) g := by
  induction hruns with
  | called hsound =>
      apply secure_searchUnfilteredDense
      exact ⟨⟨hsound, fun _ halive => halive⟩, by simp, by simp, by simp⟩
  | wrote _ hstep ih => exact ih.env ⟨_, hstep, rfl⟩
  | searched _ hmeets ih => exact ih.step ⟨hmeets, rfl, rfl⟩

/-- One turn: `none` for the search, else one of a writer. -/
def turn {α : Type} (Condition : Call V Row → Searching V Row → Bool)
    (now : Searching V Row × Prog V Row α) :
    Option (Turn V Row) → Option (Searching V Row × Prog V Row α)
  | some turn => (now.1.machine.turn turn).map fun m => (now.1.after m, now.2)
  | none =>
      match now.2 with
      | .done _ => none
      | .call c follow =>
          if Condition c now.1 then some (now.1, follow (now.1.reply c)) else none

theorem Runs.turns {α : Type} {Condition : Call V Row → Searching V Row → Bool}
    {search : Prog V Row α} {now now' : Searching V Row × Prog V Row α}
    (hruns : Runs Condition search now.1 now.2) {turns : List (Option (Turn V Row))}
    (hturns : turns.foldlM (turn Condition) now = some now') :
    Runs Condition search now'.1 now'.2 := by
  induction turns generalizing now with
  | nil =>
      cases hturns
      exact hruns
  | cons first turns ih =>
      obtain ⟨next, hturn, hrest⟩ := Option.bind_eq_some_iff.mp hturns
      refine ih ?_ hrest
      obtain ⟨g, p⟩ := now
      cases first with
      | some step =>
          obtain ⟨m, hm, rfl⟩ := Option.map_eq_some_iff.mp hturn
          exact .wrote hruns (Machine.writerStep_turn hm)
      | none =>
          unfold Searching.turn at hturn
          simp only at hturn
          split at hturn
          · cases hturn
          · split at hturn
            · rename_i hmeets
              cases hturn
              exact .searched hruns hmeets
            · cases hturn

end Searching

/-! One id, searched -/

/-- A write of id 0 whose node is linked to the first one. -/
def linkZero (vector : Nat) : Write Nat Unit := ⟨0, vector, none, ⟨[0], [], false, false⟩⟩

/-- The id is inserted and updated, and its versions are linked. -/
def linkedTwice : Option (Machine Nat Unit) :=
  (Machine.empty Nat Unit).turns
    (.begins (.upsert .insert (writeZero 10)) :: List.replicate 8 (.writer 0) ++
      .begins (.upsert .update (linkZero 20)) :: List.replicate 14 (.writer 0))

def linkedVersions : Machine Nat Unit := linkedTwice.get (by decide +kernel)

theorem linkedTwice_eq : linkedTwice = some linkedVersions := (Option.some_get _).symm

theorem sound_linkedVersions : linkedVersions.Sound :=
  Machine.sound_empty.turns linkedTwice_eq

/-- The call of a search near 20. -/
def searchZero : Searching Nat Unit × Prog Nat Unit (SearchEnd (List (Nat × Nat))) :=
  (⟨linkedVersions, Searching.AliveNow linkedVersions⟩,
    searchUnfilteredDense onLine id 3 20 1 1)

/-- Nothing else happens during the call. -/
def quietSearch :
    Option (Searching Nat Unit × Prog Nat Unit (SearchEnd (List (Nat × Nat)))) :=
  (List.replicate 8 none).foldlM (Searching.turn Searching.stillMapped) searchZero

def quietSearchEnd : Searching Nat Unit × Prog Nat Unit (SearchEnd (List (Nat × Nat))) :=
  quietSearch.get (by decide +kernel)

theorem quietSearch_eq : quietSearch = some quietSearchEnd := (Option.some_get _).symm

theorem quietSearch_result : quietSearchEnd.2 = .done (.hits [(0, 0)]) :=
  Program.eq_done_of_result? (by decide +kernel)

/-- The id is updated once its hit has passed the tombstone checks. -/
def raceWithUpdate :
    Option (Searching Nat Unit × Prog Nat Unit (SearchEnd (List (Nat × Nat)))) :=
  (List.replicate 7 none ++ some (Turn.begins (.upsert .update (linkZero 30))) ::
    List.replicate 10 (some (Turn.writer 0)) ++ [none]).foldlM
    (Searching.turn fun _ _ => true) searchZero

def unmappedEnd : Searching Nat Unit × Prog Nat Unit (SearchEnd (List (Nat × Nat))) :=
  raceWithUpdate.get (by decide +kernel)

theorem raceWithUpdate_eq : raceWithUpdate = some unmappedEnd := (Option.some_get _).symm

theorem unmappedEnd_result : unmappedEnd.2 = .done (.hits [(0, 2 ^ 63)]) :=
  Program.eq_done_of_result? (by decide +kernel)

end AsterVec.Dense

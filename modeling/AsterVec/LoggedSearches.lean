import AsterVec.DenseHits
import AsterVec.DenseLifetimes
import AsterVec.NothingLost
import Mathlib.Data.Set.Finite.Basic

/-!
Searches in a store whose process was killed.  The graph has a log of its own: after a kill
its edges can lead to nodes whose vectors are gone.
-/

namespace AsterVec.Dense

open AsterVec.IdTypes
open AsterVec.Programs
open Prog

variable {V Row D α : Type} {st : State V Row}

namespace State

/-- The edges as `getEdgesCached` returns them, without those to nodes that have no
vector. -/
def dropUnlocatable (st : State V Row) : State V Row :=
  { st with edges := fun i => (st.edges i).filter fun n => (st.vectors n).isSome }

def rootless (st : State V Row) : State V Row := { st with entryPoint := none }

end State

/-! A walk -/

/-- A walk does not ask for the entry point. -/
theorem run_walk {p : Prog V Row α} (hwalk : p.All IsWalk) (st : State V Row) :
    (p.run exec st.rootless).1 = (p.run exec st).1 ∧ (p.run exec st).2 = st := by
  induction p with
  | done value => exact ⟨rfl, rfl⟩
  | call c next ih =>
      have hreply : (exec c st.rootless).1 = (exec c st).1 ∧
          (exec c st.rootless).2 = st.rootless ∧ (exec c st).2 = st := by
        cases c with
        | resolveReal | isTombstoned | readVector | getRow | getEdges => exact ⟨rfl, rfl, rfl⟩
        | _ => exact hwalk.1.elim
      obtain ⟨hsame, hrootless, hst⟩ := hreply
      change ((next (exec c st.rootless).1).run exec (exec c st.rootless).2).1 =
          ((next (exec c st).1).run exec (exec c st).2).1 ∧
        ((next (exec c st).1).run exec (exec c st).2).2 = st
      rw [hsame, hrootless, hst]
      exact ih _ (hwalk.2 _)

theorem Reads.of_rootless {p : Prog V Row α} {Post : α → Prop}
    (hreads : Reads st.rootless p Post) (hwalk : p.All IsWalk) : Reads st p Post := by
  obtain ⟨hsame, hst⟩ := run_walk hwalk st
  refine ⟨hst, ?_⟩
  rw [← hsame]
  exact hreads.2

theorem all_readAll (ids : List Nat) : (readAll ids : Prog V Row _).All IsWalk := by
  induction ids with
  | nil => exact trivial
  | cons id ids ih =>
      unfold readAll
      refine ⟨trivial, fun vector => ?_⟩
      cases vector with
      | none => exact trivial
      | some vector => exact ih.bind fun rest => trivial

variable [LinearOrder D] {metric : Metric V D} {query : V}

theorem all_searchLoop (efSearch fuel : Nat) (state : SearchState D) :
    (searchLoop metric query efSearch fuel state : Prog V Row _).All IsWalk := by
  induction fuel generalizing state with
  | zero => exact trivial
  | succ fuel ih =>
      unfold searchLoop
      split
      · exact trivial
      · dsimp only
        split
        · exact trivial
        · refine ⟨trivial, fun neighborList => (all_readAll _).bind fun vectors => ?_⟩
          cases vectors with
          | none => exact trivial
          | some vectors => exact ih _

theorem all_searchLayer (efSearch fuel entryPointId : Nat) :
    (searchLayer metric query efSearch fuel entryPointId : Prog V Row _).All IsWalk := by
  refine ⟨trivial, fun entry => ?_⟩
  cases entry with
  | none => exact trivial
  | some vector => exact (all_searchLoop ..).bind fun found => trivial

/-! The hits -/

/-- Without unlocatable neighbors the nodes are linked, but for the entry point. -/
theorem linked_rootless (hfinite : {i | Located st i}.Finite) :
    Linked st.dropUnlocatable.rootless where
  finite := hfinite
  edges := fun _ _ hmem => (List.mem_filter.mp hmem).2
  entry := by rintro _ ⟨⟩

/-- The results are those of a store with the same vectors and rows. -/
theorem SoundResults.of_rootless {Accepts : Option Row → Prop} {results : List (D × Nat)}
    (hsound : SoundResults metric query st.dropUnlocatable.rootless Accepts results) :
    SoundResults metric query st Accepts results :=
  ⟨hsound.sorted, hsound.distinct, hsound.read, hsound.accepted⟩

theorem reads_walk (hfinite : {i | Located st i}.Finite) (efSearch fuel start : Nat) :
    Reads st.dropUnlocatable (searchLayer metric query efSearch fuel start) fun out =>
      (∀ results, out = .hits results →
        SoundResults metric query st (fun _ => True) results) ∧
        (Located st start → out ≠ .threw) ∧ out ≠ .invalidArgument ∧
        (hfinite.toFinset.card < fuel → out ≠ .exhausted) := by
  have hreads := reads_searchLayer (linked_rootless hfinite) metric query efSearch fuel start
  refine (hreads.of_rootless (all_searchLayer ..)).mono ?_
  rintro out ⟨hsound, hrest⟩
  exact ⟨fun results hout => (hsound results hout).of_rootless, hrest⟩

theorem reads_walkFiltered (hfinite : {i | Located st i}.Finite) {k : Nat} (hk : 0 < k)
    (filter : Filter Row) (maxScanCandidates : Int) (fuel start : Nat) :
    Reads st.dropUnlocatable
      (searchLayerFiltered metric query k filter maxScanCandidates fuel start) fun out =>
      (∀ scan, out = .hits scan → scan.results.length ≤ k ∧
        SoundResults metric query st (fun row => filter.matchesRow row = true)
          scan.results) ∧
        (Located st start → out ≠ .threw) ∧ out ≠ .invalidArgument ∧
        (hfinite.toFinset.card < fuel → out ≠ .exhausted) := by
  have hreads := @reads_searchLayerFiltered V Row D _ metric query k filter _ start
    (linked_rootless hfinite) hk maxScanCandidates fuel
  refine (hreads.of_rootless (all_searchLayerFiltered ..)).mono ?_
  rintro out ⟨hfound, hrest⟩
  refine ⟨fun scan hout => ?_, hrest⟩
  obtain ⟨-, hfound, hsorted⟩ := hfound scan hout
  exact ⟨hfound.room, hsorted, hfound.nodup, fun x hx => (hfound.results x hx).2.2,
    fun x hx => (hfound.results x hx).2.1⟩

variable {owner : Nat → Option Nat}

/-- Results that are not tombstoned are translated. -/
theorem reads_translated (hquiet : Quiet owner st) {Accepts : Option Row → Prop}
    {results : List (D × Nat)} (hsound : SoundResults metric query st Accepts results)
    (limit : Option Nat) {k : Nat} (hlength : results.length ≤ k) :
    Reads st.dropUnlocatable (translate limit [] results) fun hits =>
      SoundHits metric query k st Accepts hits := by
  apply (reads_translate_kept limit [] results).mono
  rintro _ ⟨kept, hsub, hlive, rfl⟩
  exact (hsound.sublist hsub).translated hquiet hlive (hsub.length_le.trans hlength)

theorem reads_unfiltered (hquiet : Quiet owner st) (hfinite : {i | Located st i}.Finite)
    (descent : Nat → Nat) {k : Int} (hk : 0 < k) (efSearch : Int) (fuel : Nat) :
    Reads st.dropUnlocatable (searchUnfilteredDense metric descent fuel query k efSearch)
      fun out =>
        (∀ hits, out = .hits hits → SoundHits metric query k.toNat st (fun _ => True) hits) ∧
        (DescentLocated st descent → hfinite.toFinset.card < fuel →
          ∃ hits, out = .hits hits) := by
  have hk' : 0 < k.toNat := by omega
  have hnone : SoundResults metric query st (fun _ => True) [] :=
    ⟨List.Pairwise.nil, List.nodup_nil, by rintro _ ⟨⟩, by rintro _ ⟨⟩⟩
  unfold searchUnfilteredDense
  rw [if_neg (not_le.mpr hk)]
  apply Reads.bind
  unfold knnSearchK
  apply Reads.call (c := .loadEntryPoint) rfl
  cases hentry : st.entryPoint with
  | none =>
      rw [show (exec .loadEntryPoint st.dropUnlocatable).1 = none from hentry]
      refine .done (.bind ?_)
      apply (reads_translated hquiet hnone _ (Nat.zero_le k.toNat)).mono
      intro hits hsound
      refine .done ⟨?_, fun _ _ => ⟨hits, rfl⟩⟩
      rintro _ ⟨⟩
      exact hsound
  | some ep =>
      rw [show (exec .loadEntryPoint st.dropUnlocatable).1 = some ep from hentry]
      apply Reads.bind
      apply (reads_walk hfinite _ fuel (descent ep)).mono
      rintro out ⟨hsound, hthrew, hvalid, hfuel⟩
      cases out with
      | hits results =>
          apply Reads.bind
          apply (reads_dropTombstoned [] results hk').mono
          rintro kept ⟨_, hkept, rfl, hlength⟩
          refine .done (.bind ?_)
          apply (reads_translated hquiet ((hsound results rfl).sublist hkept) _ hlength).mono
          intro hits hsound
          refine .done ⟨?_, fun _ _ => ⟨hits, rfl⟩⟩
          rintro _ ⟨⟩
          exact hsound
      | invalidArgument => exact absurd rfl hvalid
      | threw =>
          refine .done (.done ⟨by rintro _ ⟨⟩, fun hdescent => ?_⟩)
          exact absurd rfl (hthrew (hdescent ep hentry))
      | exhausted =>
          refine .done (.done ⟨by rintro _ ⟨⟩, fun _ henough => ?_⟩)
          exact absurd rfl (hfuel henough)

theorem reads_filtered (hquiet : Quiet owner st) (hfinite : {i | Located st i}.Finite)
    (descent : Nat → Nat) {k : Int} (hk : 0 < k) (filter : Filter Row)
    (maxScanCandidates : Int) (fuel : Nat) :
    Reads st.dropUnlocatable
      (searchDense metric descent fuel query k filter maxScanCandidates) fun out =>
        (∀ scan, out = .hits scan →
          SoundHits metric query k.toNat st (fun row => filter.matchesRow row = true)
            scan.results) ∧
        (DescentLocated st descent → hfinite.toFinset.card < fuel →
          ∃ scan, out = .hits scan) := by
  have hk' : 0 < k.toNat := by omega
  have hnone : SoundResults metric query st (fun row => filter.matchesRow row = true) [] :=
    ⟨List.Pairwise.nil, List.nodup_nil, by rintro _ ⟨⟩, by rintro _ ⟨⟩⟩
  unfold searchDense
  rw [if_neg (not_le.mpr hk)]
  apply Reads.bind
  unfold knnSearchKFiltered
  apply Reads.call (c := .loadEntryPoint) rfl
  cases hentry : st.entryPoint with
  | none =>
      rw [show (exec .loadEntryPoint st.dropUnlocatable).1 = none from hentry]
      refine .done (.bind ?_)
      apply (reads_translated hquiet hnone _ (Nat.zero_le k.toNat)).mono
      intro hits hsound
      refine .done ⟨?_, fun _ _ => ⟨_, rfl⟩⟩
      rintro _ ⟨⟩
      exact hsound
  | some ep =>
      rw [show (exec .loadEntryPoint st.dropUnlocatable).1 = some ep from hentry]
      apply (reads_walkFiltered hfinite hk' filter maxScanCandidates fuel (descent ep)).mono
      rintro out ⟨hsound, hthrew, hvalid, hfuel⟩
      cases out with
      | hits scan =>
          obtain ⟨hlength, hresults⟩ := hsound scan rfl
          apply Reads.bind
          apply (reads_translated hquiet hresults none hlength).mono
          intro hits hsound
          refine .done ⟨?_, fun _ _ => ⟨_, rfl⟩⟩
          rintro _ ⟨⟩
          exact hsound
      | invalidArgument => exact absurd rfl hvalid
      | threw =>
          refine .done ⟨by rintro _ ⟨⟩, fun hdescent => ?_⟩
          exact absurd rfl (hthrew (hdescent ep hentry))
      | exhausted =>
          refine .done ⟨by rintro _ ⟨⟩, fun _ henough => ?_⟩
          exact absurd rfl (hfuel henough)

namespace LoggedStore

variable {g : LoggedStore V Row} {tallies : Nat →₀ Int} {owner₀ : Nat → Option Nat}

/-- Only ids that were handed out have vectors. -/
theorem Open.finite_located (hopen : g.Open owner₀ owner tallies) :
    {i | Located g.st i}.Finite := by
  have hgood : Good owner g.st := hopen.tracked.good
  refine (Set.finite_lt_nat g.st.tables.nextUpdateInternalId).subset fun i hi => ?_
  by_contra hnext
  have hle := Nat.not_lt.mp hnext
  have hvacant := (hgood.untouched i (hgood.first.trans hle) (hgood.unused i hle)).2.1
  replace hi : (g.st.vectors i).isSome = true := hi
  rw [hvacant] at hi
  cases hi

/-- While no call is under way, the hits of a search, with a filter or without, are distinct
points that `GetVector` finds, in the order of their distances, whenever the process was
killed and wherever the edges lead.  A search that starts at a stored node ends. -/
theorem hits_after_kills (hruns : g.Runs) (hopen : g.recovery = none)
    (hidle : ∀ r, g.running r = none) (metric : Metric V D) (descent : Nat → Nat) (query : V)
    {k : Int} (hk : 0 < k) (efSearch maxScanCandidates : Int) :
    (∀ fuel hits,
      ((searchUnfilteredDense metric descent fuel query k efSearch).run exec
          g.st.dropUnlocatable).1 = .hits hits →
        SoundHits metric query k.toNat g.st (fun _ => True) hits) ∧
    (∀ filter fuel scan,
      ((searchDense metric descent fuel query k filter maxScanCandidates).run exec
          g.st.dropUnlocatable).1 = .hits scan →
        SoundHits metric query k.toNat g.st (fun row => filter.matchesRow row = true)
          scan.results) ∧
    (DescentLocated g.st descent → ∃ enough, ∀ fuel, enough < fuel →
      (∃ hits, ((searchUnfilteredDense metric descent fuel query k efSearch).run exec
        g.st.dropUnlocatable).1 = .hits hits) ∧
      ∀ filter, ∃ scan,
        ((searchDense metric descent fuel query k filter maxScanCandidates).run exec
          g.st.dropUnlocatable).1 = .hits scan) := by
  obtain ⟨owner₀, owner, tallies, h⟩ := hruns.sound.opened_of hopen
  have hquiet := h.quiet hidle
  have hfinite := h.finite_located
  have hplain := fun fuel => (@reads_unfiltered V Row D _ _ metric query _ hquiet hfinite
    descent _ hk efSearch fuel).2
  have hfiltered := fun filter fuel => (@reads_filtered V Row D _ _ metric query _ hquiet
    hfinite descent _ hk filter maxScanCandidates fuel).2
  refine ⟨fun fuel => (hplain fuel).1, fun filter fuel => (hfiltered filter fuel).1, ?_⟩
  intro hdescent
  refine ⟨hfinite.toFinset.card, fun fuel henough => ⟨?_, fun filter => ?_⟩⟩
  · exact (hplain fuel).2 hdescent henough
  · exact (hfiltered filter fuel).2 hdescent henough

/-- A node that is replayed is linked with the node 1. -/
def linkOne : Plan := ⟨[1], [], false, false⟩

/-- The process was killed in the middle of an update of the id 1. -/
theorem hits_after_kills_kill :
    ((searchUnfilteredDense onLine id 5 6 1 4).run exec
        (killedUpdate.opened linkOne).st.dropUnlocatable).1 = .hits [(0, 1)] ∧
      SoundHits onLine 6 1 (killedUpdate.opened linkOne).st (fun _ => True) [(0, 1)] := by
  have hhits : ((searchUnfilteredDense onLine id 5 6 1 4).run exec
      (killedUpdate.opened linkOne).st.dropUnlocatable).1 = .hits [(0, 1)] := by decide +kernel
  have hsound := hits_after_kills (killedUpdate_runs.opened linkOne) rfl (fun _ => rfl)
    onLine id 6 Int.one_pos 4 0
  exact ⟨hhits, hsound.1 5 _ hhits⟩

end LoggedStore

end AsterVec.Dense

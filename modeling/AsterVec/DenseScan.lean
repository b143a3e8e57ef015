import AsterVec.DenseFilter
import AsterVec.DenseReached
import Mathlib.Data.Set.Card

/-!
A filtered search over a store at rest.  The scan keeps what it has seen in one of its
lists; what it returns is counted against the reachable nodes.
-/

namespace AsterVec.Dense

open AsterVec.IdTypes
open AsterVec.Programs
open Prog

variable {V Row D α β : Type}

/-- The program changes nothing, and ends in the right way. -/
def Reads (st : State V Row) (p : Prog V Row α) (Post : α → Prop) : Prop :=
  (p.run exec st).2 = st ∧ Post (p.run exec st).1

namespace Reads

variable {st : State V Row}

theorem done {value : α} {Post : α → Prop} (hpost : Post value) :
    Reads st (pure value) Post := ⟨rfl, hpost⟩

theorem bind {p : Prog V Row α} {follow : α → Prog V Row β} {Post : β → Prop}
    (hreads : Reads st p fun value => Reads st (follow value) Post) :
    Reads st (p >>= follow) Post := by
  obtain ⟨hsame, hnext⟩ := hreads
  unfold Reads
  rw [Program.run_bind, hsame]
  exact hnext

theorem mono {p : Prog V Row α} {Post Post' : α → Prop} (hreads : Reads st p Post)
    (hpost : ∀ value, Post value → Post' value) : Reads st p Post' :=
  ⟨hreads.1, hpost _ hreads.2⟩

/-- The rule of a call that only reads. -/
theorem call {c : Call V Row} {follow : Reply c → Prog V Row α} {Post : α → Prop}
    (hsame : (exec c st).2 = st) (hnext : Reads st (follow (exec c st).1) Post) :
    Reads st (perform c >>= follow) Post := by
  unfold Reads at hnext ⊢
  change ((follow (exec c st).1).run exec (exec c st).2).2 = st ∧
    Post ((follow (exec c st).1).run exec (exec c st).2).1
  rw [hsame]
  exact hnext

end Reads

/-! The scan -/

/-- There is a path of layer-0 edges. -/
def Reachable (st : State V Row) (i j : Nat) : Prop :=
  Relation.ReflTransGen (fun a b => b ∈ st.edges a) i j

theorem Linked.located_of_reachable {st : State V Row} (hlinked : Linked st) {i j : Nat}
    (hi : Located st i) (hreachable : Reachable st i j) : Located st j := by
  cases hreachable with
  | refl => exact hi
  | tail _ hedge => exact hlinked.edges _ j hedge

/-- A search visits no more nodes than there are vectors. -/
theorem Linked.visited_length_le {st : State V Row} (hlinked : Linked st) {start : Nat}
    (hstart : Located st start) {visited : List Nat} (hdistinct : visited.Nodup)
    (hreached : ∀ i ∈ visited, Reachable st start i) :
    visited.length ≤ hlinked.finite.toFinset.card := by
  rw [← List.toFinset_card_of_nodup hdistinct]
  apply Finset.card_le_card
  intro i hi
  rw [Set.Finite.mem_toFinset]
  exact hlinked.located_of_reachable hstart (hreached i (List.mem_toFinset.mp hi))

section Scan

variable [LinearOrder D] {metric : Metric V D} {query : V} {k : Nat} {filter : Filter Row}
  {st : State V Row} {start : Nat}

/-- The node passes the filter. -/
def Matches (filter : Filter Row) (st : State V Row) (i : Nat) : Prop :=
  filter.matchesRow (st.rows i) = true

/-- What holds of the lists of a scan. -/
structure Scanned (metric : Metric V D) (query : V) (k : Nat) (filter : Filter Row)
    (st : State V Row) (start : Nat) (state : ScanState D) : Prop where
  distinct : state.visited.Nodup
  reached : ∀ i ∈ state.visited, Reachable st start i
  begun : start ∈ state.visited
  candidates : ∀ x ∈ state.candidates, x.2 ∈ state.visited
  room : state.results.length ≤ k
  results : ∀ x ∈ state.results, x.2 ∈ state.visited ∧ Matches filter st x.2 ∧
    ∃ vector, st.vectors x.2 = some vector ∧ x.1 = metric.distance query vector
  nodup : (state.results.map Prod.snd).Nodup

/-- Of what was visited, matches were kept and neighbors visited; for the nodes of
`waiting` this comes later. -/
structure Complete (filter : Filter Row) (st : State V Row) (waiting : Nat → Prop)
    (state : ScanState D) : Prop where
  closed : ∀ i ∈ state.visited, (∃ x ∈ state.candidates, x.2 = i) ∨ waiting i ∨
    ∀ j ∈ st.edges i, j ∈ state.visited
  found : ∀ i ∈ state.visited, Matches filter st i → ∃ x ∈ state.results, x.2 = i

/-- What the neighbors of a node add to the lists. -/
structure Advanced (k : Nat) (filter : Filter Row) (st : State V Row)
    (neighbors : List Nat) (state state' : ScanState D) : Prop where
  visited : ∀ i ∈ state.visited, i ∈ state'.visited
  neighbors : ∀ j ∈ neighbors, j ∈ state'.visited
  results : state.results.length ≤ state'.results.length
  shrinks : state'.candidates.length + state.visited.length ≤
    state.candidates.length + state'.visited.length
  complete : ∀ waiting, state'.results.length < k → Complete filter st waiting state →
    Complete filter st waiting state'

omit [LinearOrder D] in
theorem Advanced.refl (state : ScanState D) : Advanced k filter st [] state state :=
  ⟨fun _ h => h, fun _ h => absurd h List.not_mem_nil, le_refl _, le_refl _, fun _ _ h => h⟩

omit [LinearOrder D] in
theorem Advanced.trans {first rest : List Nat} {a b c : ScanState D}
    (hab : Advanced k filter st first a b) (hbc : Advanced k filter st rest b c) :
    Advanced k filter st (first ++ rest) a c where
  visited := fun i hi => hbc.visited i (hab.visited i hi)
  neighbors := by
    intro j hj
    rcases List.mem_append.mp hj with hfirst | hrest
    · exact hbc.visited j (hab.neighbors j hfirst)
    · exact hbc.neighbors j hrest
  results := hab.results.trans hbc.results
  shrinks := by
    have h₁ := hab.shrinks
    have h₂ := hbc.shrinks
    omega
  complete := fun waiting hroom hcomplete =>
    hbc.complete waiting hroom
      (hab.complete waiting (lt_of_le_of_lt hbc.results hroom) hcomplete)

section Visit

variable {state : ScanState D} {nb : Nat} {vector : V}

theorem Scanned.visit (hscanned : Scanned metric query k filter st start state)
    (hnew : nb ∉ state.visited) (hreachable : Reachable st start nb)
    (hvector : st.vectors nb = some vector) :
    Scanned metric query k filter st start
      (visitNeighbor metric query k filter state nb vector (st.rows nb)) where
  distinct := by
    refine List.nodup_append.mpr ⟨hscanned.distinct, List.nodup_singleton nb, ?_⟩
    rintro i hi _ hmem rfl
    exact hnew (List.mem_singleton.mp hmem ▸ hi)
  reached := by
    intro i hi
    rcases List.mem_append.mp hi with hold | hmem
    · exact hscanned.reached i hold
    · rw [List.mem_singleton.mp hmem]
      exact hreachable
  begun := List.mem_append_left _ hscanned.begun
  candidates := by
    intro x hx
    have hcase : x ∈ state.candidates ∨ x.2 = nb := by
      unfold visitNeighbor at hx
      simp only at hx
      split at hx
      · rcases List.mem_append.mp hx with hold | hmem
        · exact .inl hold
        · rw [List.mem_singleton.mp hmem]
          exact .inr rfl
      · exact .inl hx
    rcases hcase with hold | rfl
    · exact List.mem_append_left _ (hscanned.candidates x hold)
    · exact List.mem_append_right _ List.mem_cons_self
  room := by
    unfold visitNeighbor
    simp only
    split
    · rw [pushCapped_length hscanned.room]
      exact min_le_left _ _
    · exact hscanned.room
  results := by
    intro x hx
    unfold visitNeighbor at hx
    simp only at hx
    have hold : x ∈ state.results → x.2 ∈ state.visited ++ [nb] ∧ Matches filter st x.2 ∧
        ∃ vector, st.vectors x.2 = some vector ∧
          x.1 = metric.distance query vector := by
      intro hmem
      obtain ⟨hvisited, hrest⟩ := hscanned.results x hmem
      exact ⟨List.mem_append_left _ hvisited, hrest⟩
    split at hx
    · rename_i hadmitted
      rcases List.mem_append.mp (pushCapped_sublist.subset hx) with hmem | hmem
      · exact hold hmem
      · rw [List.mem_singleton.mp hmem]
        refine ⟨List.mem_append_right _ List.mem_cons_self, ?_, vector, hvector, rfl⟩
        exact (Bool.and_eq_true_iff.mp hadmitted).1
    · exact hold hx
  nodup := by
    unfold visitNeighbor
    simp only
    split
    · refine (pushCapped_sublist.map Prod.snd).nodup ?_
      rw [List.map_append]
      refine List.nodup_append.mpr ⟨hscanned.nodup, List.nodup_singleton _, ?_⟩
      rintro i hi _ hmem rfl
      obtain ⟨x, hx, rfl⟩ := List.mem_map.mp hi
      have hsame : x.2 = nb := List.mem_singleton.mp hmem
      exact hnew (hsame ▸ (hscanned.results x hx).1)
    · exact hscanned.nodup

theorem advanced_visit (hroom : state.results.length ≤ k) (nb : Nat) (vector : V) :
    Advanced k filter st [nb] state
      (visitNeighbor metric query k filter state nb vector (st.rows nb)) where
  visited := fun i hi => List.mem_append_left _ hi
  neighbors := fun j hj => List.mem_append_right _ hj
  results := by
    unfold visitNeighbor
    simp only
    split
    · rw [pushCapped_length hroom]
      exact le_min hroom (Nat.le_succ _)
    · exact le_refl _
  shrinks := by
    unfold visitNeighbor
    simp only
    split
    · simp only [List.length_append, List.length_singleton]
      omega
    · simp only [List.length_append, List.length_singleton]
      omega
  complete := by
    intro waiting hleft hcomplete
    have hbefore : state.results.length < k := by
      refine lt_of_le_of_lt ?_ hleft
      unfold visitNeighbor
      simp only
      split
      · rw [pushCapped_length hroom]
        exact le_min hroom (Nat.le_succ _)
      · exact le_refl _
    have hadmits := admits_of_room hbefore (metric.distance query vector)
    unfold visitNeighbor
    simp only [hadmits, if_true, Bool.and_true]
    constructor
    · intro i hi
      rcases List.mem_append.mp hi with hold | hmem
      · rcases hcomplete.closed i hold with ⟨x, hx, hxi⟩ | hwaits | hclosed
        · exact .inl ⟨x, List.mem_append_left _ hx, hxi⟩
        · exact .inr (.inl hwaits)
        · exact .inr (.inr fun j hj => List.mem_append_left _ (hclosed j hj))
      · rw [List.mem_singleton.mp hmem]
        exact .inl ⟨_, List.mem_append_right _ List.mem_cons_self, rfl⟩
    · intro i hi hmatches
      rcases List.mem_append.mp hi with hold | hmem
      · obtain ⟨x, hx, hxi⟩ := hcomplete.found i hold hmatches
        refine ⟨x, ?_, hxi⟩
        split
        · rw [pushCapped_of_room hbefore]
          exact List.mem_append_left _ hx
        · exact hx
      · have hi' := List.mem_singleton.mp hmem
        subst hi'
        refine ⟨(metric.distance query vector, i), ?_, rfl⟩
        change _ ∈ (if filter.matchesRow (st.rows i) = true then _ else _)
        rw [if_pos (show filter.matchesRow (st.rows i) = true from hmatches),
          pushCapped_of_room hbefore]
        exact List.mem_append_right _ List.mem_cons_self

end Visit

theorem reads_scanNeighbors (neighbors : List Nat) {state : ScanState D}
    (hscanned : Scanned metric query k filter st start state)
    (hreachable : ∀ j ∈ neighbors, Reachable st start j)
    (hlocated : ∀ j ∈ neighbors, Located st j) :
    Reads st (scanNeighbors metric query k filter neighbors state) fun out =>
      ∃ state', out = some state' ∧ Scanned metric query k filter st start state' ∧
        Advanced k filter st neighbors state state' := by
  induction neighbors generalizing state with
  | nil => exact .done ⟨state, rfl, hscanned, .refl state⟩
  | cons nb neighbors ih =>
      have hrestReach := fun j hj => hreachable j (List.mem_cons_of_mem _ hj)
      have hrestLocated := fun j hj => hlocated j (List.mem_cons_of_mem _ hj)
      unfold scanNeighbors
      split
      · rename_i hvisited
        apply (ih hscanned hrestReach hrestLocated).mono
        rintro out ⟨state', rfl, hscanned', hadvanced⟩
        refine ⟨state', rfl, hscanned', { hadvanced with neighbors := ?_ }⟩
        intro j hj
        rcases List.mem_cons.mp hj with rfl | hj
        · exact hadvanced.visited j (List.contains_iff_mem.mp hvisited)
        · exact hadvanced.neighbors j hj
      · rename_i hnew
        have hnew' : nb ∉ state.visited := fun hmem =>
          hnew (List.contains_iff_mem.mpr hmem)
        apply Reads.call (c := .readVector nb) rfl
        obtain ⟨vector, hvector⟩ :=
          Option.isSome_iff_exists.mp (hlocated nb List.mem_cons_self)
        rw [show (exec (.readVector nb) st).1 = some vector from hvector]
        apply Reads.call (c := .getRow nb) rfl
        have hvisit := hscanned.visit hnew' (hreachable nb List.mem_cons_self) hvector
        apply (ih hvisit hrestReach hrestLocated).mono
        rintro out ⟨state', rfl, hscanned', hadvanced⟩
        exact ⟨state', rfl, hscanned', (advanced_visit hscanned.room nb vector).trans hadvanced⟩

/-- What a scan has found. -/
structure Found (metric : Metric V D) (query : V) (k : Nat) (filter : Filter Row)
    (st : State V Row) (start : Nat) (scan : Scan D) : Prop where
  room : scan.results.length ≤ k
  results : ∀ x ∈ scan.results, Reachable st start x.2 ∧ Matches filter st x.2 ∧
    ∃ vector, st.vectors x.2 = some vector ∧ x.1 = metric.distance query vector
  nodup : (scan.results.map Prod.snd).Nodup
  complete : scan.capHit = false → scan.results.length < k → ∀ i, Reachable st start i →
    Matches filter st i → ∃ x ∈ scan.results, x.2 = i

theorem Scanned.found {state : ScanState D}
    (hscanned : Scanned metric query k filter st start state) {capHit : Bool}
    (hcomplete : capHit = false → state.results.length < k → ∀ i, Reachable st start i →
      Matches filter st i → ∃ x ∈ state.results, x.2 = i) :
    Found metric query k filter st start ⟨state.results, capHit⟩ where
  room := hscanned.room
  results := by
    intro x hx
    obtain ⟨hvisited, hrest⟩ := hscanned.results x hx
    exact ⟨hscanned.reached x.2 hvisited, hrest⟩
  nodup := hscanned.nodup
  complete := hcomplete

/-- Once no candidate is left, everything reachable was visited. -/
theorem Complete.reachable_visited {state : ScanState D}
    (hscanned : Scanned metric query k filter st start state)
    (hcomplete : Complete filter st (fun _ => False) state)
    (hnone : state.candidates = []) {i : Nat} (hreachable : Reachable st start i) :
    i ∈ state.visited := by
  induction hreachable with
  | refl => exact hscanned.begun
  | tail _ hedge ih =>
      rcases hcomplete.closed _ ih with ⟨x, hx, -⟩ | hwaits | hclosed
      · rw [hnone] at hx
        cases hx
      · exact hwaits.elim
      · exact hclosed _ hedge

/-- Taking a candidate leaves it to be expanded. -/
theorem Complete.take {state : ScanState D} {current : D × Nat}
    (hcomplete : Complete filter st (fun _ => False) state) :
    Complete filter st (fun i => i = current.2)
      { state with candidates := state.candidates.erase current } where
  closed := by
    intro i hi
    rcases hcomplete.closed i hi with ⟨x, hx, rfl⟩ | hwaits | hclosed
    · rcases eq_or_ne x current with rfl | hne
      · exact .inr (.inl rfl)
      · exact .inl ⟨x, (List.mem_erase_of_ne hne).mpr hx, rfl⟩
    · exact hwaits.elim
    · exact .inr (.inr hclosed)
  found := hcomplete.found

theorem reads_scanLoop (hlinked : Linked st) (hstart : Located st start) (maxScan fuel : Nat)
    {state : ScanState D} (hscanned : Scanned metric query k filter st start state)
    (hcomplete : state.results.length < k → Complete filter st (fun _ => False) state) :
    Reads st (scanLoop metric query k filter maxScan fuel state) fun out =>
      (∀ scan, out = .hits scan → Found metric query k filter st start scan) ∧
        out ≠ .threw ∧ out ≠ .invalidArgument ∧
        (state.candidates.length + hlinked.finite.toFinset.card <
          fuel + state.visited.length → out ≠ .exhausted) := by
  induction fuel generalizing state with
  | zero =>
      have hbound := hlinked.visited_length_le hstart hscanned.distinct hscanned.reached
      refine ⟨rfl, by rintro _ ⟨⟩, by rintro ⟨⟩, by rintro ⟨⟩, fun hfuel => ?_⟩
      omega
  | succ fuel ih =>
      unfold scanLoop
      cases htop : topOf nearer state.candidates with
      | none =>
          have hnone := topOf_eq_none htop
          refine .done ⟨?_, by rintro ⟨⟩, by rintro ⟨⟩, fun _ => by rintro ⟨⟩⟩
          rintro _ ⟨⟩
          apply hscanned.found
          intro _ hroom i hreachable hmatches
          have hvisited := (hcomplete hroom).reachable_visited hscanned hnone hreachable
          exact (hcomplete hroom).found i hvisited hmatches
      | some current =>
          have hcurrent := topOf_mem htop
          have htaken : Scanned metric query k filter st start
              { state with candidates := state.candidates.erase current } :=
            { hscanned with
              candidates := fun x hx => hscanned.candidates x (List.mem_of_mem_erase hx) }
          simp only
          split
          · rename_i hstop
            have hfull := of_decide_eq_true (Bool.and_eq_true_iff.mp hstop).1
            refine .done ⟨?_, by rintro ⟨⟩, by rintro ⟨⟩, fun _ => by rintro ⟨⟩⟩
            rintro _ ⟨⟩
            exact htaken.found fun _ hroom => absurd hroom (not_lt.mpr hfull)
          · split
            · refine .done ⟨?_, by rintro ⟨⟩, by rintro ⟨⟩, fun _ => by rintro ⟨⟩⟩
              rintro _ ⟨⟩
              exact htaken.found fun hcap => by cases hcap
            · apply Reads.call (c := .getEdges current.2) rfl
              have hreach := hscanned.reached _ (hscanned.candidates current hcurrent)
              have hneighbors : ∀ j ∈ st.edges current.2, Reachable st start j :=
                fun j hj => hreach.tail hj
              apply Reads.bind
              apply (reads_scanNeighbors (st.edges current.2) htaken hneighbors
                fun j hj => hlinked.edges _ j hj).mono
              rintro out ⟨state', rfl, hscanned', hadvanced⟩
              have hdone : state'.results.length < k →
                  Complete filter st (fun _ => False) state' := by
                intro hroom
                have hbefore := lt_of_le_of_lt hadvanced.results hroom
                have hwaiting := hadvanced.complete _ hroom (hcomplete hbefore).take
                refine ⟨fun i hi => ?_, hwaiting.found⟩
                rcases hwaiting.closed i hi with hopen | rfl | hclosed
                · exact .inl hopen
                · exact .inr (.inr hadvanced.neighbors)
                · exact .inr (.inr hclosed)
              apply (ih hscanned' hdone).mono
              rintro out ⟨hfound, hthrew, hvalid, hfuel⟩
              refine ⟨hfound, hthrew, hvalid, fun henough => hfuel ?_⟩
              have hshrinks := hadvanced.shrinks
              have herase := List.length_erase_of_mem hcurrent
              have hpositive := List.length_pos_of_mem hcurrent
              simp only [herase] at hshrinks
              omega

end Scan

end AsterVec.Dense

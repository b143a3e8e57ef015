import AsterVec.DenseScan

/-!
How many points a filtered search returns.  Tombstoned nodes have no row, so a filter
that accepts the empty object gives them result slots.
-/

namespace AsterVec.Dense

open AsterVec.IdTypes
open AsterVec.Programs
open Prog

variable {V Row D : Type} [LinearOrder D] {metric : Metric V D} {query : V} {k : Nat}
  {filter : Filter Row} {st : State V Row} {start : Nat}

/-- Sorting keeps what was found. -/
theorem Found.sort {scan : Scan D} (hfound : Found metric query k filter st start scan) :
    Found metric query k filter st start
      { scan with results := metric.sort scan.results } where
  room := by
    rw [show (metric.sort scan.results).length = scan.results.length from
      (metric.sort_perm _).length_eq]
    exact hfound.room
  results := fun x hx => hfound.results x ((metric.sort_perm _).mem_iff.mp hx)
  nodup := ((metric.sort_perm _).map Prod.snd).nodup_iff.mpr hfound.nodup
  complete := by
    intro hcap hroom i hreachable hmatches
    rw [show (metric.sort scan.results).length = scan.results.length from
      (metric.sort_perm _).length_eq] at hroom
    obtain ⟨x, hx, hxi⟩ := hfound.complete hcap hroom i hreachable hmatches
    exact ⟨x, (metric.sort_perm _).mem_iff.mpr hx, hxi⟩

/-- The lists a scan starts with. -/
theorem scanned_start (metric : Metric V D) (query : V) (filter : Filter Row)
    {vector : V} (hk : 0 < k) (hvector : st.vectors start = some vector) :
    let d := metric.distance query vector
    let state : ScanState D :=
      { visited := [start]
        candidates := [(d, start)]
        results := if filter.matchesRow (st.rows start) then [(d, start)] else []
        scanned := 0 }
    Scanned metric query k filter st start state ∧
      Complete filter st (fun _ => False) state := by
  intro d state
  have hresults : ∀ x ∈ state.results,
      x = (d, start) ∧ Matches filter st start := by
    intro x hx
    change x ∈ (if filter.matchesRow (st.rows start) then [(d, start)] else []) at hx
    split at hx
    · rename_i hmatches
      exact ⟨List.mem_singleton.mp hx, hmatches⟩
    · cases hx
  have hlength : state.results.length ≤ 1 := by
    change (if filter.matchesRow (st.rows start) then [(d, start)] else []).length ≤ 1
    split
    · exact le_refl _
    · exact Nat.zero_le _
  refine ⟨⟨List.nodup_singleton _, ?_, List.mem_cons_self, ?_, hlength.trans hk, ?_, ?_⟩,
    ⟨?_, ?_⟩⟩
  · intro i hi
    rw [List.mem_singleton.mp hi]
    exact .refl
  · intro x hx
    rw [List.mem_singleton.mp hx]
    exact List.mem_cons_self
  · intro x hx
    obtain ⟨rfl, hmatches⟩ := hresults x hx
    exact ⟨List.mem_cons_self, hmatches, vector, hvector, rfl⟩
  · change ((if filter.matchesRow (st.rows start) then [(d, start)] else []).map
      Prod.snd).Nodup
    split
    · exact List.nodup_singleton _
    · exact List.nodup_nil
  · intro i hi
    exact .inl ⟨(d, start), List.mem_cons_self, (List.mem_singleton.mp hi).symm⟩
  · intro i hi hmatches
    obtain rfl := List.mem_singleton.mp hi
    refine ⟨(d, i), ?_, rfl⟩
    change _ ∈ (if filter.matchesRow (st.rows i) then [(d, i)] else [])
    rw [if_pos (show filter.matchesRow (st.rows i) = true from hmatches)]
    exact List.mem_cons_self

theorem reads_searchLayerFiltered (hlinked : Linked st) (hk : 0 < k)
    (maxScanCandidates : Int) (fuel : Nat) :
    Reads st (searchLayerFiltered metric query k filter maxScanCandidates fuel start)
      fun out =>
        (∀ scan, out = .hits scan → Located st start ∧
          Found metric query k filter st start scan ∧
          scan.results.Pairwise fun a b => a.1 ≤ b.1) ∧
        (Located st start → out ≠ .threw) ∧ out ≠ .invalidArgument ∧
        (hlinked.finite.toFinset.card < fuel → out ≠ .exhausted) := by
  unfold searchLayerFiltered
  apply Reads.call (c := .readVector start) rfl
  cases hvector : st.vectors start with
  | none =>
      rw [show (exec (.readVector start) st).1 = none from hvector]
      refine ⟨rfl, ?_, ?_, ?_, ?_⟩
      · rintro _ ⟨⟩
      · intro hlocated
        unfold Located at hlocated
        rw [hvector] at hlocated
        cases hlocated
      · rintro ⟨⟩
      · rintro _ ⟨⟩
  | some vector =>
      rw [show (exec (.readVector start) st).1 = some vector from hvector]
      apply Reads.call (c := .getRow start) rfl
      have hlocated : Located st start := by
        unfold Located
        rw [hvector]
        rfl
      obtain ⟨hscanned, hcomplete⟩ := scanned_start metric query filter hk hvector
      apply Reads.bind
      apply (reads_scanLoop hlinked hlocated (scanCap k maxScanCandidates) fuel hscanned
        fun _ => hcomplete).mono
      rintro out ⟨hfound, hthrew, hvalid, hfuel⟩
      refine .done ⟨?_, ?_, ?_, ?_⟩
      · intro scan hscan
        cases out with
        | hits found =>
            cases hscan
            exact ⟨hlocated, (hfound found rfl).sort, metric.sort_sorted _⟩
        | invalidArgument | threw | exhausted => cases hscan
      · intro _
        cases out with
        | threw => exact absurd rfl hthrew
        | hits | invalidArgument | exhausted => rintro ⟨⟩
      · cases out with
        | invalidArgument => exact absurd rfl hvalid
        | hits | threw | exhausted => rintro ⟨⟩
      · intro henough
        have hnot := hfuel (by
          change 1 + _ < fuel + 1
          omega)
        cases out with
        | exhausted => exact absurd rfl hnot
        | hits | invalidArgument | threw => rintro ⟨⟩

/-- The hits of results that are not tombstoned. -/
def liveHits (st : State V Row) (results : List (D × Nat)) : List (D × Nat) :=
  (results.filter fun x => !st.tables.isTombstoned x.2).map fun x =>
    (x.1, st.tables.resolveReal x.2)

omit [LinearOrder D] in
theorem reads_translate (out results : List (D × Nat)) :
    Reads st (translate none out results) fun hits => hits = out ++ liveHits st results := by
  induction results generalizing out with
  | nil => exact .done (List.append_nil out).symm
  | cons result results ih =>
      unfold translate
      apply Reads.call (c := .isTombstoned result.2) rfl
      cases hdead : st.tables.isTombstoned result.2 with
      | true =>
          rw [show (exec (.isTombstoned result.2) st).1 = true from hdead]
          apply (ih out).mono
          rintro _ rfl
          unfold liveHits
          rw [List.filter_cons_of_neg (by simp [hdead])]
      | false =>
          rw [show (exec (.isTombstoned result.2) st).1 = false from hdead]
          apply Reads.call (c := .resolveReal result.2) rfl
          apply (ih _).mono
          rintro _ rfl
          unfold liveHits
          rw [List.filter_cons_of_pos (by simp [hdead]), List.map_cons, List.append_assoc]
          rfl

/-! Counting -/

/-- The nodes a scan can return, dead or alive. -/
def MatchingNodes (filter : Filter Row) (st : State V Row) (start : Nat) : Set Nat :=
  {i | Reachable st start i ∧ Matches filter st i}

/-- The caller ids a search should find. -/
def AliveMatches (filter : Filter Row) (st : State V Row) (start : Nat) : Set Nat :=
  {r | r ≤ kMaxRealId ∧ AliveIn st r ∧
    st.tables.resolveInternal r ∈ MatchingNodes filter st start}

/-- No tombstoned node competes for a result slot: none that is reachable passes the
filter, or there is a slot for everything that does. -/
def SlotsForAll (filter : Filter Row) (st : State V Row) (start k : Nat) : Prop :=
  (∀ i ∈ MatchingNodes filter st start, st.tables.isTombstoned i = false) ∨
    (MatchingNodes filter st start).ncard ≤ k

omit [LinearOrder D] in
theorem finite_matchingNodes (hlinked : Linked st) (hstart : Located st start) :
    (MatchingNodes filter st start).Finite :=
  hlinked.finite.subset fun _ hi => hlinked.located_of_reachable hstart hi.1

omit [LinearOrder D] in
/-- Matching ids that are alive are counted by their current versions. -/
theorem ncard_aliveMatches {owner : Nat → Option Nat} (hquiet : Quiet owner st)
    (hlinked : Linked st) (hstart : Located st start) :
    (AliveMatches filter st start).ncard =
      {i ∈ MatchingNodes filter st start | st.tables.isTombstoned i = false}.ncard := by
  have hback : ∀ r ∈ AliveMatches filter st start,
      st.tables.resolveReal (st.tables.resolveInternal r) = r := fun r hr =>
    hquiet.resolveReal_resolveInternal ((le_kMaxRealId_iff r).mp hr.1)
  have hinj : Set.InjOn st.tables.resolveInternal (AliveMatches filter st start) := by
    intro r hr r' hr' hsame
    rw [← hback r hr, hsame, hback r' hr']
  rw [← hinj.ncard_image]
  congr 1
  ext i
  constructor
  · rintro ⟨r, ⟨-, halive, hmatching⟩, rfl⟩
    exact ⟨hmatching, halive.1⟩
  · rintro ⟨hmatching, hlive⟩
    have hlocated := hlinked.located_of_reachable hstart hmatching.1
    obtain ⟨r, hr, rfl, halive⟩ := hquiet.version hlocated hlive
    exact ⟨r, ⟨(le_kMaxRealId_iff r).mpr hr, halive, hmatching⟩, rfl⟩

omit [LinearOrder D] in
theorem liveHits_length (results : List (D × Nat)) :
    (liveHits st results).length =
      ((results.map Prod.snd).filter fun i => !st.tables.isTombstoned i).length := by
  unfold liveHits
  rw [List.length_map, List.filter_map, List.length_map]
  rfl

omit [LinearOrder D] in
/-- A filter that rejects the empty object matches no tombstoned node. -/
theorem slotsForAll_of_rejects {owner : Nat → Option Nat} (hquiet : Quiet owner st)
    (hrejects : filter.pred filter.emptyObject = false) : SlotsForAll filter st start k := by
  refine .inl fun i hi => ?_
  have hmatches : filter.pred ((st.rows i).getD filter.emptyObject) = true := hi.2
  cases hrow : st.rows i with
  | none =>
      rw [hrow, Option.getD_none, hrejects] at hmatches
      cases hmatches
  | some row => exact hquiet.row_of_version (by rw [hrow]; rfl)

/-- A scan that did not stop at its cap finds as many ids as it should. -/
theorem Found.liveHits_count {owner : Nat → Option Nat} {scan : Scan D}
    (hquiet : Quiet owner st) (hlinked : Linked st) (hstart : Located st start)
    (hfound : Found metric query k filter st start scan) (hcap : scan.capHit = false)
    (hslots : SlotsForAll filter st start k) :
    (liveHits st scan.results).length = min k (AliveMatches filter st start).ncard := by
  have hfinite : (MatchingNodes filter st start).Finite :=
    finite_matchingNodes hlinked hstart
  let live := (scan.results.map Prod.snd).filter fun i => !st.tables.isTombstoned i
  let alive := {i ∈ MatchingNodes filter st start | st.tables.isTombstoned i = false}
  rw [liveHits_length, ncard_aliveMatches hquiet hlinked hstart]
  change live.length = min k alive.ncard
  have hids : ∀ i ∈ scan.results.map Prod.snd, i ∈ MatchingNodes filter st start := by
    intro i hi
    obtain ⟨x, hx, rfl⟩ := List.mem_map.mp hi
    obtain ⟨hreachable, hmatches, -⟩ := hfound.results x hx
    exact ⟨hreachable, hmatches⟩
  have hlive : ∀ i, i ∈ live ↔ i ∈ scan.results.map Prod.snd ∧
      st.tables.isTombstoned i = false := by
    intro i
    rw [List.mem_filter, Bool.not_eq_true']
  have hsubset : {i | i ∈ live} ⊆ alive := fun i hi =>
    ⟨hids i ((hlive i).mp hi).1, ((hlive i).mp hi).2⟩
  have hcount : {i | i ∈ live}.ncard = live.length := by
    rw [← List.coe_toFinset, Set.ncard_coe_finset,
      List.toFinset_card_of_nodup (hfound.nodup.filter _)]
  have hlength : live.length ≤ scan.results.length := by
    refine (List.length_filter_le _ _).trans ?_
    rw [List.length_map]
  -- When every match was kept, so was every one that is alive.
  have hall : (∀ i ∈ MatchingNodes filter st start, i ∈ scan.results.map Prod.snd) →
      live.length = min k alive.ncard := by
    intro hkept
    have heq : {i | i ∈ live} = alive := by
      apply Set.Subset.antisymm hsubset
      exact fun i hi => (hlive i).mpr ⟨hkept i hi.1, hi.2⟩
    rw [← hcount, heq, min_eq_right]
    rw [← heq, hcount]
    exact hlength.trans hfound.room
  rcases Nat.lt_or_eq_of_le hfound.room with hroom | hfull
  · apply hall
    rintro i ⟨hreachable, hmatches⟩
    obtain ⟨x, hx, rfl⟩ := hfound.complete hcap hroom i hreachable hmatches
    exact List.mem_map_of_mem hx
  · rcases hslots with hnoneDead | hfew
    · have hevery : live = scan.results.map Prod.snd := by
        rw [List.filter_eq_self]
        intro i hi
        rw [hnoneDead i (hids i hi)]
        rfl
      have hle : live.length ≤ alive.ncard := by
        rw [← hcount]
        exact Set.ncard_le_ncard hsubset (hfinite.subset fun _ hi => hi.1)
      rw [min_eq_left]
      · rw [hevery, List.length_map, hfull]
      · rw [hevery, List.length_map, hfull] at hle
        exact hle
    · apply hall
      have hidsCount : {i | i ∈ scan.results.map Prod.snd}.ncard = k := by
        rw [← List.coe_toFinset, Set.ncard_coe_finset,
          List.toFinset_card_of_nodup hfound.nodup, List.length_map, hfull]
      have heq : {i | i ∈ scan.results.map Prod.snd} = MatchingNodes filter st start :=
        Set.eq_of_subset_of_ncard_le hids (by rw [hidsCount]; exact hfew) hfinite
      intro i hi
      rw [← heq] at hi
      exact hi

theorem reads_searchDense {owner : Nat → Option Nat} (hquiet : Quiet owner st)
    (hlinked : Linked st) (metric : Metric V D) (descent : Nat → Nat) (query : V)
    {k : Int} (hk : 0 < k) (filter : Filter Row) (maxScanCandidates : Int) (fuel : Nat) :
    Reads st (searchDense metric descent fuel query k filter maxScanCandidates) fun out =>
      (∀ scan, out = .hits scan → scan.capHit = false →
        (st.entryPoint = none → scan.results = []) ∧
        ∀ ep, st.entryPoint = some ep → SlotsForAll filter st (descent ep) k.toNat →
          scan.results.length =
            min k.toNat (AliveMatches filter st (descent ep)).ncard) ∧
      (hlinked.finite.toFinset.card < fuel → out ≠ .exhausted) := by
  unfold searchDense
  rw [if_neg (not_le.mpr hk)]
  apply Reads.bind
  unfold knnSearchKFiltered
  apply Reads.call (c := .loadEntryPoint) rfl
  cases hentry : st.entryPoint with
  | none =>
      rw [show (exec .loadEntryPoint st).1 = none from hentry]
      refine ⟨rfl, rfl, ?_, ?_⟩
      · rintro _ ⟨⟩ _
        exact ⟨fun _ => rfl, fun _ h => by cases h⟩
      · rintro _ ⟨⟩
  | some ep =>
      rw [show (exec .loadEntryPoint st).1 = some ep from hentry]
      have hk' : 0 < k.toNat := by omega
      refine (reads_searchLayerFiltered hlinked hk' maxScanCandidates fuel).mono ?_
      rintro out ⟨hfound, -, -, hfuel⟩
      cases out with
      | hits scan =>
          apply Reads.bind
          apply (reads_translate [] scan.results).mono
          rintro _ rfl
          refine ⟨rfl, ?_, ?_⟩
          · rintro _ ⟨⟩ hcap
            refine ⟨(by rintro ⟨⟩), ?_⟩
            rintro _ ⟨⟩ hslots
            obtain ⟨hstart, hfound, -⟩ := hfound scan rfl
            exact hfound.liveHits_count hquiet hlinked hstart hcap hslots
          · rintro _ ⟨⟩
      | invalidArgument | threw =>
          refine ⟨rfl, ?_, ?_⟩
          · rintro _ ⟨⟩
          · rintro _ ⟨⟩
      | exhausted =>
          refine ⟨rfl, ?_, fun henough => absurd rfl (hfuel henough)⟩
          rintro _ ⟨⟩

/-- The first point has no payload, the second one has a field with value 1. -/
def writeFirst : Write Nat (Option Nat) := ⟨0, 10, none, ⟨[], [], false, false⟩⟩

def writeSecond : Write Nat (Option Nat) := ⟨1, 20, some (some 1), ⟨[0], [], false, false⟩⟩

def twoPoints : State Nat (Option Nat) :=
  ((WriteCall.upsert .insert writeSecond).program.run exec
    ((WriteCall.upsert .insert writeFirst).program.run exec (State.empty _ _)).2).2

/-- The first point is deleted again; its node is the entry point. -/
def deadFirst : State Nat (Option Nat) :=
  ((WriteCall.delete 0).program.run exec twoPoints).2

theorem reached_deadFirst : Reached deadFirst := by
  have hfirst : Reached ((WriteCall.upsert .insert writeFirst).program.run exec
      (State.empty Nat (Option Nat))).2 := .wrote _ .empty (by decide) (by rintro _ ⟨⟩)
  have hsecond : Reached twoPoints := by
    refine .wrote _ hfirst (by decide) ?_
    intro n hn
    rw [List.mem_singleton.mp hn]
    change Option.isSome _ = true
    decide +kernel
  exact .wrote _ hsecond (by decide) (by rintro _ ⟨⟩)

/-- The field has the value 1. -/
def fieldIsOne : Filter (Option Nat) := ⟨fun row => row == some 1, none⟩

/-- The field does not have the value 2, or is missing. -/
def fieldIsNotTwo : Filter (Option Nat) := ⟨fun row => row != some 2, none⟩

end AsterVec.Dense

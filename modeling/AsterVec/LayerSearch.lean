import AsterVec.DenseSearch

/-!
The layer-0 search in its two modes, over any way to read vectors.  One mode reads the
unvisited neighbors of a node one by one, the other in a batch before any queue changes.
-/

namespace AsterVec.LayerSearch

open AsterVec.Dense

variable {σ V D : Type} [LinearOrder D]

/-- Reading vectors from a store; `none` is a read that throws. -/
structure Reader (σ V : Type) where
  hasLocation : σ → Nat → Bool
  readVector : Nat → σ → Option V × σ
  readVectorsBatchFlat : List Nat → σ → Option (List V) × σ

/-- The reader of a store that is its vectors. -/
def memory (V : Type) : Reader (Nat → Option V) V where
  hasLocation vectors id := (vectors id).isSome
  readVector id vectors := (vectors id, vectors)
  readVectorsBatchFlat ids vectors := (ids.mapM vectors, vectors)

section

variable (reader : Reader σ V) (edges : Nat → List Nat) (metric : Metric V D) (query : V)

/-- The neighbors of a node that have a location. -/
def getEdgesCached (id : Nat) (s : σ) : List Nat :=
  (edges id).filter (reader.hasLocation s)

section

variable (efSearch : Nat)

/-- Read each neighbor that was not visited and consider it. -/
def readOneByOne : List Nat → SearchState D → σ → Option (SearchState D) × σ
  | [], state, s => (some state, s)
  | neighborId :: ids, state, s =>
      if state.visited.contains neighborId then readOneByOne ids state s
      else
        match reader.readVector neighborId s with
        | (none, s) => (none, s)
        | (some vector, s) =>
            readOneByOne ids
              (considerNeighbor metric query efSearch
                { state with visited := state.visited ++ [neighborId] } (neighborId, vector)) s

/-- Mark all neighbors, read those that were not visited at once, and consider them. -/
def readInBatch (ids : List Nat) (state : SearchState D) (s : σ) :
    Option (SearchState D) × σ :=
  let (visited, unvisitedIds) := visitNew state.visited ids
  if unvisitedIds = [] then (some { state with visited := visited }, s)
  else
    match reader.readVectorsBatchFlat unvisitedIds s with
    | (none, s) => (none, s)
    | (some vectors, s) =>
        (some ((unvisitedIds.zip vectors).foldl (considerNeighbor metric query efSearch)
          { state with visited := visited }), s)

/-- Read and consider the neighbors of a node, in one mode or the other. -/
def readNeighbors (enableBatchRead : Bool) (ids : List Nat) (state : SearchState D) (s : σ) :
    Option (SearchState D) × σ :=
  if enableBatchRead then readInBatch reader metric query efSearch ids state s
  else readOneByOne reader metric query efSearch ids state s

/-- The loop of the search, for `fuel` candidates. -/
def searchLoop (enableBatchRead : Bool) :
    Nat → SearchState D → σ → SearchEnd (SearchState D) × σ
  | 0, _, s => (.exhausted, s)
  | fuel + 1, state, s =>
      match topOf nearer state.candidates with
      | none => (.hits state, s)
      | some current =>
          let state := { state with candidates := state.candidates.erase current }
          if (topOf farther state.nearest).any fun worst => decide (worst.1 < current.1) then
            (.hits state, s)
          else
            let neighborList := getEdgesCached reader edges current.2 s
            match readNeighbors reader metric query efSearch enableBatchRead neighborList state s with
            | (none, s) => (.threw, s)
            | (some state, s) => searchLoop enableBatchRead fuel state s

end

def searchLayer (enableBatchRead : Bool) (fuel entryPointId : Nat) (efSearch : Int) (s : σ) :
    SearchEnd (List (D × Nat)) × σ :=
  if efSearch ≤ 0 then (.hits [], s)
  else
    match reader.readVector entryPointId s with
    | (none, s) => (.threw, s)
    | (some vector, s) =>
        let distToEntry := metric.distance query vector
        let found := searchLoop reader edges metric query efSearch.toNat enableBatchRead fuel
          ⟨[entryPointId], [(distToEntry, entryPointId)], [(distToEntry, entryPointId)]⟩ s
        (found.1.map fun state => metric.sort state.nearest, found.2)

end

/-! ## What the reads return -/

/-- In the states of `Keeps` every read returns the vector of its id, or throws when it has
none, and leads to such a state again. -/
structure Reads (reader : Reader σ V) (Keeps : σ → Prop) (vectors : Nat → Option V) :
    Prop where
  located : ∀ s id, Keeps s → reader.hasLocation s id = (vectors id).isSome
  one : ∀ s id, Keeps s →
    (reader.readVector id s).1 = vectors id ∧ Keeps (reader.readVector id s).2
  batch : ∀ s ids found, Keeps s → List.Forall₂ (fun id v => vectors id = some v) ids found →
    (reader.readVectorsBatchFlat ids s).1 = some found ∧
      Keeps (reader.readVectorsBatchFlat ids s).2

theorem mapM_eq_some {α β : Type} {f : α → Option β} {xs : List α} {ys : List β}
    (hread : List.Forall₂ (fun x y => f x = some y) xs ys) : xs.mapM f = some ys := by
  induction hread with
  | nil => rfl
  | cons hx _ ih => simp [hx, ih]

theorem reads_memory (vectors : Nat → Option V) :
    Reads (memory V) (· = vectors) vectors where
  located := by
    rintro _ id rfl
    rfl
  one := by
    rintro _ id rfl
    exact ⟨rfl, rfl⟩
  batch := by
    rintro _ ids found rfl hread
    exact ⟨mapM_eq_some hread, rfl⟩

section

variable {reader : Reader σ V} {Keeps : σ → Prop} {vectors : Nat → Option V}
  {edges : Nat → List Nat} {metric : Metric V D} {query : V} {efSearch : Nat}

theorem visitNew_cons (visited : List Nat) (id : Nat) (ids : List Nat) :
    visitNew visited (id :: ids) =
      if visited.contains id then visitNew visited ids
      else ((visitNew (visited ++ [id]) ids).1, id :: (visitNew (visited ++ [id]) ids).2) := by
  have hacc : ∀ (ids visited acc : List Nat),
      ids.foldl (fun (visited, fresh) id =>
        if visited.contains id then (visited, fresh) else (visited ++ [id], fresh ++ [id]))
        (visited, acc) = ((visitNew visited ids).1, acc ++ (visitNew visited ids).2) := by
    intro ids
    induction ids with
    | nil =>
        intro visited acc
        simp [visitNew]
    | cons next ids ih =>
        intro visited acc
        simp only [visitNew, List.foldl_cons]
        split
        · rw [ih, ih]
          simp
        · rw [ih, ih]
          simp
  rw [visitNew, List.foldl_cons]
  simp only
  split
  · rfl
  · rw [hacc]
    rfl

/-- The new ids are appended to the visited ones, each once, and all ids are visited then. -/
theorem visitNew_spec (visited ids : List Nat) :
    (visitNew visited ids).1 = visited ++ (visitNew visited ids).2 ∧
      (visitNew visited ids).2.Nodup ∧
      (∀ id ∈ (visitNew visited ids).2, id ∈ ids ∧ id ∉ visited) ∧
      ∀ id ∈ ids, id ∈ (visitNew visited ids).1 := by
  induction ids generalizing visited with
  | nil => simp [visitNew]
  | cons next ids ih =>
      rw [visitNew_cons]
      split
      · rename_i hseen
        obtain ⟨happended, hnodup, hnew, hall⟩ := ih visited
        refine ⟨happended, hnodup, fun id hid => ?_, ?_⟩
        · exact ⟨List.mem_cons_of_mem _ (hnew id hid).1, (hnew id hid).2⟩
        · intro id hid
          rcases List.mem_cons.1 hid with rfl | hid
          · rw [happended]
            exact List.mem_append_left _ (List.contains_iff_mem.1 hseen)
          · exact hall id hid
      · rename_i hunseen
        obtain ⟨happended, hnodup, hnew, hall⟩ := ih (visited ++ [next])
        refine ⟨?_, List.nodup_cons.2 ⟨fun hmem => ?_, hnodup⟩, ?_, ?_⟩
        · simpa using happended
        · exact (hnew next hmem).2 (List.mem_append_right _ List.mem_cons_self)
        · intro id hid
          rcases List.mem_cons.1 hid with rfl | hid
          · exact ⟨List.mem_cons_self, fun hmem => hunseen (List.contains_iff_mem.2 hmem)⟩
          · exact ⟨List.mem_cons_of_mem _ (hnew id hid).1,
              fun hmem => (hnew id hid).2 (List.mem_append_left _ hmem)⟩
        · intro id hid
          rcases List.mem_cons.1 hid with rfl | hid
          · change id ∈ (visitNew (visited ++ [id]) ids).1
            rw [happended]
            exact List.mem_append_left _ (List.mem_append_right _ List.mem_cons_self)
          · exact hall id hid

/-- Ids with their vectors. -/
def withVectors (vectors : Nat → Option V) (ids : List Nat) : List (Nat × V) :=
  ids.filterMap fun id => (vectors id).map fun vector => (id, vector)

/-- Mark the neighbors of a node and consider those that were not visited. -/
def considerAll (vectors : Nat → Option V) (metric : Metric V D) (query : V) (efSearch : Nat)
    (ids : List Nat) (state : SearchState D) : SearchState D :=
  (withVectors vectors (visitNew state.visited ids).2).foldl
    (considerNeighbor metric query efSearch)
    { state with visited := (visitNew state.visited ids).1 }

/-- Considering a neighbor does not look at the visited nodes. -/
theorem considerNeighbor_visited (state : SearchState D) (visited : List Nat)
    (neighbor : Nat × V) :
    considerNeighbor metric query efSearch { state with visited := visited } neighbor =
      { considerNeighbor metric query efSearch state neighbor with visited := visited } := by
  unfold considerNeighbor
  simp only
  split <;> rfl

theorem considerAll_cons {id : Nat} {ids : List Nat} {vector : V} {state : SearchState D}
    (hvector : vectors id = some vector) (hnew : state.visited.contains id = false) :
    considerAll vectors metric query efSearch (id :: ids) state =
      considerAll vectors metric query efSearch ids
        (considerNeighbor metric query efSearch
          { state with visited := state.visited ++ [id] } (id, vector)) := by
  have hvisited : (considerNeighbor metric query efSearch
      { state with visited := state.visited ++ [id] } (id, vector)).visited =
      state.visited ++ [id] := by
    rw [considerNeighbor_visited]
  have hcons : withVectors vectors (id :: (visitNew (state.visited ++ [id]) ids).2) =
      (id, vector) :: withVectors vectors (visitNew (state.visited ++ [id]) ids).2 := by
    simp [withVectors, hvector]
  unfold considerAll
  rw [visitNew_cons, hnew, hvisited]
  simp only [Bool.false_eq_true, if_false]
  rw [hcons, List.foldl_cons, considerNeighbor_visited,
    considerNeighbor_visited state (state.visited ++ [id])]

variable (metric query efSearch) in
theorem Reads.readOneByOne (hreads : Reads reader Keeps vectors) {ids : List Nat} :
    ∀ {state : SearchState D} {s : σ}, (∀ id ∈ ids, (vectors id).isSome = true) → Keeps s →
      (readOneByOne reader metric query efSearch ids state s).1 =
          some (considerAll vectors metric query efSearch ids state) ∧
        Keeps (readOneByOne reader metric query efSearch ids state s).2 := by
  induction ids with
  | nil => exact fun _ hs => ⟨rfl, hs⟩
  | cons id ids ih =>
      intro state s hlocated hs
      obtain ⟨vector, hvector⟩ := Option.isSome_iff_exists.1 (hlocated id List.mem_cons_self)
      have hrest : ∀ id ∈ ids, (vectors id).isSome = true :=
        fun id hid => hlocated id (List.mem_cons_of_mem _ hid)
      unfold LayerSearch.readOneByOne
      cases hseen : state.visited.contains id with
      | true =>
          have hsame : considerAll vectors metric query efSearch (id :: ids) state =
              considerAll vectors metric query efSearch ids state := by
            unfold considerAll
            rw [visitNew_cons, hseen]
            rfl
          rw [hsame, if_pos rfl]
          exact ih hrest hs
      | false =>
          obtain ⟨hread, hkeeps⟩ := hreads.one s id hs
          rw [considerAll_cons hvector hseen, if_neg (by simp)]
          cases hcall : reader.readVector id s with
          | mk found s' =>
              rw [hcall] at hread hkeeps
              simp only at hread hkeeps
              rw [hread, hvector]
              exact ih hrest hkeeps

theorem forall₂_withVectors (vectors : Nat → Option V) {ids : List Nat}
    (hlocated : ∀ id ∈ ids, (vectors id).isSome = true) :
    ∃ found, List.Forall₂ (fun id v => vectors id = some v) ids found ∧
      ids.zip found = withVectors vectors ids := by
  induction ids with
  | nil => exact ⟨[], .nil, rfl⟩
  | cons id ids ih =>
      obtain ⟨vector, hvector⟩ := Option.isSome_iff_exists.1 (hlocated id List.mem_cons_self)
      obtain ⟨found, hfound, hzip⟩ := ih fun id hid => hlocated id (List.mem_cons_of_mem _ hid)
      refine ⟨vector :: found, .cons hvector hfound, ?_⟩
      rw [List.zip_cons_cons, hzip]
      simp [withVectors, hvector]

variable (metric query efSearch) in
theorem Reads.readInBatch (hreads : Reads reader Keeps vectors) {ids : List Nat}
    {state : SearchState D} {s : σ} (hlocated : ∀ id ∈ ids, (vectors id).isSome = true)
    (hs : Keeps s) :
    (readInBatch reader metric query efSearch ids state s).1 =
        some (considerAll vectors metric query efSearch ids state) ∧
      Keeps (readInBatch reader metric query efSearch ids state s).2 := by
  obtain ⟨found, hfound, hzip⟩ := forall₂_withVectors vectors
    fun id hid => hlocated id ((visitNew_spec state.visited ids).2.2.1 id hid).1
  unfold LayerSearch.readInBatch considerAll
  simp only
  split
  · rename_i hnone
    rw [hnone]
    exact ⟨rfl, hs⟩
  · obtain ⟨hread, hkeeps⟩ := hreads.batch s _ found hs hfound
    cases hcall : reader.readVectorsBatchFlat (visitNew state.visited ids).2 s with
    | mk result s' =>
        rw [hcall] at hread hkeeps
        simp only at hread hkeeps
        rw [hread]
        simp only [hzip]
        exact ⟨trivial, hkeeps⟩

theorem Reads.readNeighbors (hreads : Reads reader Keeps vectors) (enableBatchRead : Bool)
    {ids : List Nat} (hlocated : ∀ id ∈ ids, (vectors id).isSome = true)
    (state : SearchState D) {s : σ} (hs : Keeps s) :
    ∃ s', readNeighbors reader metric query efSearch enableBatchRead ids state s =
        (some (considerAll vectors metric query efSearch ids state), s') ∧ Keeps s' := by
  cases enableBatchRead with
  | true =>
      obtain ⟨hread, hkeeps⟩ := hreads.readInBatch metric query efSearch hlocated hs
      exact ⟨_, Prod.ext hread rfl, hkeeps⟩
  | false =>
      obtain ⟨hread, hkeeps⟩ := hreads.readOneByOne metric query efSearch hlocated hs
      exact ⟨_, Prod.ext hread rfl, hkeeps⟩

/-- The loop over the vectors themselves. -/
def plainLoop (vectors : Nat → Option V) (edges : Nat → List Nat) (metric : Metric V D)
    (query : V) (efSearch : Nat) : Nat → SearchState D → SearchEnd (SearchState D)
  | 0, _ => .exhausted
  | fuel + 1, state =>
      match topOf nearer state.candidates with
      | none => .hits state
      | some current =>
          let state := { state with candidates := state.candidates.erase current }
          if (topOf farther state.nearest).any fun worst => decide (worst.1 < current.1) then
            .hits state
          else
            plainLoop vectors edges metric query efSearch fuel
              (considerAll vectors metric query efSearch
                ((edges current.2).filter fun id => (vectors id).isSome) state)

variable (metric query efSearch edges) in
/-- In either mode the loop runs as over the vectors themselves. -/
theorem Reads.searchLoop (hreads : Reads reader Keeps vectors) (enableBatchRead : Bool)
    (fuel : Nat) {state : SearchState D} {s : σ} (hs : Keeps s) :
    (searchLoop reader edges metric query efSearch enableBatchRead fuel state s).1 =
        plainLoop vectors edges metric query efSearch fuel state ∧
      Keeps (searchLoop reader edges metric query efSearch enableBatchRead fuel state s).2 := by
  induction fuel generalizing state s with
  | zero => exact ⟨rfl, hs⟩
  | succ fuel ih =>
      unfold LayerSearch.searchLoop plainLoop
      cases topOf nearer state.candidates with
      | none => exact ⟨rfl, hs⟩
      | some current =>
          simp only
          split
          · exact ⟨rfl, hs⟩
          · have hneighbors : getEdgesCached reader edges current.2 s =
                (edges current.2).filter fun id => (vectors id).isSome := by
              unfold getEdgesCached
              exact List.filter_congr fun id _ => hreads.located s id hs
            have hlocated : ∀ id ∈ (edges current.2).filter fun id => (vectors id).isSome,
                (vectors id).isSome = true := fun id hid => (List.mem_filter.1 hid).2
            obtain ⟨s', hread, hkeeps⟩ := hreads.readNeighbors enableBatchRead hlocated
              { state with candidates := state.candidates.erase current } hs
            rw [hneighbors, hread]
            exact ih hkeeps

def plainSearch (vectors : Nat → Option V) (edges : Nat → List Nat) (metric : Metric V D)
    (query : V) (fuel entryPointId : Nat) (efSearch : Int) : SearchEnd (List (D × Nat)) :=
  if efSearch ≤ 0 then .hits []
  else
    match vectors entryPointId with
    | none => .threw
    | some vector =>
        let distToEntry := metric.distance query vector
        (plainLoop vectors edges metric query efSearch.toNat fuel
          ⟨[entryPointId], [(distToEntry, entryPointId)], [(distToEntry, entryPointId)]⟩).map
            fun state => metric.sort state.nearest

variable (metric query edges) in
theorem Reads.searchLayer (hreads : Reads reader Keeps vectors) (enableBatchRead : Bool)
    (fuel entryPointId : Nat) (efSearch : Int) {s : σ} (hs : Keeps s) :
    (searchLayer reader edges metric query enableBatchRead fuel entryPointId efSearch s).1 =
        plainSearch vectors edges metric query fuel entryPointId efSearch ∧
      Keeps (searchLayer reader edges metric query enableBatchRead fuel entryPointId
        efSearch s).2 := by
  obtain ⟨hread, hkeeps⟩ := hreads.one s entryPointId hs
  unfold LayerSearch.searchLayer plainSearch
  split
  · exact ⟨rfl, hs⟩
  · cases hcall : reader.readVector entryPointId s with
    | mk result s' =>
        rw [hcall] at hread hkeeps
        rw [← hread]
        cases result with
        | none => exact ⟨rfl, hkeeps⟩
        | some vector =>
            obtain ⟨hloop, hafter⟩ := hreads.searchLoop edges metric query efSearch.toNat
              enableBatchRead fuel hkeeps
            refine ⟨?_, hafter⟩
            change (SearchEnd.map _ _) = SearchEnd.map _ _
            exact congrArg _ hloop

end

end AsterVec.LayerSearch

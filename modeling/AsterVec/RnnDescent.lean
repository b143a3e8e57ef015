import AsterVec.NeighborHeuristic
import AsterVec.SortedRuns

/-!
The builder of the neighbor graph by RNN-Descent.  The pools of the nodes hold candidates
with their distances; the rounds prune them, hand candidates on to other nodes and add
reverse edges.
-/

namespace AsterVec.RnnDescent

open AsterVec.SortedRuns

/-! Distances -/

/-- A distance between nodes. -/
structure DistanceFunction (D : Type) where
  dist : Nat → Nat → D
  comm : ∀ i j, dist i j = dist j i

/-- `FlatStorageDistance`: the squared distance, or the cosine distance. -/
def flatStorageDistance {F : Type} [DecidableEq F] (ops : FloatArithmetic F)
    (metric : DistanceMetric) (data : Nat → List F) : DistanceFunction F where
  dist i j :=
    match metric with
    | .kCosine => ops.cosineDistance (data i) (data j)
    | .kL2 => ops.l2SquaredDistance (data i) (data j)
  comm i j := by
    cases metric with
    | kL2 => exact ops.squares_comm _ _
    | kCosine => exact ops.cosineDistance_comm _ _

structure Neighbor (D : Type) where
  id : Nat
  distance : D
  flag : Bool
  deriving DecidableEq

/-- The pools of the nodes. -/
abbrev Graph (D : Type) := Nat → List (Neighbor D)

variable {D : Type} [LinearOrder D]

/-- What one call of `std::sort` makes of a pool: neighbors at the same distance may come in
any order. -/
structure SortOrder (D : Type) [LinearOrder D] where
  sort : List (Neighbor D) → List (Neighbor D)
  perm : ∀ pool, (sort pool).Perm pool
  sorted : ∀ pool, (sort pool).Pairwise fun a b => a.distance ≤ b.distance

/-- The calls of `std::sort` before the last ones. -/
inductive SortCall where
  | update (t1 t2 u : Nat)
  | merge (t1 u : Nat)
  | push (t1 u : Nat)

structure Params where
  T1 : Nat
  T2 : Nat
  R : Nat

/-! The initial sample -/

/-- Make every number larger than the one before. -/
def spread (prev : Nat) : List Nat → List Nat
  | [] => []
  | addr :: rest =>
      let addr := if addr ≤ prev then prev + 1 else addr
      addr :: spread addr rest

/-- Distinct ids in the range, from draws of the generator. -/
def genRandom (draw : Nat → Nat) (size N : Nat) : List Nat :=
  let addrs := ((List.range size).map fun i => draw i % (N - size)).insertionSort (· ≤ ·)
  let addrs :=
    match addrs with
    | [] => []
    | addr :: rest => addr :: spread addr rest
  addrs.map fun addr => (addr + draw size % N) % N

/-! The rounds -/

def unique (pool : List (Neighbor D)) : List (Neighbor D) := uniqueBy Neighbor.id pool

/-- At most `R` neighbors, by the size of the pool as an `int`. -/
def truncate (R : Nat) (pool : List (Neighbor D)) : List (Neighbor D) :=
  if (R : Int) < (pool.length : Int).bmod (2 ^ 32) then pool.take R else pool

def insertNn (g : Graph D) (id nnId : Nat) (distance : D) (flag : Bool) : Graph D :=
  Function.update g id (g id ++ [⟨nnId, distance, flag⟩])

def initGraph (space : DistanceFunction D) (samples : Nat → List Nat) (n : Nat) : Graph D :=
  fun i =>
    if i < n then
      ((samples i).filter (· ≠ i)).map fun id => ⟨id, space.dist i id, true⟩
    else []

/-- What becomes of a candidate. -/
inductive Verdict (D : Type) where
  | keep
  | drop
  | redirect (other : Nat) (d : D)

/-- Compare a candidate with the neighbors that are kept. -/
def judge (space : DistanceFunction D) (nn : Neighbor D) : List (Neighbor D) → Verdict D
  | [] => .keep
  | other :: rest =>
      if nn.flag = false ∧ other.flag = false then judge space nn rest
      else if nn.id = other.id then .drop
      else if space.dist nn.id other.id < nn.distance then
        .redirect other.id (space.dist nn.id other.id)
      else judge space nn rest

/-- A candidate is kept, or goes to the neighbor that is nearer to it. -/
def pruneStep (space : DistanceFunction D) (st : Graph D × List (Neighbor D))
    (nn : Neighbor D) : Graph D × List (Neighbor D) :=
  match judge space nn st.2 with
  | .keep => (st.1, st.2 ++ [nn])
  | .drop => st
  | .redirect other d => (insertNn st.1 other nn.id d true, st.2)

/-- The pool of a node is taken out, and what is kept of it is put back. -/
def updateNode (space : DistanceFunction D) (order : SortOrder D) (g : Graph D) (u : Nat) :
    Graph D :=
  let oldPool := unique (order.sort (g u))
  let pruned := oldPool.foldl (pruneStep space) (Function.update g u [], [])
  Function.update pruned.1 u
    (pruned.1 u ++ pruned.2.map fun nn => { nn with flag := false })

def updateNeighbors (space : DistanceFunction D) (orders : Nat → SortOrder D) (n : Nat)
    (g : Graph D) : Graph D :=
  (List.range n).foldl (fun g u => updateNode space (orders u) g u) g

/-- Every edge of `source` is put into `g` the other way round. -/
def scatter (n : Nat) (source g : Graph D) : Graph D :=
  (List.range n).foldl
    (fun g u => (source u).foldl (fun g nn => insertNn g nn.id u nn.distance nn.flag) g) g

def addReverseEdges (merge push : Nat → SortOrder D) (R n : Nat) (g : Graph D) : Graph D :=
  let reversePools := scatter n g fun _ => []
  let reversePools := fun u => truncate R (unique ((merge u).sort
    (reversePools u ++ (g u).map fun nn => { nn with flag := true })))
  let pushed := scatter n reversePools fun _ => []
  fun u => truncate R ((push u).sort (pushed u))

/-- The pools after the rounds. -/
def rounds (space : DistanceFunction D) (orders : SortCall → SortOrder D) (p : Params)
    (n : Nat) (g : Graph D) : Graph D :=
  (List.range p.T1).foldl
    (fun g t1 =>
      let g := (List.range p.T2).foldl
        (fun g t2 => updateNeighbors space (fun u => orders (.update t1 t2 u)) n g) g
      if t1 ≠ p.T1 - 1 then
        addReverseEdges (fun u => orders (.merge t1 u)) (fun u => orders (.push t1 u)) p.R n g
      else g)
    g

/-- The pools before the last sort. -/
def pools (space : DistanceFunction D) (orders : SortCall → SortOrder D)
    (samples : Nat → List Nat) (p : Params) (n : Nat) : Graph D :=
  rounds space orders p n (initGraph space samples n)

/-! The output -/

structure Csr where
  offsets : List Int
  finalGraph : List Int
  deriving DecidableEq

/-- Write ids from a position on. -/
def writeRow (off : Int) : List Nat → List Int → List Int
  | [], graph => graph
  | id :: ids, graph => writeRow (off + 1) ids (graph.set off.toNat id)

/-- The offsets are sums of `int`. -/
def csrOffsets (off : Int) : List (List Nat) → List Int
  | [] => [off]
  | row :: rows => off :: csrOffsets ((off + row.length).bmod (2 ^ 32)) rows

/-- A negative size is none that the array can have. -/
def buildCsr (rows : List (List Nat)) : Option Csr :=
  let offsets := csrOffsets 0 rows
  let size := offsets.getLastD 0
  if size < 0 then none
  else
    some ⟨offsets, (offsets.zip rows).foldl (fun graph row => writeRow row.1 row.2 graph)
      (List.replicate size.toNat (-1))⟩

/-- The neighbors that the last sort and the removal of duplicates leave of a pool. -/
def finalPool (R : Nat) (order : SortOrder D) (pool : List (Neighbor D)) : List (Neighbor D) :=
  truncate R (unique (order.sort pool))

def finalRows (final : Nat → SortOrder D) (R n : Nat) (g : Graph D) : List (List Nat) :=
  (List.range n).map fun u => (finalPool R (final u) (g u)).map Neighbor.id

/-- The output for samples of the ids; `final` are the last calls of `std::sort`. -/
def build (space : DistanceFunction D) (orders : SortCall → SortOrder D)
    (final : Nat → SortOrder D) (samples : Nat → List Nat) (p : Params) (n : Nat) :
    Option Csr :=
  if n ≤ 1 then some ⟨List.replicate (n + 1) 0, []⟩
  else buildCsr (finalRows final p.R n (pools space orders samples p n))

/-- The ids of a node in the output. -/
def Csr.neighbors (csr : Csr) (u : Nat) : List Int :=
  (csr.finalGraph.drop (csr.offsets.getD u 0).toNat).take
    (csr.offsets.getD (u + 1) 0 - csr.offsets.getD u 0).toNat

/-! What the pools hold -/

/-- A neighbor of a node: another node of the range with its distance. -/
structure Entry (space : DistanceFunction D) (n u : Nat) (nn : Neighbor D) : Prop where
  node_lt : u < n
  id_lt : nn.id < n
  id_ne : nn.id ≠ u
  distance_eq : nn.distance = space.dist u nn.id

/-- Every pool holds neighbors of its node. -/
def Sound (space : DistanceFunction D) (n : Nat) (g : Graph D) : Prop :=
  ∀ u, ∀ nn ∈ g u, Entry space n u nn

variable {space : DistanceFunction D} {n u : Nat} {g : Graph D} {nn : Neighbor D}

theorem Entry.reverse (hentry : Entry space n u nn) (flag : Bool) :
    Entry space n nn.id ⟨u, nn.distance, flag⟩ where
  node_lt := hentry.id_lt
  id_lt := hentry.node_lt
  id_ne := hentry.id_ne.symm
  distance_eq := by rw [hentry.distance_eq, space.comm]

theorem Entry.flagged (hentry : Entry space n u nn) (flag : Bool) :
    Entry space n u { nn with flag := flag } :=
  ⟨hentry.node_lt, hentry.id_lt, hentry.id_ne, hentry.distance_eq⟩

theorem Sound.update (hsound : Sound space n g) {pool : List (Neighbor D)}
    (hpool : ∀ nn ∈ pool, Entry space n u nn) : Sound space n (Function.update g u pool) := by
  intro v nn hnn
  rcases eq_or_ne v u with rfl | hne
  · rw [Function.update_self] at hnn
    exact hpool nn hnn
  · rw [Function.update_of_ne hne] at hnn
    exact hsound v nn hnn

theorem Sound.append (hsound : Sound space n g) {pool : List (Neighbor D)}
    (hpool : ∀ nn ∈ pool, Entry space n u nn) :
    Sound space n (Function.update g u (g u ++ pool)) :=
  hsound.update fun nn hnn => (List.mem_append.mp hnn).elim (hsound u nn) (hpool nn)

theorem Sound.insertNn (hsound : Sound space n g) {id nnId : Nat} {distance : D} {flag : Bool}
    (hentry : Entry space n id ⟨nnId, distance, flag⟩) :
    Sound space n (insertNn g id nnId distance flag) :=
  hsound.append fun nn hnn => List.mem_singleton.mp hnn ▸ hentry

theorem sound_initGraph {samples : Nat → List Nat}
    (hsamples : ∀ i < n, ∀ id ∈ samples i, id < n) :
    Sound space n (initGraph space samples n) := by
  intro u nn hnn
  unfold initGraph at hnn
  split at hnn
  · rename_i hu
    obtain ⟨id, hid, rfl⟩ := List.mem_map.mp hnn
    obtain ⟨hsampled, hne⟩ := List.mem_filter.mp hid
    exact ⟨hu, hsamples u hu id hsampled, of_decide_eq_true hne, rfl⟩
  · cases hnn

theorem genRandom_lt {draw : Nat → Nat} {size N : Nat} (hN : 0 < N) :
    ∀ id ∈ genRandom draw size N, id < N := by
  intro id hid
  unfold genRandom at hid
  obtain ⟨addr, -, rfl⟩ := List.mem_map.mp hid
  exact Nat.mod_lt _ hN

theorem judge_redirect {kept : List (Neighbor D)} {other : Nat} {d : D}
    (hjudged : judge space nn kept = .redirect other d) :
    (∃ near ∈ kept, near.id = other) ∧ nn.id ≠ other ∧ d = space.dist nn.id other := by
  induction kept with
  | nil => cases hjudged
  | cons near kept ih =>
      have hlater : judge space nn kept = .redirect other d →
          (∃ near' ∈ near :: kept, near'.id = other) ∧ nn.id ≠ other ∧
            d = space.dist nn.id other := by
        intro hrest
        obtain ⟨⟨found, hfound, hid⟩, hne, hd⟩ := ih hrest
        exact ⟨⟨found, List.mem_cons_of_mem _ hfound, hid⟩, hne, hd⟩
      unfold judge at hjudged
      split at hjudged
      · exact hlater hjudged
      · split at hjudged
        · cases hjudged
        · rename_i hne
          split at hjudged
          · cases hjudged
            exact ⟨⟨near, List.mem_cons_self, rfl⟩, hne, rfl⟩
          · exact hlater hjudged

/-- What is pruned is handed on to a node whose neighbor it is. -/
theorem sound_pruneStep {st : Graph D × List (Neighbor D)} (hsound : Sound space n st.1)
    (hkept : ∀ near ∈ st.2, Entry space n u near) (hnn : Entry space n u nn) :
    Sound space n (pruneStep space st nn).1 ∧
      ∀ near ∈ (pruneStep space st nn).2, Entry space n u near := by
  unfold pruneStep
  split
  · refine ⟨hsound, fun near hnear => ?_⟩
    rcases List.mem_append.mp hnear with hold | hnew
    · exact hkept near hold
    · exact List.mem_singleton.mp hnew ▸ hnn
  · exact ⟨hsound, hkept⟩
  · rename_i other d hjudged
    obtain ⟨⟨near, hnear, rfl⟩, hne, rfl⟩ := judge_redirect hjudged
    refine ⟨hsound.insertNn ?_, hkept⟩
    exact ⟨(hkept near hnear).id_lt, hnn.id_lt, hne, space.comm _ _⟩

theorem unique_subset (pool : List (Neighbor D)) : unique pool ⊆ pool :=
  uniqueBy_sublist.subset

theorem truncate_subset (R : Nat) (pool : List (Neighbor D)) : truncate R pool ⊆ pool := by
  unfold truncate
  split
  · exact List.take_subset R pool
  · exact List.Subset.refl pool

theorem sound_updateNode (hsound : Sound space n g) (order : SortOrder D) (u : Nat) :
    Sound space n (updateNode space order g u) := by
  have hold : ∀ nn ∈ unique (order.sort (g u)), Entry space n u nn := fun nn hnn =>
    hsound u nn ((order.perm _).mem_iff.mp (unique_subset _ hnn))
  have hpruned : ∀ old : List (Neighbor D), (∀ nn ∈ old, Entry space n u nn) →
      ∀ st : Graph D × List (Neighbor D), Sound space n st.1 →
      (∀ near ∈ st.2, Entry space n u near) →
      Sound space n (old.foldl (pruneStep space) st).1 ∧
        ∀ near ∈ (old.foldl (pruneStep space) st).2, Entry space n u near := by
    intro old
    induction old with
    | nil => exact fun _ st hst hkept => ⟨hst, hkept⟩
    | cons nn old ih =>
        intro hentries st hst hkept
        obtain ⟨hst', hkept'⟩ := sound_pruneStep hst hkept (hentries nn List.mem_cons_self)
        exact ih (fun near hnear => hentries near (List.mem_cons_of_mem _ hnear)) _ hst' hkept'
  obtain ⟨hgraph, hkept⟩ := hpruned _ hold (Function.update g u [], [])
    (hsound.update fun nn hnn => by cases hnn) fun near hnear => by cases hnear
  refine hgraph.append fun nn hnn => ?_
  obtain ⟨near, hnear, rfl⟩ := List.mem_map.mp hnn
  exact (hkept near hnear).flagged false

theorem sound_scatter {source : Graph D} (hsource : Sound space n source)
    (hsound : Sound space n g) : Sound space n (scatter n source g) := by
  unfold scatter
  refine List.foldlRecOn (List.range n) _ hsound fun g hg u _ => ?_
  exact List.foldlRecOn (source u) _ hg fun g hg nn hnn =>
    hg.insertNn ((hsource u nn hnn).reverse nn.flag)

theorem sound_addReverseEdges (hsound : Sound space n g) (merge push : Nat → SortOrder D)
    (R : Nat) : Sound space n (addReverseEdges merge push R n g) := by
  have hempty : Sound space n fun _ => [] := fun u nn hnn => by cases hnn
  have hreverse := sound_scatter hsound hempty
  have hmerged : Sound space n fun u => truncate R (unique ((merge u).sort
      (scatter n g (fun _ => []) u ++ (g u).map fun nn => { nn with flag := true }))) := by
    intro u nn hnn
    have hmem := ((merge u).perm _).mem_iff.mp (unique_subset _ (truncate_subset _ _ hnn))
    rcases List.mem_append.mp hmem with hback | hforth
    · exact hreverse u nn hback
    · obtain ⟨near, hnear, rfl⟩ := List.mem_map.mp hforth
      exact (hsound u near hnear).flagged true
  intro u nn hnn
  exact sound_scatter hmerged hempty u nn
    (((push u).perm _).mem_iff.mp (truncate_subset _ _ hnn))

/-- The rounds keep the pools sound. -/
theorem sound_rounds (hsound : Sound space n g) (orders : SortCall → SortOrder D) (p : Params) :
    Sound space n (rounds space orders p n g) := by
  unfold rounds
  refine List.foldlRecOn (List.range p.T1) _ hsound fun g hg t1 _ => ?_
  have hupdated : Sound space n ((List.range p.T2).foldl
      (fun g t2 => updateNeighbors space (fun u => orders (.update t1 t2 u)) n g) g) :=
    List.foldlRecOn (List.range p.T2) _ hg fun g hg t2 _ =>
      List.foldlRecOn (List.range n) _ hg fun g hg u _ => sound_updateNode hg _ u
  simp only
  split
  · exact sound_addReverseEdges hupdated _ _ p.R
  · exact hupdated

theorem sound_pools {samples : Nat → List Nat} (hsamples : ∀ i < n, ∀ id ∈ samples i, id < n)
    (orders : SortCall → SortOrder D) (p : Params) :
    Sound space n (pools space orders samples p n) :=
  sound_rounds (sound_initGraph hsamples) orders p

end AsterVec.RnnDescent

import AsterVec.DenseStore
import Mathlib.Data.List.Sort

/-!
The layer-0 searches.  Distances are elements of a linear order; the queues are lists
whose top is looked for.
-/

namespace AsterVec.Dense

open AsterVec.Programs
open Prog

/-- A metric, with a sort by distance that may leave equal distances in any order. -/
structure Metric (V D : Type) [LinearOrder D] where
  distance : V → V → D
  sort : List (D × Nat) → List (D × Nat)
  sort_perm : ∀ hits, (sort hits).Perm hits
  sort_sorted : ∀ hits, (sort hits).Pairwise fun a b => a.1 ≤ b.1

/-- Vectors on a line, by their distance. -/
def onLine : Metric Nat Nat where
  distance a b := (a - b) + (b - a)
  sort := List.insertionSort fun a b => a.1 ≤ b.1
  sort_perm := List.perm_insertionSort _
  sort_sorted := List.pairwise_insertionSort _

inductive SearchEnd (α : Type) where
  | hits (value : α)
  | invalidArgument
  | threw
  | exhausted
deriving DecidableEq

namespace SearchEnd

def map {α β : Type} (f : α → β) : SearchEnd α → SearchEnd β
  | hits value => hits (f value)
  | invalidArgument => invalidArgument
  | threw => threw
  | exhausted => exhausted

end SearchEnd

variable {V Row D : Type} [LinearOrder D]

/-- The top of a queue by the order `before`. -/
def topOf (before : D × Nat → D × Nat → Bool) : List (D × Nat) → Option (D × Nat)
  | [] => none
  | first :: rest => some (rest.foldl (fun top x => if before x top then x else top) first)

/-- The nearest candidate; among equals the one with the largest id. -/
def nearer (a b : D × Nat) : Bool := decide (a.1 < b.1 ∨ a.1 = b.1 ∧ b.2 < a.2)

/-- The farthest result; among equals the one with the largest id. -/
def farther (a b : D × Nat) : Bool := decide (b.1 < a.1 ∨ a.1 = b.1 ∧ b.2 < a.2)

def pop (before : D × Nat → D × Nat → Bool) (queue : List (D × Nat)) : List (D × Nat) :=
  match topOf before queue with
  | none => queue
  | some top => queue.erase top

/-- The result list has room, or its farthest entry is farther than `d`. -/
def admits (cap : Nat) (results : List (D × Nat)) (d : D) : Bool :=
  decide (results.length < cap) ||
    (topOf farther results).elim true fun top => decide (d < top.1)

/-- Push an entry and pop the farthest when there are more than `cap`. -/
def pushCapped (cap : Nat) (entry : D × Nat) (results : List (D × Nat)) : List (D × Nat) :=
  if cap < (results ++ [entry]).length then pop farther (results ++ [entry])
  else results ++ [entry]

/-! The queues -/

section Queues

variable {before : D × Nat → D × Nat → Bool} {queue : List (D × Nat)} {x : D × Nat}

omit [LinearOrder D] in
theorem topOf_mem (htop : topOf before queue = some x) : x ∈ queue := by
  cases queue with
  | nil => cases htop
  | cons first rest =>
      have hfold : ∀ (rest : List (D × Nat)) (first : D × Nat),
          rest.foldl (fun top x => if before x top then x else top) first ∈
            first :: rest := by
        intro rest
        induction rest with
        | nil => exact fun first => List.mem_cons_self
        | cons next rest ih =>
            intro first
            rw [List.foldl_cons]
            rcases List.mem_cons.mp (ih (if before next first then next else first)) with
              heq | hmem
            · rw [heq]
              split
              · exact List.mem_cons_of_mem _ List.mem_cons_self
              · exact List.mem_cons_self
            · exact List.mem_cons_of_mem _ (List.mem_cons_of_mem _ hmem)
      cases htop
      exact hfold rest first

omit [LinearOrder D] in
theorem topOf_eq_none (htop : topOf before queue = none) : queue = [] := by
  cases queue with
  | nil => rfl
  | cons first rest => cases htop

theorem pop_length : (pop before queue).length = queue.length - 1 := by
  unfold pop
  cases htop : topOf before queue with
  | none => rw [topOf_eq_none htop]; rfl
  | some top => exact List.length_erase_of_mem (topOf_mem htop)

theorem pop_sublist : (pop before queue).Sublist queue := by
  unfold pop
  cases topOf before queue with
  | none => exact List.Sublist.refl _
  | some top => exact List.erase_sublist

variable {cap : Nat} {results : List (D × Nat)}

theorem pushCapped_sublist : (pushCapped cap x results).Sublist (results ++ [x]) := by
  unfold pushCapped
  split
  · exact pop_sublist
  · exact List.Sublist.refl _

/-- A push fills the list up to its cap and never shrinks it. -/
theorem pushCapped_length (hlen : results.length ≤ cap) :
    (pushCapped cap x results).length = min cap (results.length + 1) := by
  unfold pushCapped
  split
  · rename_i hfull
    rw [List.length_append, List.length_singleton] at hfull
    rw [pop_length, List.length_append, List.length_singleton]
    omega
  · rename_i hroom
    rw [List.length_append, List.length_singleton] at hroom ⊢
    omega

/-- With room in the list nothing is popped. -/
theorem pushCapped_of_room (hroom : results.length < cap) :
    pushCapped cap x results = results ++ [x] := by
  unfold pushCapped
  rw [if_neg]
  rw [List.length_append, List.length_singleton]
  omega

theorem admits_of_room (hroom : results.length < cap) (d : D) :
    admits cap results d = true := by
  unfold admits
  rw [decide_eq_true hroom, Bool.true_or]

end Queues

structure SearchState (D : Type) where
  visited : List Nat
  candidates : List (D × Nat)
  nearest : List (D × Nat)

/-- Mark the ids as visited and keep the new ones. -/
def visitNew (visited : List Nat) (ids : List Nat) : List Nat × List Nat :=
  ids.foldl (fun (visited, fresh) id =>
    if visited.contains id then (visited, fresh) else (visited ++ [id], fresh ++ [id]))
    (visited, [])

/-- Read the vectors in turn; a missing location throws. -/
def readAll : List Nat → Prog V Row (Option (List (Nat × V)))
  | [] => pure (some [])
  | id :: ids => do
      let vector ← readVector id
      match vector with
      | none => pure none
      | some vector =>
          let rest ← readAll ids
          pure (rest.map ((id, vector) :: ·))

section Unfiltered

variable (metric : Metric V D) (query : V) (efSearch : Nat)

def considerNeighbor (state : SearchState D) (neighbor : Nat × V) : SearchState D :=
  let d := metric.distance query neighbor.2
  if admits efSearch state.nearest d then
    { state with
      candidates := state.candidates ++ [(d, neighbor.1)]
      nearest := pushCapped efSearch (d, neighbor.1) state.nearest }
  else state

theorem mem_nearest_considerNeighbor {metric : Metric V D} {query : V} {efSearch : Nat}
    {neighbor : Nat × V} {state : SearchState D} {x : D × Nat}
    (hx : x ∈ (considerNeighbor metric query efSearch state neighbor).nearest) :
    x ∈ state.nearest ∨ x = (metric.distance query neighbor.2, neighbor.1) := by
  unfold considerNeighbor at hx
  simp only at hx
  split at hx
  · rcases List.mem_append.mp (pushCapped_sublist.subset hx) with hold | hmem
    · exact .inl hold
    · exact .inr (List.mem_singleton.mp hmem)
  · exact .inl hx

/-- The loop of `searchLayer`, for `fuel` candidates. -/
def searchLoop : Nat → SearchState D → Prog V Row (SearchEnd (SearchState D))
  | 0, _ => pure .exhausted
  | fuel + 1, state =>
      match topOf nearer state.candidates with
      | none => pure (.hits state)
      | some current =>
          let state := { state with candidates := state.candidates.erase current }
          if (topOf farther state.nearest).any fun worst => decide (worst.1 < current.1) then
            pure (.hits state)
          else do
            let neighborList ← getEdges current.2
            let (visited, unvisitedIds) := visitNew state.visited neighborList
            let vectors ← readAll unvisitedIds
            match vectors with
            | none => pure .threw
            | some vectors =>
                searchLoop fuel
                  (vectors.foldl (considerNeighbor metric query efSearch)
                    { state with visited := visited })

def searchLayer (fuel : Nat) (entryPointId : Nat) :
    Prog V Row (SearchEnd (List (D × Nat))) := do
  let entry ← readVector entryPointId
  match entry with
  | none => pure .threw
  | some vector => do
      let d := metric.distance query vector
      let found ← searchLoop metric query efSearch fuel
        ⟨[entryPointId], [(d, entryPointId)], [(d, entryPointId)]⟩
      pure (found.map fun state => metric.sort state.nearest)

end Unfiltered

/-- The first `k` results that are not tombstoned. -/
def dropTombstoned (k : Nat) : List (D × Nat) → List (D × Nat) →
    Prog V Row (List (D × Nat))
  | filtered, [] => pure filtered
  | filtered, result :: results => do
      let dead ← isTombstoned result.2
      bif dead then dropTombstoned k filtered results
      else if k ≤ (filtered ++ [result]).length then pure (filtered ++ [result])
      else dropTombstoned k (filtered ++ [result]) results

/-- `descent` is where the greedy search of the upper layers ends. -/
def knnSearchK (metric : Metric V D) (descent : Nat → Nat) (fuel : Nat) (query : V)
    (k efSearch : Int) : Prog V Row (SearchEnd (List (D × Nat))) := do
  let ep ← loadEntryPoint
  match ep with
  | none => pure (.hits [])
  | some ep => do
      let neighbors ← searchLayer metric query (max efSearch k).toNat fuel (descent ep)
      match neighbors with
      | .hits results => do
          let filtered ← dropTombstoned k.toNat [] results
          pure (.hits filtered)
      | other => pure other

/-- Translate internal ids to caller ids, `limit` of them at most. -/
def translate (limit : Option Nat) : List (D × Nat) → List (D × Nat) →
    Prog V Row (List (D × Nat))
  | out, [] => pure out
  | out, result :: results => do
      let dead ← isTombstoned result.2
      bif dead then translate limit out results
      else do
        let id ← resolveReal result.2
        if limit.any fun k => decide (k ≤ (out ++ [(result.1, id)]).length) then
          pure (out ++ [(result.1, id)])
        else translate limit (out ++ [(result.1, id)]) results

def searchUnfilteredDense (metric : Metric V D) (descent : Nat → Nat) (fuel : Nat)
    (query : V) (k efSearch : Int) : Prog V Row (SearchEnd (List (D × Nat))) :=
  if k ≤ 0 then pure .invalidArgument
  else do
    let results ← knnSearchK metric descent fuel query k efSearch
    match results with
    | .hits results => do
        let out ← translate (some k.toNat) [] results
        pure (.hits out)
    | other => pure other

end AsterVec.Dense

import AsterVec.DenseSearch

/-!
The filtered layer-0 search.  Every node routes, and only those whose payload passes
the filter become results.
-/

namespace AsterVec.Dense

open AsterVec.Programs
open Prog

variable {V Row D : Type} [LinearOrder D]

/-- A filter that was accepted, with the payload of an id without a row. -/
structure Filter (Row : Type) where
  pred : Row → Bool
  emptyObject : Row

/-- The filter over the row of a node. -/
def Filter.matchesRow (filter : Filter Row) (row : Option Row) : Bool :=
  filter.pred (row.getD filter.emptyObject)

structure ScanState (D : Type) where
  visited : List Nat
  candidates : List (D × Nat)
  results : List (D × Nat)
  scanned : Nat

/-- The results of a scan, and whether it stopped at its cap. -/
structure Scan (D : Type) where
  results : List (D × Nat)
  capHit : Bool
deriving DecidableEq

section Filtered

variable (metric : Metric V D) (query : V) (k : Nat) (filter : Filter Row)

/-- A neighbor that was not visited before, with its vector and its row. -/
def visitNeighbor (state : ScanState D) (nb : Nat) (vector : V) (row : Option Row) :
    ScanState D :=
  let d := metric.distance query vector
  let room := admits k state.results d
  { visited := state.visited ++ [nb]
    candidates := if room then state.candidates ++ [(d, nb)] else state.candidates
    results :=
      if filter.matchesRow row && room then pushCapped k (d, nb) state.results
      else state.results
    scanned := state.scanned + 1 }

/-- Visit the neighbors of a node; `none` when a vector is missing. -/
def scanNeighbors : List Nat → ScanState D → Prog V Row (Option (ScanState D))
  | [], state => pure (some state)
  | nb :: neighbors, state =>
      if state.visited.contains nb then scanNeighbors neighbors state
      else do
        let vector ← readVector nb
        match vector with
        | none => pure none
        | some vector => do
            let row ← getRow nb
            scanNeighbors neighbors
              (visitNeighbor metric query k filter state nb vector row)

/-- The loop of the filtered `searchLayer`, for `fuel` candidates. -/
def scanLoop (maxScan : Nat) : Nat → ScanState D → Prog V Row (SearchEnd (Scan D))
  | 0, _ => pure .exhausted
  | fuel + 1, state =>
      match topOf nearer state.candidates with
      | none => pure (.hits ⟨state.results, false⟩)
      | some current =>
          let state := { state with candidates := state.candidates.erase current }
          if decide (k ≤ state.results.length) &&
              (topOf farther state.results).any (fun worst => decide (worst.1 < current.1)) then
            pure (.hits ⟨state.results, false⟩)
          else if maxScan ≤ state.scanned then pure (.hits ⟨state.results, true⟩)
          else do
            let neighborList ← getEdges current.2
            let scanned ← scanNeighbors metric query k filter neighborList state
            match scanned with
            | none => pure .threw
            | some state => scanLoop maxScan fuel state

/-- The cap: `max_scan_candidates`, or 50 for every result when it is not positive. -/
def scanCap (maxScanCandidates : Int) : Nat :=
  if maxScanCandidates ≤ 0 then k * 50 else maxScanCandidates.toNat

def searchLayerFiltered (maxScanCandidates : Int) (fuel entryPointId : Nat) :
    Prog V Row (SearchEnd (Scan D)) := do
  let entry ← readVector entryPointId
  match entry with
  | none => pure .threw
  | some vector => do
      let d := metric.distance query vector
      let row ← getRow entryPointId
      let found ← scanLoop metric query k filter (scanCap k maxScanCandidates) fuel
        { visited := [entryPointId]
          candidates := [(d, entryPointId)]
          results := if filter.matchesRow row then [(d, entryPointId)] else []
          scanned := 0 }
      pure (found.map fun scan => { scan with results := metric.sort scan.results })

end Filtered

/-- `descent` is where the greedy search of the upper layers ends. -/
def knnSearchKFiltered (metric : Metric V D) (descent : Nat → Nat) (fuel : Nat) (query : V)
    (k : Nat) (filter : Filter Row) (maxScanCandidates : Int) :
    Prog V Row (SearchEnd (Scan D)) := do
  let ep ← loadEntryPoint
  match ep with
  | none => pure (.hits ⟨[], false⟩)
  | some ep => searchLayerFiltered metric query k filter maxScanCandidates fuel (descent ep)

/-- A search with a filter that is neither blank nor the empty object. -/
def searchDense (metric : Metric V D) (descent : Nat → Nat) (fuel : Nat) (query : V)
    (k : Int) (filter : Filter Row) (maxScanCandidates : Int) :
    Prog V Row (SearchEnd (Scan D)) :=
  if k ≤ 0 then pure .invalidArgument
  else do
    let results ← knnSearchKFiltered metric descent fuel query k.toNat filter
      maxScanCandidates
    match results with
    | .hits scan => do
        let out ← translate none [] scan.results
        pure (.hits ⟨out, scan.capHit⟩)
    | other => pure other

end AsterVec.Dense

import AsterVec.DenseSearch
import Mathlib.Data.List.AList
import Mathlib.Logic.Relation

/-!
The greedy walk on an upper layer.  The current node changes while the list of an earlier one is
scanned; every change brings the walk nearer to the query, and the last scan is that of the node
that is returned.
-/

namespace AsterVec.GreedyDescent

open AsterVec.Dense (SearchEnd)

/-- What the walk does with floats: the value of a byte of a quantized vector, and the distance
of two vectors of one dimension. -/
structure Arithmetic (F D : Type) where
  dequantize : F → F → UInt8 → F
  distance : List F → List F → D

/-- A node; its vector is stored as floats or quantized, or not at all. -/
structure Node (F : Type) where
  point : List F
  q8Data : List UInt8
  qMin : F
  qMax : F
  neighbors : Nat → Option (List Nat)

abbrev Nodes (F : Type) := AList fun _ : Nat => Node F

variable {F D : Type} [LinearOrder D] (ops : Arithmetic F D)

def nodePointView (n : Node F) : List F :=
  if n.point.isEmpty then n.q8Data.map (ops.dequantize n.qMin n.qMax) else n.point

/-- `none` when the dimensions differ, which throws. -/
def computeDistance (a b : List F) : Option D :=
  if a.length ≠ b.length then none else some (ops.distance a b)

variable (nodes : Nodes F) (query : List F) (layer : Nat)

/-- The scan of a list: the best distance, the current node and whether it has improved. -/
def scan : List Nat → D × Nat × Bool → Option (D × Nat × Bool)
  | [], best => some best
  | neighborId :: rest, best =>
      match nodes.lookup neighborId with
      | none => scan rest best
      | some node =>
          if (nodePointView ops node).isEmpty then scan rest best
          else
            match computeDistance ops query (nodePointView ops node) with
            | none => none
            | some d => scan rest (if d < best.1 then (d, neighborId, true) else best)

def greedyLoop : Nat → D → Nat → SearchEnd Nat
  | 0, _, _ => .exhausted
  | fuel + 1, bestDist, current =>
      match (nodes.lookup current).bind fun node => node.neighbors layer with
      | none => .hits current
      | some snapshot =>
          match scan ops nodes query snapshot (bestDist, current, false) with
          | none => .threw
          | some (bestDist, current, improved) =>
              if improved then greedyLoop fuel bestDist current else .hits current

def greedySearchUpperLayer (fuel entryPoint : Nat) : SearchEnd Nat :=
  match nodes.lookup entryPoint with
  | none => .hits entryPoint
  | some node =>
      match computeDistance ops query (nodePointView ops node) with
      | none => .threw
      | some bestDist => greedyLoop ops nodes query layer fuel bestDist entryPoint

/-! The walk -/

/-- The distance of a node in the map. -/
def nodeDistance (node : Node F) : D := ops.distance query (nodePointView ops node)

/-- A list of the layer leads from one node to the other. -/
def LayerEdge (v w : Nat) : Prop :=
  ∃ node list, nodes.lookup v = some node ∧ node.neighbors layer = some list ∧ w ∈ list

/-- Some vector of a node has another dimension than the query. -/
def Mismatch : Prop :=
  ∃ v node, nodes.lookup v = some node ∧ nodePointView ops node ≠ [] ∧
    (nodePointView ops node).length ≠ query.length

/-- No neighbor with a vector is nearer than the node. -/
def LocalMinimum (v : Nat) (node : Node F) : Prop :=
  ∀ w near, LayerEdge nodes layer v w → nodes.lookup w = some near →
    nodePointView ops near ≠ [] → ¬ nodeDistance ops query near < nodeDistance ops query node

/-- The nodes below a distance. -/
def nearer (d : D) : Nat :=
  nodes.entries.countP fun entry => nodeDistance ops query entry.2 < d

variable {ops nodes query layer}

theorem computeDistance_eq {pt : List F} (hlength : pt.length = query.length) :
    computeDistance ops query pt = some (ops.distance query pt) := by
  rw [computeDistance, if_neg (not_not.mpr hlength.symm)]

theorem nearer_le (d : D) : nearer ops nodes query d ≤ nodes.entries.length :=
  List.countP_le_length

/-- Below the distance of a node there are fewer nodes than below any larger one. -/
theorem nearer_lt {v : Nat} {node : Node F} {d : D} (hnode : nodes.lookup v = some node)
    (hlt : nodeDistance ops query node < d) :
    nearer ops nodes query (nodeDistance ops query node) < nearer ops nodes query d := by
  obtain ⟨before, after, hentries⟩ := List.append_of_mem (AList.mem_lookup_iff.mp hnode)
  have hmono : ∀ l : List (Sigma fun _ : Nat => Node F),
      (l.countP fun entry => nodeDistance ops query entry.2 < nodeDistance ops query node) ≤
        l.countP fun entry => nodeDistance ops query entry.2 < d := by
    intro l
    refine List.countP_mono_left fun entry _ hentry => ?_
    exact decide_eq_true ((of_decide_eq_true hentry).trans hlt)
  have hbefore := hmono before
  have hafter := hmono after
  unfold nearer
  rw [hentries, List.countP_append, List.countP_append, List.countP_cons_of_neg (by simp),
    List.countP_cons_of_pos (by simpa using hlt)]
  omega

/-- What a scan has found: nothing new, or a node of the list that is nearer than the best
before. -/
structure Scanned (ops : Arithmetic F D) (nodes : Nodes F) (query : List F) (list : List Nat)
    (best found : D × Nat × Bool) : Prop where
  changed : found = best ∨
    found.2.2 = true ∧ found.1 < best.1 ∧ found.2.1 ∈ list ∧
      ∃ node, nodes.lookup found.2.1 = some node ∧ nodeDistance ops query node = found.1
  least : ∀ w ∈ list, ∀ near, nodes.lookup w = some near → nodePointView ops near ≠ [] →
    found.1 ≤ nodeDistance ops query near

theorem Scanned.le {list : List Nat} {best found : D × Nat × Bool}
    (hscanned : Scanned ops nodes query list best found) : found.1 ≤ best.1 := by
  rcases hscanned.changed with rfl | ⟨-, hlt, -⟩
  · exact le_rfl
  · exact hlt.le

/-- One neighbor more in front of a scanned list. -/
theorem Scanned.cons {v : Nat} {list : List Nat} {best next found : D × Nat × Bool}
    (hscanned : Scanned ops nodes query list next found)
    (hnext : next = best ∨
      next.2.2 = true ∧ next.1 < best.1 ∧ next.2.1 = v ∧
        ∃ node, nodes.lookup v = some node ∧ nodeDistance ops query node = next.1)
    (hleast : ∀ near, nodes.lookup v = some near → nodePointView ops near ≠ [] →
      next.1 ≤ nodeDistance ops query near) :
    Scanned ops nodes query (v :: list) best found := by
  have hle : next.1 ≤ best.1 := by
    rcases hnext with rfl | ⟨-, hlt, -⟩
    · exact le_rfl
    · exact hlt.le
  refine ⟨?_, ?_⟩
  · rcases hscanned.changed with rfl | ⟨himproved, hlt, hmem, hnode⟩
    · refine hnext.imp_right ?_
      rintro ⟨himproved, hlt, hv, hnode⟩
      exact ⟨himproved, hlt, hv ▸ List.mem_cons_self, by rwa [hv]⟩
    · exact .inr ⟨himproved, hlt.trans_le hle, List.mem_cons_of_mem _ hmem, hnode⟩
  · intro w hw near hnear hview
    rcases List.mem_cons.mp hw with rfl | hw
    · exact hscanned.le.trans (hleast near hnear hview)
    · exact hscanned.least w hw near hnear hview

/-- A scan throws where a vector has another dimension, and looks at the whole list otherwise. -/
theorem scan_cases (list : List Nat) (best : D × Nat × Bool) :
    (scan ops nodes query list best = none ∧ Mismatch ops nodes query) ∨
      ∃ found, scan ops nodes query list best = some found ∧
        Scanned ops nodes query list best found := by
  induction list generalizing best with
  | nil =>
      refine .inr ⟨best, rfl, .inl rfl, fun w hw => ?_⟩
      cases hw
  | cons v rest ih =>
      unfold scan
      cases hnode : nodes.lookup v with
      | none =>
          simp only
          refine (ih best).imp_right ?_
          rintro ⟨found, hfound, hscanned⟩
          refine ⟨found, hfound, hscanned.cons (.inl rfl) fun near hnear => ?_⟩
          rw [hnode] at hnear
          cases hnear
      | some node =>
          simp only
          by_cases hempty : nodePointView ops node = []
          · rw [if_pos (List.isEmpty_iff.mpr hempty)]
            refine (ih best).imp_right ?_
            rintro ⟨found, hfound, hscanned⟩
            refine ⟨found, hfound, hscanned.cons (.inl rfl) fun near hnear hview => ?_⟩
            rw [hnode] at hnear
            cases hnear
            exact absurd hempty hview
          · rw [if_neg (mt List.isEmpty_iff.mp hempty)]
            by_cases hlength : (nodePointView ops node).length = query.length
            · rw [computeDistance_eq hlength]
              refine (ih _).imp_right ?_
              rintro ⟨found, hfound, hscanned⟩
              refine ⟨found, hfound, hscanned.cons ?_ fun near hnear _ => ?_⟩
              · split
                · rename_i hlt
                  exact .inr ⟨rfl, hlt, rfl, node, hnode, rfl⟩
                · exact .inl rfl
              · rw [hnode] at hnear
                cases hnear
                split
                · exact le_rfl
                · rename_i hge
                  exact not_lt.mp hge
            · refine .inl ⟨?_, v, node, hnode, hempty, hlength⟩
              rw [computeDistance, if_pos (Ne.symm hlength)]

/-- The end of a walk from a node: a vector of another dimension, or a local minimum. -/
def Ends (ops : Arithmetic F D) (nodes : Nodes F) (query : List F) (layer : Nat) (start : Nat)
    (d : D) (out : SearchEnd Nat) : Prop :=
  out = .threw ∧ Mismatch ops nodes query ∨
    ∃ v node, out = .hits v ∧ nodes.lookup v = some node ∧
      Relation.ReflTransGen (LayerEdge nodes layer) start v ∧ nodeDistance ops query node ≤ d ∧
      LocalMinimum ops nodes query layer v node

theorem greedyLoop_ends {fuel current : Nat} {node : Node F}
    (hnode : nodes.lookup current = some node)
    (hfuel : nearer ops nodes query (nodeDistance ops query node) < fuel) :
    Ends ops nodes query layer current (nodeDistance ops query node)
      (greedyLoop ops nodes query layer fuel (nodeDistance ops query node) current) := by
  induction fuel generalizing current node with
  | zero => omega
  | succ fuel ih =>
      unfold greedyLoop
      rw [hnode, Option.bind_some]
      cases hlist : node.neighbors layer with
      | none =>
          refine .inr ⟨current, node, rfl, hnode, .refl, le_rfl, ?_⟩
          rintro w near ⟨node', list, hnode', hlist', -⟩
          rw [hnode] at hnode'
          cases hnode'
          rw [hlist] at hlist'
          cases hlist'
      | some snapshot =>
          simp only
          rcases scan_cases snapshot (nodeDistance ops query node, current, false) with
            ⟨hscan, hmismatch⟩ | ⟨⟨d, v, improved⟩, hscan, hscanned⟩
          · rw [hscan]
            exact .inl ⟨rfl, hmismatch⟩
          · rw [hscan]
            rcases hscanned.changed with heq | ⟨himproved, hlt, hmem, next, hnext, hdistance⟩
            · cases heq
              refine .inr ⟨current, node, rfl, hnode, .refl, le_rfl, ?_⟩
              rintro w near ⟨node', list, hnode', hlist', hw⟩ hnear hview
              rw [hnode] at hnode'
              cases hnode'
              rw [hlist] at hlist'
              cases hlist'
              exact not_lt.mpr (hscanned.least w hw near hnear hview)
            · simp only at himproved hlt hmem hnext hdistance
              subst himproved hdistance
              have hfewer := nearer_lt hnext hlt
              simp only [if_true]
              rcases ih hnext (by omega) with hthrew | ⟨w, last, hout, hlast, hreach, hle, hmin⟩
              · exact .inl hthrew
              · refine .inr ⟨w, last, hout, hlast, ?_, hle.trans hlt.le, hmin⟩
                exact .head ⟨node, snapshot, hnode, hlist, hmem⟩ hreach

/-- The walk ends.  It throws when it reads a vector of another dimension than the query; else it
returns a local minimum that it has reached from its entry point. -/
theorem greedySearchUpperLayer_ends (ops : Arithmetic F D) (nodes : Nodes F) (query : List F)
    (layer entryPoint : Nat) (entry : Node F) (hentry : nodes.lookup entryPoint = some entry)
    (fuel : Nat) (hfuel : nodes.entries.length < fuel) :
    greedySearchUpperLayer ops nodes query layer fuel entryPoint = .threw ∧
        ((nodePointView ops entry).length ≠ query.length ∨ Mismatch ops nodes query) ∨
      ∃ v node, greedySearchUpperLayer ops nodes query layer fuel entryPoint = .hits v ∧
        nodes.lookup v = some node ∧
        Relation.ReflTransGen (LayerEdge nodes layer) entryPoint v ∧
        nodeDistance ops query node ≤ nodeDistance ops query entry ∧
        LocalMinimum ops nodes query layer v node := by
  unfold greedySearchUpperLayer
  rw [hentry]
  by_cases hlength : (nodePointView ops entry).length = query.length
  · simp only [computeDistance_eq hlength]
    refine (greedyLoop_ends hentry ((nearer_le _).trans_lt hfuel)).imp_left ?_
    exact fun hthrew => ⟨hthrew.1, .inr hthrew.2⟩
  · refine .inl ⟨?_, .inl hlength⟩
    simp only [computeDistance]
    rw [if_pos (Ne.symm hlength)]

/-- Numbers as vectors of dimension one. -/
def numbers : Arithmetic Nat Nat where
  dequantize _ _ code := code.toNat
  distance a b := (b.headD 0 - a.headD 0) + (a.headD 0 - b.headD 0)

def vertex (point : List Nat) (list : List Nat) : Node Nat :=
  ⟨point, [], 0, 0, fun _ => some list⟩

/-- A cycle with a self link, a duplicate and an unknown id. -/
def cycle : Nodes Nat :=
  ((∅ : Nodes Nat).insert 2 (vertex [3] [1])).insert 1 (vertex [5] [1, 9, 2, 2])

theorem greedySearchUpperLayer_cycle :
    greedySearchUpperLayer numbers cycle [0] 1 3 1 = .threw ∧
        ((nodePointView numbers (vertex [5] [1, 9, 2, 2])).length ≠ 1 ∨
          Mismatch numbers cycle [0]) ∨
      ∃ v node, greedySearchUpperLayer numbers cycle [0] 1 3 1 = .hits v ∧
        cycle.lookup v = some node ∧ Relation.ReflTransGen (LayerEdge cycle 1) 1 v ∧
        nodeDistance numbers [0] node ≤ nodeDistance numbers [0] (vertex [5] [1, 9, 2, 2]) ∧
        LocalMinimum numbers cycle [0] 1 v node :=
  greedySearchUpperLayer_ends numbers cycle [0] 1 1 _ rfl 3 (by decide)

/-- An entry point without a vector is compared with the query all the same. -/
theorem greedySearchUpperLayer_throws :
    ¬ ∀ (ops : Arithmetic Nat Nat) (nodes : Nodes Nat) (query : List Nat)
      (layer entryPoint : Nat) (entry : Node Nat), nodes.lookup entryPoint = some entry →
      ∃ fuel v node, greedySearchUpperLayer ops nodes query layer fuel entryPoint = .hits v ∧
        nodes.lookup v = some node ∧
        Relation.ReflTransGen (LayerEdge nodes layer) entryPoint v ∧
        nodeDistance ops query node ≤ nodeDistance ops query entry ∧
        LocalMinimum ops nodes query layer v node := by
  intro hall
  obtain ⟨fuel, v, node, hits, -⟩ :=
    hall numbers ((∅ : Nodes Nat).insert 1 (vertex [] [])) [0] 1 1 (vertex [] []) rfl
  cases hits

end AsterVec.GreedyDescent

import AsterVec.BulkBuildSteps

/-!
What a build that did not return OK leaves.  The store is empty and usable when the checks
refused the call, or when the process was gone before the keys and the checkpoint were in
storage and the graph forgets the edges that were.
-/

namespace AsterVec.BulkBuild

open AsterVec.IdTypes
open AsterVec.KeyMap
open AsterVec.PointIds

variable {F : Type} {graph : GraphStore} {cfg : Config} {st : Store F}

/-- What can be reached from the entry point. -/
inductive Reaches (st : Store F) : Nat → Prop where
  | entry {u : Nat} (hentry : st.index.entryPoint = some u) : Reaches st u
  | edge {u v : Nat} (hu : Reaches st u) (hv : v ∈ st.disk.graph u) : Reaches st v
  | upper {u v : Nat} {links : List (List Nat)} {layer : List Nat} (hu : Reaches st u)
      (hlinks : st.index.nodes u = some links) (hlayer : layer ∈ links) (hv : v ∈ layer) :
      Reaches st v

/-- The stores have the same entry point, and reach the same nodes with the same vectors
and neighbors. -/
structure SameReachable (a b : Store F) : Prop where
  entryPoint : a.index.entryPoint = b.index.entryPoint
  maxLayer : a.index.maxLayer = b.index.maxLayer
  reaches : ∀ u, Reaches a u ↔ Reaches b u
  nodes : ∀ u, Reaches a u → a.index.nodes u = b.index.nodes u
  vectors : ∀ u, Reaches a u → a.index.vectors u = b.index.vectors u
  edges : ∀ u, Reaches a u → a.disk.graph u = b.disk.graph u

/-- What the claim asks of a store: it has no vectors, and a build that a new store takes
does the same to it. -/
structure EmptyAndUsable (graph : GraphStore) (cfg : Config) (st : Store F) : Prop where
  count : vectorCount st = 0
  get : ∀ id, resolveId cfg st id = .notFound ∨ (∃ text, resolveId cfg st id =
    .invalidArgument text) ∨ ∃ dense, resolveId cfg st id = .ok dense ∧
      ∀ (Row : Type) (rows : Nat → Option Row),
        ((Dense.getDense dense).run Dense.exec (st.dense rows)).1 = .notFound
  search : ∀ (Row D : Type) [LinearOrder D] (rows : Nat → Option Row)
    (metric : Dense.Metric (List F) D) (descent : Nat → Nat) (fuel : Nat) (query : List F)
    (k efSearch : Int), 0 < k →
      ((Dense.searchUnfilteredDense metric descent fuel query k efSearch).run Dense.exec
        (st.dense rows)).1 = .hits []
  searchFiltered : ∀ (Row D : Type) [LinearOrder D] (rows : Nat → Option Row)
    (metric : Dense.Metric (List F) D) (descent : Nat → Nat) (fuel : Nat) (query : List F)
    (k : Int) (filter : Dense.Filter Row) (maxScan : Int), 0 < k →
      ((Dense.searchDense metric descent fuel query k filter maxScan).run Dense.exec
        (st.dense rows)).1 = .hits ⟨[], false⟩
  rebuild : ∀ (args : Args F) (drawn : Drawn args.n) (keys : List (Key × Nat)),
    check cfg args (.fresh F) = .ok keys → ∃ a b,
      bulkBuildImpl graph cfg args drawn none st = .returned .ok a ∧
        bulkBuildImpl graph cfg args drawn none (.fresh F) = .returned .ok b ∧
        SameReachable a b ∧ a.disk.ids = b.disk.ids

/-- A store without vectors; what the graph has is forgotten when vertices are added. -/
structure Empty (graph : GraphStore) (st : Store F) : Prop where
  index : st.index = .empty F
  liveCount : st.liveCount = 0
  nextDenseId : st.nextDenseId = 0
  ids : st.disk.ids = []
  main : st.disk.main.index = .empty F
  count : st.disk.main.liveCount.getD (st.disk.vectorCount.getD 0) = 0
  forgets : ∀ u, graph.addVertex (st.disk.graph u) = []

theorem addVertex_nil (graph : GraphStore) : graph.addVertex [] = [] :=
  List.eq_nil_iff_forall_not_mem.mpr fun _ hv => nomatch graph.mem_addVertex hv

theorem empty_fresh (graph : GraphStore) : Empty graph (.fresh F) :=
  ⟨rfl, rfl, rfl, rfl, rfl, rfl, fun _ => addVertex_nil graph⟩

/-! Runs of steps -/

/-- The state after steps that all took effect. -/
def after (graph : GraphStore) (steps : List (Step F)) (st : Store F) : Store F :=
  steps.foldl (fun st step => step.exec graph st) st

theorem run_none (workers : Bool) (steps : List (Step F)) (st : Store F) :
    run graph workers steps none st = .returned .ok (after graph steps st) := by
  induction steps generalizing st with
  | nil => rfl
  | cons step steps ih => exact ih _

/-- The process is gone at a fault: it is killed, or a worker thread throws. -/
def Fault.Ends (workers : Bool) (steps : List (Step F)) (fault : Fault) : Prop :=
  ∃ step, steps[fault.step]? = some step ∧
    (fault.kill = true ∨ step.onFailure workers = .terminates)

/-- The steps that took effect. -/
def Fault.taken (fault : Fault) (steps : List (Step F)) : List (Step F) :=
  steps.take (fault.step + fault.applied.toNat)

/-- How a run with a fault ends. -/
theorem run_some (graph : GraphStore) (workers : Bool) (steps : List (Step F))
    (fault : Fault) (st : Store F) :
    (fault.Ends workers steps ∧ run graph workers steps (some fault) st =
        .killed (after graph (fault.taken steps) st).disk) ∨
      (¬ fault.Ends workers steps ∧
        ((∃ left, run graph workers steps (some fault) st = .returned .ok left) ∨
          (∃ step, steps[fault.step]? = some step ∧ step.onFailure workers = .returns) ∧
            run graph workers steps (some fault) st =
              .returned .ioError (after graph (fault.taken steps) st))) := by
  obtain ⟨n, kill, applied⟩ := fault
  induction steps generalizing n st with
  | nil =>
      refine .inr ⟨?_, .inl ⟨st, by rw [run]⟩⟩
      rintro ⟨step, hstep, -⟩
      cases hstep
  | cons step steps ih =>
      cases n with
      | succ n =>
          have hrest := ih (step.exec graph st) n
          have htaken : (⟨n + 1, kill, applied⟩ : Fault).taken (step :: steps) =
              step :: (⟨n, kill, applied⟩ : Fault).taken steps := by
            simp only [Fault.taken, Nat.add_right_comm, List.take_succ_cons]
          rw [htaken]
          exact hrest
      | zero =>
          have hleft : after graph ((⟨0, kill, applied⟩ : Fault).taken (step :: steps)) st =
              if applied then step.exec graph st else st := by
            cases applied <;> rfl
          rw [hleft]
          have hends : (⟨0, kill, applied⟩ : Fault).Ends workers (step :: steps) ↔
              kill = true ∨ step.onFailure workers = .terminates := by
            simp [Fault.Ends]
          rw [hends, run]
          cases kill with
          | true => exact .inl ⟨.inl rfl, rfl⟩
          | false =>
              cases hfails : step.onFailure workers with
              | returns => exact .inr ⟨by simp, .inr ⟨⟨step, rfl, hfails⟩, rfl⟩⟩
              | terminates => exact .inl ⟨.inr rfl, rfl⟩
              | ignored => exact .inr ⟨by simp, .inl ⟨_, run_none _ _ _⟩⟩
              | never => exact .inr ⟨by simp, .inl ⟨_, run_none _ _ _⟩⟩

/-! What steps leave alone -/

theorem after_append (a b : List (Step F)) (st : Store F) :
    after graph (a ++ b) st = after graph b (after graph a st) :=
  List.foldl_append

theorem after_index (steps : List (Step F)) (st : Store F) :
    (after graph steps st).index = steps.foldl (fun x step => step.index x) st.index := by
  induction steps generalizing st with
  | nil => rfl
  | cons step steps ih => exact ih _

theorem disk_graph (step : Step F) (st : Store F) (u : Nat) :
    (step.disk graph st).graph u = step.edgesAt graph u (st.disk.graph u) := by
  cases step <;> rfl

theorem disk_ids (step : Step F) (st : Store F) :
    (step.disk graph st).ids = step.ids st.disk.ids := by
  cases step <;> rfl

theorem after_graph (steps : List (Step F)) (st : Store F) (u : Nat) :
    (after graph steps st).disk.graph u =
      steps.foldl (fun list step => step.edgesAt graph u list) (st.disk.graph u) := by
  induction steps generalizing st with
  | nil => rfl
  | cons step steps ih =>
      change (after graph steps (step.exec graph st)).disk.graph u = _
      rw [ih, List.foldl_cons, ← disk_graph step st u]
      rfl

theorem after_ids (steps : List (Step F)) (st : Store F) :
    (after graph steps st).disk.ids =
      steps.foldl (fun entries step => step.ids entries) st.disk.ids := by
  induction steps generalizing st with
  | nil => rfl
  | cons step steps ih =>
      change (after graph steps (step.exec graph st)).disk.ids = _
      rw [ih, List.foldl_cons, ← disk_ids step st]
      rfl

/-- The steps that a kill does not undo: the keys, and the checkpoint. -/
def Step.kept : Step F → Bool
  | .putKeys _ | .rename => true
  | _ => false

/-- Without keys and a new checkpoint, a kill leaves the old ones. -/
theorem after_unkept (graph : GraphStore) {steps : List (Step F)}
    (hkept : ∀ step ∈ steps, step.kept = false)
    (hcount : ∀ step ∈ steps, step ≠ .persistCount) (st : Store F) :
    (after graph steps st).disk.ids = st.disk.ids ∧
      (after graph steps st).disk.main = st.disk.main ∧
      (after graph steps st).disk.vectorCount = st.disk.vectorCount := by
  induction steps generalizing st with
  | nil => exact ⟨rfl, rfl, rfl⟩
  | cons step steps ih =>
      rw [List.forall_mem_cons] at hkept hcount
      obtain ⟨hids, hmain, hvectorCount⟩ := ih hkept.2 hcount.2 (step.exec graph st)
      have hstep : (step.disk graph st).ids = st.disk.ids ∧
          (step.disk graph st).main = st.disk.main ∧
          (step.disk graph st).vectorCount = st.disk.vectorCount := by
        cases step with
        | putKeys | rename => cases hkept.1
        | persistCount => exact absurd rfl hcount.1
        | _ => exact ⟨rfl, rfl, rfl⟩
      exact ⟨hids.trans hstep.1, hmain.trans hstep.2.1, hvectorCount.trans hstep.2.2⟩

theorem ids_unkept {steps : List (Step F)} (hkeys : ∀ step ∈ steps, ∀ items,
    step ≠ .putKeys items) (st : Store F) :
    (after graph steps st).disk.ids = st.disk.ids := by
  induction steps generalizing st with
  | nil => rfl
  | cons step steps ih =>
      rw [List.forall_mem_cons] at hkeys
      have hstep : (step.disk graph st).ids = st.disk.ids := by
        cases step with
        | putKeys items => exact absurd rfl (hkeys.1 items)
        | _ => rfl
      exact (ih hkeys.2 _).trans hstep

theorem entryPoint_index (step : Step F) {x : Index F} (hx : x.entryPoint.isSome) :
    (step.index x).entryPoint.isSome := by
  cases step with
  | storeEntryPoint => rfl
  | _ => exact hx

theorem entryPoint_foldl {steps : List (Step F)} {x : Index F} (hx : x.entryPoint.isSome) :
    (steps.foldl (fun x step => step.index x) x).entryPoint.isSome := by
  induction steps generalizing x with
  | nil => exact hx
  | cons step steps ih => exact ih (entryPoint_index step hx)

/-- A part of a list that has `x`, which comes no earlier than `y`, has all up to `y`. -/
theorem take_split {α : Type} {before rest : List α} {x y : α} {m : Nat}
    (hx : x ∈ (before ++ y :: rest).take m) (hbefore : x ∉ before) :
    ∃ j, (before ++ y :: rest).take m = before ++ y :: rest.take j := by
  rw [List.take_append] at hx ⊢
  have hrest : x ∈ (y :: rest).take (m - before.length) :=
    (List.mem_append.mp hx).resolve_left fun h => hbefore (List.mem_of_mem_take h)
  obtain ⟨j, hj⟩ : ∃ j, m - before.length = j + 1 := by
    cases hm : m - before.length with
    | zero =>
        rw [hm] at hrest
        cases hrest
    | succ j => exact ⟨j, rfl⟩
  refine ⟨j, ?_⟩
  rw [hj, List.take_of_length_le (by omega), List.take_succ_cons]

/-! The steps of a build -/

section Steps

variable {args : Args F} {drawn : Drawn args.n} {keys : List (Key × Nat)}

theorem kept_bulkBuild {step : Step F} (hstep : step ∈ bulkBuild cfg args drawn) :
    step.kept = false := by
  simp only [bulkBuild, bulkLoadLayer0, List.mem_append, List.mem_cons, List.mem_map,
    List.not_mem_nil, or_false] at hstep
  rcases hstep with (rfl | rfl | rfl | rfl) | (⟨_, -, rfl⟩ | ⟨_, -, rfl⟩) | ⟨_, -, rfl⟩ <;> rfl

/-- The steps before the checkpoint. -/
def written (cfg : Config) (args : Args F) (drawn : Drawn args.n)
    (keys : List (Key × Nat)) : List (Step F) :=
  bulkBuild cfg args drawn ++ [.storeLiveCount args.n] ++
    (if cfg.keyed then [.putKeys keys, .storeNextDenseId args.n] else [])

theorem liveCount_written (st : Store F) :
    (after graph (written cfg args drawn keys) st).liveCount = args.n := by
  rw [written, after_append, after_append]
  split <;> rfl

theorem rename_notMem_written : .rename ∉ written cfg args drawn keys := by
  intro hmem
  rw [written, List.mem_append, List.mem_append] at hmem
  rcases hmem with (hmem | hmem) | hmem
  · cases kept_bulkBuild hmem
  · simp at hmem
  · split at hmem <;> simp at hmem

theorem steps_renamed : steps cfg args drawn keys =
    (written cfg args drawn keys ++ [.syncData, .syncGraph, .syncWAL, .serializeMetadata,
      .fsyncTmp, .linkPrev]) ++ .rename :: [.fsyncDir, .persistCount] := by
  rw [List.append_assoc]
  rfl

/-- Once the checkpoint is there, so is the count. -/
theorem main_of_rename (graph : GraphStore) {m : Nat}
    (hmem : .rename ∈ (steps cfg args drawn keys).take m)
    (st : Store F) :
    (after graph ((steps cfg args drawn keys).take m) st).disk.main.liveCount =
      some (args.n : Int) := by
  rw [steps_renamed] at hmem ⊢
  obtain ⟨j, hj⟩ := take_split hmem fun h => (List.mem_append.mp h).elim
    rename_notMem_written (by simp)
  rw [hj, List.append_assoc, after_append]
  have hcount : (after graph (written cfg args drawn keys) st).liveCount = args.n :=
    liveCount_written st
  generalize after graph (written cfg args drawn keys) st = s at hcount
  rw [← hcount]
  rcases j with _ | _ | j
  · rfl
  · rfl
  · rw [List.take_succ_cons, List.take_succ_cons, List.take_nil]
    rfl

/-- Once the keys are there, they stay. -/
theorem ids_of_putKeys (graph : GraphStore) {m : Nat} {items : List (Key × Nat)}
    (hmem : .putKeys items ∈ (steps cfg args drawn keys).take m) (st : Store F) :
    cfg.keyed = true ∧ (after graph ((steps cfg args drawn keys).take m) st).disk.ids =
      putKeys keys st.disk.ids := by
  have hbefore : .putKeys items ∉ bulkBuild cfg args drawn ++ [.storeLiveCount args.n] := by
    intro h
    rcases List.mem_append.mp h with h | h
    · cases kept_bulkBuild h
    · simp at h
  cases hkeyed : cfg.keyed with
  | false =>
      have h := List.mem_of_mem_take hmem
      rw [steps, hkeyed, List.append_assoc] at h
      rcases List.mem_append.mp h with h | h
      · exact absurd h hbefore
      · simp [checkpointLocked] at h
  | true =>
      have hsteps : steps cfg args drawn keys =
          (bulkBuild cfg args drawn ++ [.storeLiveCount args.n]) ++
            .putKeys keys :: .storeNextDenseId args.n :: checkpointLocked := by
        rw [steps, hkeyed, List.append_assoc]
        rfl
      rw [hsteps] at hmem ⊢
      obtain ⟨j, hj⟩ := take_split hmem hbefore
      refine ⟨rfl, ?_⟩
      rw [hj, after_append]
      have hids : (after graph (bulkBuild cfg args drawn ++ [.storeLiveCount args.n]) st
          ).disk.ids = st.disk.ids := by
        apply ids_unkept
        rintro step hstep items rfl
        rcases List.mem_append.mp hstep with h | h
        · cases kept_bulkBuild h
        · simp at h
      rw [← hids]
      generalize after graph (bulkBuild cfg args drawn ++ [.storeLiveCount args.n]) st = s
      change (after graph (List.take j (.storeNextDenseId args.n :: checkpointLocked))
        (Step.exec graph (.putKeys keys) s)).disk.ids = _
      rw [ids_unkept]
      · rfl
      · rintro step hstep items rfl
        have h := List.mem_of_mem_take hstep
        simp [checkpointLocked] at h

/-- The entry point is published in the third step, and never again. -/
theorem steps_published (cfg : Config) (drawn : Drawn args.n) (keys : List (Key × Nat)) :
    ∃ nodes level rest, steps cfg args drawn keys =
        .publishNodes nodes :: .storeMaxLayer level ::
          .storeEntryPoint (entryNode drawn.levels args.n).2 :: rest ∧
        ∀ step ∈ rest, ∀ node, step ≠ .storeEntryPoint node := by
  refine ⟨_, _, _, rfl, ?_⟩
  rintro step hstep node rfl
  simp [bulkLoadLayer0, checkpointLocked] at hstep

/-- A storage call that fails is made after the entry point was published. -/
theorem entryPoint_of_failed (graph : GraphStore) {fault : Fault} {step : Step F}
    (hstep : (steps cfg args drawn keys)[fault.step]? = some step)
    (hfails : step.onFailure drawn.workers = .returns) (st : Store F) :
    (after graph (fault.taken (steps cfg args drawn keys)) st).index.entryPoint.isSome := by
  rw [after_index, Fault.taken]
  obtain ⟨nodes, level, rest, hsteps, -⟩ := steps_published cfg drawn keys
  rw [hsteps] at hstep ⊢
  obtain ⟨n, kill, applied⟩ := fault
  rcases n with _ | _ | _ | n
  · cases hstep
    cases hfails
  · cases hstep
    cases hfails
  · cases hstep
    cases hfails
  · have htaken : n + 1 + 1 + 1 + applied.toNat = n + applied.toNat + 3 := by omega
    simp only [htaken, List.take_succ_cons, List.foldl_cons]
    exact entryPoint_foldl rfl

end Steps

/-! A store without vectors -/

section Checks

variable {args : Args F} {keys : List (Key × Nat)}

theorem check_congr {a b : Store F} (hentry : a.index.entryPoint = b.index.entryPoint)
    (hnext : a.nextDenseId = b.nextDenseId) : check cfg args a = check cfg args b := by
  rw [check, check, hentry, hnext]

/-- What the checks ask of a call. -/
structure Checked (cfg : Config) (args : Args F) (st : Store F) (keys : List (Key × Nat)) :
    Prop where
  positive : 0 < args.points.n
  dim : cfg.dim ≠ 0
  length : args.floats.length = args.n * cfg.dim
  entryPoint : st.index.entryPoint = none
  nextDenseId : cfg.keyed = true → st.nextDenseId = 0
  keys : cfg.keyed = true → ∃ found, distinctKeys (args.points.ids.take args.n) [] =
    .ok found ∧ keys = found.zipIdx

theorem Checked.n_pos (hchecked : Checked cfg args st keys) : 0 < args.n := by
  have hpositive := hchecked.positive
  rw [Args.n]
  omega

theorem checked_of_check (hcheck : check cfg args st = .ok keys) :
    Checked cfg args st keys := by
  unfold check at hcheck
  split at hcheck
  · cases hcheck
  rename_i hpositive
  split at hcheck
  · cases hcheck
  split at hcheck
  · cases hcheck
  rename_i hdim
  split at hcheck
  · cases hcheck
  rename_i hlength
  split at hcheck
  · cases hcheck
  rename_i hempty
  simp only [Bool.or_eq_true, Bool.and_eq_true, bne_iff_ne, not_or, not_and, not_not,
    Option.not_isSome_iff_eq_none] at hempty
  refine ⟨not_le.mp hpositive, hdim, not_not.mp hlength, hempty.1, hempty.2, ?_⟩
  intro hkeyed
  rw [if_pos hkeyed] at hcheck
  cases hfound : distinctKeys (args.points.ids.take args.n) [] with
  | error text =>
      rw [hfound] at hcheck
      cases hcheck
  | ok found =>
      rw [hfound] at hcheck
      exact ⟨found, rfl, (Except.ok.inj hcheck).symm⟩

/-- A call that passes its checks on a store passes them on a new one. -/
theorem check_fresh (hempty : Empty graph st) :
    check cfg args st = check cfg args (.fresh F) :=
  check_congr (by rw [hempty.index]; rfl) hempty.nextDenseId

theorem distinctKeys_ok {ids : List PointId} {seen found : List Key}
    (hfound : distinctKeys ids seen = .ok found) (hseen : seen.Nodup) :
    found = seen.reverse ++ ids.map encode ∧ found.Nodup := by
  induction ids generalizing seen with
  | nil =>
      cases hfound
      exact ⟨by simp, List.nodup_reverse.mpr hseen⟩
  | cons id ids ih =>
      rw [distinctKeys] at hfound
      split at hfound
      · cases hfound
      split at hfound
      · cases hfound
      rename_i hnew
      obtain ⟨heq, hnodup⟩ := ih hfound (List.nodup_cons.mpr ⟨hnew, hseen⟩)
      exact ⟨by simpa using heq, hnodup⟩

theorem distinctKeys_of_nodup {ids : List PointId} {seen : List Key}
    (hshort : ∀ id ∈ ids, tooLong id = false) (hnodup : (seen ++ ids.map encode).Nodup) :
    ∃ found, distinctKeys ids seen = .ok found := by
  induction ids generalizing seen with
  | nil => exact ⟨_, rfl⟩
  | cons id ids ih =>
      rw [List.forall_mem_cons] at hshort
      rw [List.map_cons] at hnodup
      have hnew : encode id ∉ seen := fun hmem =>
        (List.nodup_append.mp hnodup).2.2 _ hmem _ List.mem_cons_self rfl
      rw [distinctKeys, if_neg (by simp [hshort.1]), if_neg hnew]
      apply ih hshort.2
      rw [List.cons_append]
      exact (List.perm_middle.nodup_iff).mp hnodup

end Checks

/-! The nodes of a build -/

/-- The step names no nodes but the first `n`. -/
def Step.Within (n : Nat) : Step F → Prop
  | .publishNodes nodes => ∀ u links, nodes u = some links →
      ∀ layer ∈ links, ∀ v ∈ layer, v < n
  | .storeEntryPoint node => node < n
  | .addVertex u => u < n
  | .addEdgeBatch edges => ∀ e ∈ edges, e.1 < n ∧ e.2 < n
  | _ => True

section Within

variable {n : Nat}

theorem adjacency_lt (drawn : Drawn n) (u : Nat) : ∀ v ∈ drawn.adjacency cfg u, v < n :=
  capped_lt drawn.knn_lt drawn.sorted_perm u

theorem within_steps {args : Args F} (drawn : Drawn args.n) {keys : List (Key × Nat)}
    (hn : 0 < args.n) : ∀ step ∈ steps cfg args drawn keys, step.Within args.n := by
  have hedges : ∀ e ∈ allEdges args.n (drawn.adjacency cfg), e.1 < args.n ∧ e.2 < args.n := by
    intro e he
    obtain ⟨u, hu, hmem⟩ := List.mem_flatMap.mp he
    obtain ⟨v, hv, rfl⟩ := List.mem_map.mp hmem
    exact ⟨List.mem_range.mp hu, adjacency_lt drawn u v hv⟩
  intro step hstep
  rw [steps, List.mem_append, List.mem_append, List.mem_append] at hstep
  rcases hstep with ((hstep | hstep) | hstep) | hstep
  · simp only [bulkBuild, bulkLoadLayer0, List.mem_append, List.mem_cons, List.mem_map,
      List.not_mem_nil, or_false] at hstep
    rcases hstep with (rfl | rfl | rfl | rfl) |
      (⟨u, hu, rfl⟩ | ⟨_, -, rfl⟩) | ⟨chunk, hchunk, rfl⟩
    · intro u links hlinks layer hlayer
      dsimp only at hlinks
      split at hlinks
      · cases hlinks
        cases hlayer
      · cases hlinks
    · trivial
    · exact entryNode_lt drawn.levels hn
    · intro u links hlinks layer hlayer v hv
      dsimp only at hlinks
      split at hlinks
      · cases hlinks
        exact drawn.links_lt u layer hlayer v hv
      · cases hlinks
    · exact List.mem_range.mp hu
    · trivial
    · exact fun e he => hedges e (mem_chunks hchunk he)
  · rw [List.mem_singleton.mp hstep]
    trivial
  · split at hstep
    · simp only [List.mem_cons, List.not_mem_nil, or_false] at hstep
      rcases hstep with rfl | rfl <;> trivial
    · cases hstep
  · simp only [checkpointLocked, List.mem_cons, List.not_mem_nil, or_false] at hstep
    rcases hstep with rfl | rfl | rfl | rfl | rfl | rfl | rfl | rfl | rfl <;> trivial

theorem mem_targets {edges : List (Nat × Nat)} {u v : Nat} (hv : v ∈ targets edges u) :
    (u, v) ∈ edges := by
  obtain ⟨⟨w, x⟩, he, rfl⟩ := List.mem_map.mp hv
  rw [List.mem_filter, beq_iff_eq] at he
  obtain ⟨he, rfl⟩ := he
  exact he

/-- The edges written lead to nodes of the build. -/
theorem edges_lt {taken : List (Step F)} (hwithin : ∀ step ∈ taken, step.Within n) (u : Nat)
    {list : List Nat} (hlist : ∀ v ∈ list, v < n) :
    ∀ v ∈ taken.foldl (fun list step => step.edgesAt graph u list) list, v < n := by
  refine List.foldlRecOn taken _ (motive := fun list : List Nat => ∀ v ∈ list, v < n) hlist ?_
  intro list hlist step hstep v hv
  have hwithin := hwithin step hstep
  cases step with
  | addVertex w =>
      rw [Step.edgesAt] at hv
      split at hv
      · exact hlist v (graph.mem_addVertex hv)
      · exact hlist v hv
  | addEdgeBatch edges =>
      rw [Step.edgesAt] at hv
      split at hv
      · exact hlist v hv
      · rcases graph.mem_merge hv with hv | hv
        · exact hlist v hv
        · exact (hwithin _ (mem_targets hv)).2
  | _ => exact hlist v hv

/-- The list of a vertex that is no node of the build stays. -/
theorem edges_outside {taken : List (Step F)} (hwithin : ∀ step ∈ taken, step.Within n)
    {u : Nat} (hu : n ≤ u) (list : List Nat) :
    taken.foldl (fun list step => step.edgesAt graph u list) list = list := by
  induction taken generalizing list with
  | nil => rfl
  | cons step taken ih =>
      rw [List.forall_mem_cons] at hwithin
      have hstep : step.edgesAt graph u list = list := by
        cases step with
        | addVertex w =>
            have hw : w < n := hwithin.1
            exact if_neg (by omega)
        | addEdgeBatch edges =>
            refine if_pos (List.eq_nil_iff_forall_not_mem.mpr fun v hv => ?_)
            have hu' := (hwithin.1 _ (mem_targets hv)).1
            omega
        | _ => rfl
      rw [List.foldl_cons, hstep, ih hwithin.2]

/-- The index names no nodes but the first `n`. -/
structure Index.Within (n : Nat) (x : Index F) : Prop where
  entryPoint : ∀ u, x.entryPoint = some u → u < n
  nodes : ∀ u links, x.nodes u = some links → ∀ layer ∈ links, ∀ v ∈ layer, v < n

theorem index_within {taken : List (Step F)} (hwithin : ∀ step ∈ taken, step.Within n)
    {x : Index F} (hx : x.Within n) :
    (taken.foldl (fun x step => step.index x) x).Within n := by
  refine List.foldlRecOn taken _ (motive := fun x : Index F => x.Within n) hx ?_
  intro x hx step hstep
  have hwithin := hwithin step hstep
  cases step with
  | publishNodes nodes =>
      refine ⟨hx.entryPoint, fun u links hlinks => ?_⟩
      change (nodes u).or (x.nodes u) = some links at hlinks
      rcases Option.or_eq_some_iff.mp hlinks with hlinks | ⟨-, hlinks⟩
      · exact hwithin u links hlinks
      · exact hx.nodes u links hlinks
  | storeEntryPoint node =>
      refine ⟨fun u hu => ?_, hx.nodes⟩
      obtain rfl := Option.some.inj hu
      exact hwithin
  | _ => exact ⟨hx.entryPoint, hx.nodes⟩

theorem reaches_lt {b : Store F} (hindex : b.index.Within n)
    (hedges : ∀ u, ∀ v ∈ b.disk.graph u, v < n) {u : Nat} (hu : Reaches b u) : u < n := by
  cases hu with
  | entry hentry => exact hindex.entryPoint u hentry
  | edge _ hv => exact hedges _ u hv
  | upper _ hlinks hlayer hv => exact hindex.nodes _ _ hlinks _ hlayer u hv

end Within

/-! A build of an empty store -/

/-- Adding the vertices forgets the lists they had. -/
theorem foldl_addVertex (u n : Nat) (list : List Nat) :
    ((List.range n).map (Step.addVertex (F := F))).foldl
      (fun list step => step.edgesAt graph u list) list =
        if u < n then graph.addVertex list else list := by
  induction n with
  | zero => rfl
  | succ n ih =>
      rw [List.range_succ, List.map_append, List.foldl_append, ih]
      change (if n = u then _ else _) = _
      rcases lt_trichotomy u n with hlt | rfl | hgt
      · rw [if_neg (by omega), if_pos hlt, if_pos (by omega)]
      · rw [if_pos rfl, if_neg (by omega), if_pos (by omega)]
      · rw [if_neg (by omega), if_neg (by omega), if_neg (by omega)]

section Build

variable {args : Args F} (drawn : Drawn args.n) (keys : List (Key × Nat))

/-- The list of a vertex depends on what was there only through `AddVertex`. -/
theorem edges_forgotten {u : Nat} (hu : u < args.n) {list list' : List Nat}
    (hsame : graph.addVertex list = graph.addVertex list') :
    (steps cfg args drawn keys).foldl (fun list step => step.edgesAt graph u list) list =
      (steps cfg args drawn keys).foldl (fun list step => step.edgesAt graph u list)
        list' := by
  obtain ⟨published, rest, hpublished, hsteps⟩ : ∃ published rest : List (Step F),
      (∀ list, published.foldl (fun list step => step.edgesAt graph u list) list = list) ∧
        steps cfg args drawn keys =
          published ++ ((List.range args.n).map .addVertex ++ rest) := by
    simp only [steps, bulkBuild, bulkLoadLayer0, List.append_assoc]
    exact ⟨_, _, fun _ => rfl, rfl⟩
  rw [hsteps]
  simp only [List.foldl_append, hpublished]
  rw [foldl_addVertex, foldl_addVertex, if_pos hu, if_pos hu, hsame]

/-- A build of an empty store reaches what a build of a new one does. -/
theorem sameReachable_after (hempty : Empty graph st) (hn : 0 < args.n) :
    SameReachable (after graph (steps cfg args drawn keys) st)
      (after graph (steps cfg args drawn keys) (.fresh F)) := by
  have hindex : (after graph (steps cfg args drawn keys) st).index =
      (after graph (steps cfg args drawn keys) (.fresh F)).index := by
    rw [after_index, after_index, hempty.index]
    rfl
  have hedges : ∀ u < args.n, (after graph (steps cfg args drawn keys) st).disk.graph u =
      (after graph (steps cfg args drawn keys) (.fresh F)).disk.graph u := by
    intro u hu
    rw [after_graph, after_graph]
    exact edges_forgotten drawn keys hu ((hempty.forgets u).trans (addVertex_nil graph).symm)
  have hwithin : ∀ step ∈ steps cfg args drawn keys, step.Within args.n :=
    within_steps drawn hn
  have hlt : ∀ u, Reaches (after graph (steps cfg args drawn keys) (.fresh F)) u →
      u < args.n := by
    intro u hu
    refine reaches_lt ?_ (fun w => ?_) hu
    · rw [after_index]
      exact index_within hwithin ⟨fun _ => nofun, fun _ _ => nofun⟩
    · rw [after_graph]
      exact edges_lt hwithin w fun _ => nofun
  generalize after graph (steps cfg args drawn keys) st = a at hindex hedges
  generalize after graph (steps cfg args drawn keys) (.fresh F) = b at hindex hedges hlt
  have hreaches : ∀ u, Reaches a u ↔ Reaches b u := by
    refine fun u => ⟨fun hu => ?_, fun hu => ?_⟩
    · induction hu with
      | entry hentry => exact .entry (hindex ▸ hentry)
      | edge _ hv ih => exact .edge ih (hedges _ (hlt _ ih) ▸ hv)
      | upper _ hlinks hlayer hv ih => exact .upper ih (hindex ▸ hlinks) hlayer hv
    · induction hu with
      | entry hentry => exact .entry (hindex ▸ hentry)
      | edge hu hv ih => exact .edge ih ((hedges _ (hlt _ hu)).symm ▸ hv)
      | upper _ hlinks hlayer hv ih => exact .upper ih (hindex ▸ hlinks) hlayer hv
  exact ⟨by rw [hindex], by rw [hindex], hreaches, fun u _ => by rw [hindex],
    fun u _ => by rw [hindex], fun u hu => hedges u (hlt u ((hreaches u).mp hu))⟩

end Build

/-- A store without vectors is usable. -/
theorem Empty.usable (hempty : Empty graph st) : EmptyAndUsable graph cfg st where
  count := by rw [vectorCount, hempty.liveCount, Int.toNat_zero]
  get := by
    intro id
    have hmissing : ∀ (dense : Nat) (Row : Type) (rows : Nat → Option Row),
        ((Dense.getDense dense).run Dense.exec (st.dense rows)).1 = .notFound := by
      intro dense Row rows
      rw [Store.dense, hempty.index]
      rfl
    unfold resolveId
    rw [hempty.ids]
    split
    · split
      · exact .inr (.inl ⟨_, rfl⟩)
      · exact .inl rfl
    · cases id with
      | str s => exact .inr (.inl ⟨_, rfl⟩)
      | int value =>
          dsimp only
          split
          · exact .inr (.inl ⟨_, rfl⟩)
          · exact .inr (.inr ⟨_, rfl, hmissing _⟩)
  search := by
    intro Row D _ rows metric descent fuel query k efSearch hk
    rw [Dense.searchUnfilteredDense, if_neg (not_le.mpr hk), Store.dense, hempty.index]
    rfl
  searchFiltered := by
    intro Row D _ rows metric descent fuel query k filter maxScan hk
    rw [Dense.searchDense, if_neg (not_le.mpr hk), Store.dense, hempty.index]
    rfl
  rebuild := by
    intro args drawn keys hcheck
    have hn := (checked_of_check hcheck).n_pos
    refine ⟨after graph (steps cfg args drawn keys) st,
      after graph (steps cfg args drawn keys) (.fresh F), ?_, ?_,
      sameReachable_after drawn keys hempty hn, ?_⟩
    · rw [bulkBuildImpl, check_fresh hempty, hcheck]
      exact run_none _ _ _
    · rw [bulkBuildImpl, hcheck]
      exact run_none _ _ _
    · rw [after_ids, after_ids, hempty.ids]
      rfl

/-! What a kill leaves -/

theorem reopen_unkept {d : Disk F} (hids : d.ids = []) (hmain : d.main.index = .empty F)
    (hcount : d.main.liveCount.getD (d.vectorCount.getD 0) = 0) :
    reopen cfg d = some ⟨.empty F, 0, 0, { d with tmp := none }⟩ := by
  rw [reopen, hids, hmain, hcount]
  split <;> rfl

/-- What an open finds. -/
theorem reopen_eq_some {d : Disk F} {left : Store F} (hleft : reopen cfg d = some left) :
    left.liveCount = d.main.liveCount.getD (d.vectorCount.getD 0) ∧
      left.disk.graph = d.graph ∧
      (cfg.keyed = true → ∃ found, maxMappedId d.ids = some found ∧
        left.nextDenseId = found.elim 0 (· + 1)) := by
  rw [reopen] at hleft
  split at hleft
  · obtain ⟨found, hfound, rfl⟩ := Option.map_eq_some_iff.mp hleft
    exact ⟨rfl, rfl, fun _ => ⟨found, hfound, rfl⟩⟩
  · rename_i hkeyed
    obtain rfl := Option.some.inj hleft
    exact ⟨rfl, rfl, fun h => absurd h hkeyed⟩

/-- The ids of a build are in the map once its keys are put. -/
theorem maxMappedId_putKeys {found : List Key} (hnodup : found.Nodup) (hne : found ≠ [])
    (hlength : found.length < 2 ^ 63) :
    ∃ m, maxMappedId (putKeys found.zipIdx []) = some (some m) := by
  have hdense : (found.zipIdx.map Prod.snd) = List.range' 0 found.length :=
    List.zipIdx_map_snd 0 found
  have hstores := stores_nil.putKeys found.zipIdx
    (fun item hitem => by
      have hmem : item.2 ∈ found.zipIdx.map Prod.snd := List.mem_map_of_mem hitem
      rw [hdense, List.mem_range'_1] at hmem
      omega)
    (by rwa [List.zipIdx_map_fst])
    (by
      rw [hdense]
      exact List.nodup_range')
    (fun _ _ => ⟨fun _ => nofun, fun _ => nofun⟩)
  obtain ⟨top, htop, hnone, -⟩ := hstores.maxMappedId
  cases top with
  | some m => exact ⟨m, htop⟩
  | none =>
      have hnil := hnone rfl
      rw [List.append_nil, List.reverse_eq_nil_iff] at hnil
      cases found with
      | nil => exact absurd rfl hne
      | cons key found => cases hnil

/-! The store afterwards -/

/-- A build that returned OK passed its checks. -/
theorem check_of_returned {args : Args F} {drawn : Drawn args.n} {a : Store F}
    (hreturned : bulkBuildImpl graph cfg args drawn none st = .returned .ok a) :
    ∃ keys, check cfg args st = .ok keys ∧
      a = after graph (steps cfg args drawn keys) st := by
  rw [bulkBuildImpl] at hreturned
  cases hcheck : check cfg args st with
  | error text =>
      rw [hcheck] at hreturned
      cases hreturned
  | ok keys =>
      rw [hcheck] at hreturned
      change run graph drawn.workers _ none st = _ at hreturned
      rw [run_none] at hreturned
      cases hreturned
      exact ⟨keys, rfl, rfl⟩

/-- A store that takes builds has no entry point and no dense id. -/
theorem EmptyAndUsable.unset {left : Store F} (husable : EmptyAndUsable graph cfg left)
    {args : Args F} (drawn : Drawn args.n) {keys : List (Key × Nat)}
    (hcheck : check cfg args (.fresh F) = .ok keys) :
    left.index.entryPoint = none ∧ (cfg.keyed = true → left.nextDenseId = 0) := by
  obtain ⟨a, -, hreturned, -⟩ := husable.rebuild args drawn keys hcheck
  obtain ⟨keys', hleft, -⟩ := check_of_returned hreturned
  exact ⟨(checked_of_check hleft).entryPoint, (checked_of_check hleft).nextDenseId⟩

section OnlyTop

/-- Draws of a build whose only node above layer 0 is `top`, with no edges. -/
def onlyTop (n top : Nat) : Drawn n where
  levels := fun w => if w = top then 1 else 0
  knn := fun _ => []
  links := fun _ => []
  sorted := fun _ list => list
  order := List.range n
  workers := false
  knn_lt := fun _ => nofun
  links_lt := fun _ => nofun
  sorted_perm := fun _ _ => .refl _
  order_perm := .refl _

theorem entryNode_onlyTop (top : Nat) :
    entryNode (onlyTop (top + 1) top).levels (top + 1) = (1, top) := by
  have hbelow : ∀ n ≤ top, entryNode (onlyTop (top + 1) top).levels n = (0, 0) := by
    intro n hn
    induction n with
    | zero => rfl
    | succ n ih =>
        rw [entryNode, List.range_succ, List.foldl_append, ← entryNode, ih (by omega)]
        have hlevel : (onlyTop (top + 1) top).levels n = 0 := if_neg (by omega)
        exact if_neg (by simp [hlevel])
  have hlevel : (onlyTop (top + 1) top).levels top = 1 := if_pos rfl
  rw [entryNode, List.range_succ, List.foldl_append, ← entryNode, hbelow top le_rfl]
  refine (if_pos (.inl ?_)).trans (by rw [hlevel])
  rw [hlevel]
  exact Nat.one_pos

theorem adjacency_onlyTop (n top : Nat) : (onlyTop n top).adjacency cfg = fun _ => [] := by
  have hsymmetric : symmetrize n (outgoing cfg.mMax (onlyTop n top).knn) = fun _ => [] := by
    refine List.foldlRecOn (List.range n) _
      (motive := fun adj : Nat → List Nat => adj = fun _ => []) ?_ ?_
    · funext u
      rw [outgoing, onlyTop, List.take_nil, List.filterMap_nil]
    · rintro adj rfl u -
      rfl
  funext u
  rw [Drawn.adjacency, hsymmetric, capped, List.length_nil, if_pos (Nat.zero_le _)]

theorem edges_still {u : Nat} {taken : List (Step F)}
    (htaken : ∀ step ∈ taken, ∀ list, step.edgesAt graph u list = list) (list : List Nat) :
    taken.foldl (fun list step => step.edgesAt graph u list) list = list := by
  induction taken with
  | nil => rfl
  | cons step taken ih =>
      rw [List.forall_mem_cons] at htaken
      rw [List.foldl_cons, htaken.1, ih htaken.2]

variable {args : Args F} {keys : List (Key × Nat)}

theorem edges_onlyTop {u top : Nat} (hu : u < args.n) (list : List Nat) :
    (steps cfg args (onlyTop args.n top) keys).foldl
      (fun list step => step.edgesAt graph u list) list = graph.addVertex list := by
  have hedges : allEdges args.n ((onlyTop args.n top).adjacency cfg) = [] := by
    rw [adjacency_onlyTop, allEdges]
    exact List.flatMap_eq_nil_iff.mpr fun _ _ => rfl
  have hchunks : chunks [] = [] := rfl
  have hstored : ∀ list, ((onlyTop args.n top).order.map fun w =>
      (.storeVector w (args.row cfg w) : Step F)).foldl
        (fun list step => step.edgesAt graph u list) list = list := by
    intro list
    apply edges_still
    intro step hstep list
    obtain ⟨w, -, rfl⟩ := List.mem_map.mp hstep
    rfl
  have hkeys : ∀ list, (if cfg.keyed then [.putKeys keys, .storeNextDenseId args.n] else
      ([] : List (Step F))).foldl (fun list step => step.edgesAt graph u list) list = list := by
    intro list
    split <;> rfl
  rw [steps, bulkBuild, bulkLoadLayer0, hedges, hchunks, List.foldl_append,
    List.foldl_append, hkeys, List.foldl_append, List.foldl_append, List.foldl_append,
    List.foldl_append, hstored]
  change ((List.range args.n).map (Step.addVertex (F := F))).foldl
    (fun list step => step.edgesAt graph u list) list = _
  rw [foldl_addVertex, if_pos hu]

theorem entryPoint_still {taken : List (Step F)}
    (htaken : ∀ step ∈ taken, ∀ node, step ≠ .storeEntryPoint node) (x : Index F) :
    (taken.foldl (fun x step => step.index x) x).entryPoint = x.entryPoint := by
  refine List.foldlRecOn taken _ (motive := fun y : Index F => y.entryPoint = x.entryPoint)
    rfl ?_
  intro y hy step hstep
  cases step with
  | storeEntryPoint node => exact absurd rfl (htaken _ hstep node)
  | _ => exact hy

theorem entryPoint_after (drawn : Drawn args.n) (st : Store F) :
    (after graph (steps cfg args drawn keys) st).index.entryPoint =
      some (entryNode drawn.levels args.n).2 := by
  obtain ⟨nodes, level, rest, hsteps, hrest⟩ := steps_published cfg drawn keys
  rw [after_index, hsteps, List.foldl_cons, List.foldl_cons, List.foldl_cons,
    entryPoint_still hrest]
  rfl

end OnlyTop

section Forgets

variable {args : Args F} {keys : List (Key × Nat)}

theorem n_lt (points : Points) : points.n < 2 ^ 31 := by
  cases points <;> exact Int32.toInt_lt _

theorem ids_ne_nil {points : Points} (hpositive : 0 < points.n) : points.ids ≠ [] := by
  cases points with
  | counted n =>
      change 0 < n.toInt at hpositive
      change (List.range n.toInt.toNat).map _ ≠ []
      rw [Ne, List.map_eq_nil_iff, List.range_eq_nil]
      omega
  | named ids =>
      rintro hnil
      change ids = [] at hnil
      subst hnil
      exact absurd hpositive (by decide)

/-- The first vectors of a build that passed its checks can be built alone. -/
theorem checked_first (hchecked : Checked cfg args st keys) {u : Nat} (hu : u < args.n) :
    ∃ (args' : Args F) (keys' : List (Key × Nat)), args'.n = u + 1 ∧
      check cfg args' (.fresh F) = .ok keys' := by
  have hint : u + 1 < 2 ^ 31 := by
    have hlt := n_lt args.points
    rw [Args.n] at hu
    omega
  have hpoints : (Points.counted (Int32.ofNat (u + 1))).n = (u + 1 : Nat) :=
    Int32.toInt_ofNat_of_lt hint
  let args' : Args F :=
    ⟨args.floats.take ((u + 1) * cfg.dim), .counted (Int32.ofNat (u + 1))⟩
  have hn : args'.n = u + 1 := by
    rw [Args.n, hpoints]
    rfl
  have hlength : args'.floats.length = args'.n * cfg.dim := by
    rw [hn, List.length_take, hchecked.length]
    exact min_eq_left (Nat.mul_le_mul_right _ hu)
  have hids : args'.points.ids = (List.range (u + 1)).map fun i => .int (UInt64.ofNat i) := by
    change (List.range (Points.counted (Int32.ofNat (u + 1))).n.toNat).map _ = _
    rw [hpoints]
    rfl
  obtain ⟨found, hfound⟩ : ∃ found, distinctKeys (args'.points.ids.take args'.n) [] =
      .ok found := by
    rw [hids, hn, List.take_of_length_le (by simp)]
    apply distinctKeys_of_nodup
    · intro id hid
      obtain ⟨i, -, rfl⟩ := List.mem_map.mp hid
      rfl
    · rw [List.nil_append, List.map_map]
      refine List.Nodup.map_on ?_ List.nodup_range
      intro i hi j hj hsame
      rw [List.mem_range] at hi hj
      have hvalue : UInt64.ofNat i = UInt64.ofNat j := PointId.int.inj (encode_injective hsame)
      have hnat := congrArg UInt64.toNat hvalue
      have hsize : u + 1 < UInt64.size := hint.trans (by decide)
      rwa [UInt64.toNat_ofNat_of_lt' (hi.trans hsize),
        UInt64.toNat_ofNat_of_lt' (hj.trans hsize)] at hnat
  have hpositive : ¬ args'.points.n ≤ 0 := by
    change ¬ (Points.counted (Int32.ofNat (u + 1))).n ≤ 0
    rw [hpoints]
    omega
  refine ⟨args', if cfg.keyed then found.zipIdx else [], hn, ?_⟩
  rw [check, if_neg hpositive, if_neg (by simp [args', Points.hasIds]), if_neg hchecked.dim,
    if_neg (not_not.mpr hlength), if_neg (by simp [Store.fresh, Index.empty])]
  split
  · rw [hfound]
    rfl
  · rfl

/-- Where a store takes builds, adding a vertex forgets its list. -/
theorem EmptyAndUsable.forgets {left : Store F} (husable : EmptyAndUsable graph cfg left)
    (hchecked : Checked cfg args st keys) {u : Nat} (hu : u < args.n) :
    graph.addVertex (left.disk.graph u) = [] := by
  obtain ⟨args', keys', hn, hcheck⟩ := checked_first hchecked hu
  have hlt : u < args'.n := by omega
  obtain ⟨a, b, ha, hb, hsame, -⟩ :=
    husable.rebuild args' (onlyTop args'.n u) keys' hcheck
  obtain ⟨keysA, -, rfl⟩ := check_of_returned ha
  obtain ⟨keysB, -, rfl⟩ := check_of_returned hb
  have hentry : (entryNode (onlyTop args'.n u).levels args'.n).2 = u := by
    rw [hn, entryNode_onlyTop]
  have hedges := hsame.edges u (.entry ((entryPoint_after _ _).trans (congrArg some hentry)))
  rw [after_graph, after_graph, edges_onlyTop hlt, edges_onlyTop hlt] at hedges
  exact hedges.trans (addVertex_nil graph)

end Forgets

/-- A refused call, or a process that was gone before keys and checkpoint were in storage,
with edges that `AddVertex` forgets. -/
def LeavesEmpty (graph : GraphStore) (cfg : Config) (args : Args F) (drawn : Drawn args.n)
    (fault : Option Fault) (st : Store F) : Prop :=
  (∃ text, check cfg args st = .error text) ∨
    ∃ keys gone, check cfg args st = .ok keys ∧ fault = some gone ∧
      gone.Ends drawn.workers (steps cfg args drawn keys) ∧
      (∀ step ∈ gone.taken (steps cfg args drawn keys), step.kept = false) ∧
      ∀ u, graph.addVertex
        ((after graph (gone.taken (steps cfg args drawn keys)) st).disk.graph u) = []

section Ends

variable {args : Args F} {drawn : Drawn args.n} {keys : List (Key × Nat)}

/-- The count is written after the checkpoint. -/
theorem rename_of_persistCount {m : Nat}
    (hmem : .persistCount ∈ (steps cfg args drawn keys).take m) :
    .rename ∈ (steps cfg args drawn keys).take m := by
  rw [steps_renamed] at hmem ⊢
  obtain ⟨j, hj⟩ := take_split hmem (by simp [written, bulkBuild, bulkLoadLayer0])
  rw [hj]
  exact List.mem_append_right _ List.mem_cons_self

/-- A kill before the keys and the checkpoint leaves a store without vectors. -/
theorem empty_of_unkept (hempty : Empty graph st) {m : Nat}
    (hkept : ∀ step ∈ (steps cfg args drawn keys).take m, step.kept = false)
    (hforgets : ∀ u, graph.addVertex
      ((after graph ((steps cfg args drawn keys).take m) st).disk.graph u) = []) :
    ∃ left, reopen cfg (after graph ((steps cfg args drawn keys).take m) st).disk =
      some left ∧ Empty graph left := by
  obtain ⟨hids, hmain, hcount⟩ := after_unkept graph hkept
    (by
      rintro step hstep rfl
      cases hkept _ (rename_of_persistCount hstep)) st
  generalize (after graph ((steps cfg args drawn keys).take m) st).disk = d at *
  refine ⟨_, reopen_unkept (hids.trans hempty.ids) (hmain ▸ hempty.main)
    (hmain ▸ hcount ▸ hempty.count), ?_⟩
  exact ⟨rfl, rfl, rfl, hids.trans hempty.ids, hmain ▸ hempty.main,
    hmain ▸ hcount ▸ hempty.count, hforgets⟩

/-- A usable store has neither the keys nor the checkpoint of the killed build. -/
theorem EmptyAndUsable.unkept {left : Store F} (husable : EmptyAndUsable graph cfg left)
    (hcheck : check cfg args st = .ok keys) (hempty : Empty graph st) {m : Nat}
    (hleft : reopen cfg (after graph ((steps cfg args drawn keys).take m) st).disk =
      some left) :
    ∀ step ∈ (steps cfg args drawn keys).take m, step.kept = false := by
  have hchecked := checked_of_check hcheck
  have hn := hchecked.n_pos
  obtain ⟨hlive, -, hnext⟩ := reopen_eq_some hleft
  intro step hstep
  cases step with
  | putKeys items =>
      obtain ⟨hkeyed, hids⟩ := ids_of_putKeys graph hstep st
      obtain ⟨found, hfound, rfl⟩ := hchecked.keys hkeyed
      obtain ⟨hall, hnodup⟩ := distinctKeys_ok hfound List.nodup_nil
      obtain ⟨top, htop, hleftNext⟩ := hnext hkeyed
      rw [hids, hempty.ids] at htop
      have hunset := (husable.unset drawn ((check_fresh hempty).symm.trans hcheck)).2 hkeyed
      have hne : args.points.ids.take args.n ≠ [] := by
        rw [Ne, List.take_eq_nil_iff, not_or]
        exact ⟨by omega, ids_ne_nil hchecked.positive⟩
      have hlength : found.length < 2 ^ 63 := by
        have hlt := n_lt args.points
        have hmin := List.length_take_le args.n args.points.ids
        rw [hall, List.reverse_nil, List.nil_append, List.length_map]
        rw [Args.n] at hmin ⊢
        omega
      obtain ⟨m, hm⟩ := maxMappedId_putKeys hnodup
        (by rw [hall]; simpa using hne) hlength
      rw [hm] at htop
      cases htop
      rw [hleftNext] at hunset
      cases hunset
  | rename =>
      have hcount := main_of_rename graph hstep st
      rw [hcount] at hlive
      have hzero := husable.count
      rw [vectorCount, hlive] at hzero
      change args.n = 0 at hzero
      omega
  | _ => rfl

end Ends

/-- **What a build leaves that did not return OK** is empty and usable exactly when the
call was refused, or its process was gone before keys and checkpoint, with edges that
`AddVertex` forgets. -/
theorem emptyAndUsable_iff {args : Args F} (drawn : Drawn args.n) (fault : Option Fault)
    (hempty : Empty graph st)
    (hended : ∀ left, bulkBuildImpl graph cfg args drawn fault st ≠ .returned .ok left) :
    (∃ left, afterwards cfg (bulkBuildImpl graph cfg args drawn fault st) = some left ∧
      EmptyAndUsable graph cfg left) ↔ LeavesEmpty graph cfg args drawn fault st := by
  rw [LeavesEmpty]
  unfold bulkBuildImpl at hended ⊢
  cases hcheck : check cfg args st with
  | error text => exact ⟨fun _ => .inl ⟨text, rfl⟩, fun _ => ⟨st, rfl, hempty.usable⟩⟩
  | ok keys =>
      rw [hcheck] at hended
      dsimp only at hended ⊢
      cases fault with
      | none => exact absurd (run_none _ _ _) (hended _)
      | some fault =>
          have hchecked := checked_of_check hcheck
          have hfresh := (check_fresh hempty).symm.trans hcheck
          rcases run_some graph drawn.workers (steps cfg args drawn keys) fault st with
            ⟨hends, hkilled⟩ | ⟨hends, ⟨left, hok⟩ | ⟨⟨step, hstep, hfails⟩, hfailed⟩⟩
          · rw [hkilled]
            constructor
            · rintro ⟨left, hleft, husable⟩
              refine .inr ⟨keys, fault, rfl, rfl, hends,
                husable.unkept hcheck hempty hleft, fun u => ?_⟩
              rcases lt_or_ge u args.n with hu | hu
              · rw [← (reopen_eq_some hleft).2.1]
                exact husable.forgets hchecked hu
              · rw [after_graph, Fault.taken, edges_outside (fun step hstep => within_steps drawn
                  hchecked.n_pos step (List.mem_of_mem_take hstep)) hu]
                exact hempty.forgets u
            · rintro (⟨text, herror⟩ | ⟨keys', gone, hkeys, hgone, -, hkept, hforgets⟩)
              · cases herror
              · cases hkeys
                cases hgone
                obtain ⟨left, hleft, hremains⟩ := empty_of_unkept hempty hkept hforgets
                exact ⟨left, hleft, hremains.usable⟩
          · exact absurd hok (hended left)
          · rw [hfailed]
            constructor
            · rintro ⟨left, hleft, husable⟩
              cases hleft
              have hset := entryPoint_of_failed graph hstep hfails st
              rw [(husable.unset drawn hfresh).1] at hset
              cases hset
            · rintro (⟨text, herror⟩ | ⟨keys', gone, hkeys, hgone, hgoneEnds, -⟩)
              · cases herror
              · cases hkeys
                cases hgone
                exact absurd hgoneEnds hends

/-! One vector -/

/-- A graph store that keeps what it has when a vertex is added again. -/
def appending : GraphStore where
  addVertex := fun list => list
  merge := fun list targets => list ++ targets
  mem_addVertex := id
  mem_merge := List.mem_append.mp

def oneVector : Args Nat := ⟨[7], .counted 1⟩

def dense : Config := ⟨1, false, 16⟩

/-- A kill behind the only vertex. -/
theorem killedAfterVertex_usable :
    ∃ left, afterwards dense (bulkBuildImpl appending dense oneVector
      (onlyTop oneVector.n 0) (some ⟨4, true, true⟩) (.fresh Nat)) = some left ∧
        EmptyAndUsable appending dense left := by
  apply (emptyAndUsable_iff (onlyTop oneVector.n 0) (some ⟨4, true, true⟩)
    (empty_fresh appending) fun left hleft => by cases hleft).mpr
  refine .inr ⟨[], ⟨4, true, true⟩, rfl, rfl, ⟨.addVertex 0, rfl, .inl rfl⟩, ?_, ?_⟩
  · have hall : ((⟨4, true, true⟩ : Fault).taken
        (steps dense oneVector (onlyTop oneVector.n 0) [])).all
          (fun step => step.kept == false) = true := rfl
    exact fun step hstep => eq_of_beq (List.all_eq_true.mp hall step hstep)
  · intro u
    change (if 0 = u then [] else []) = []
    exact ite_self _

/-- The only vertex cannot be added: the call returns an error, and the store takes no
build any more. -/
theorem failedVertex_unusable :
    ∃ left, bulkBuildImpl appending dense oneVector (onlyTop oneVector.n 0)
        (some ⟨4, false, false⟩) (.fresh Nat) = .returned .ioError left ∧
      ¬ EmptyAndUsable appending dense left := by
  refine ⟨_, rfl, fun husable => ?_⟩
  have hcheck : check dense oneVector (.fresh Nat) = .ok [] := rfl
  have hentry := (husable.unset (onlyTop oneVector.n 0) hcheck).1
  cases hentry

end AsterVec.BulkBuild

import AsterVec.StorageInserts

/-!
Runs of inserts over a storage that keeps the interface.  Between two inserts the index can
be navigated and the storage has exactly the vectors inserted so far, so an insert of a new
id is a first insert, and it ends.
-/

namespace AsterVec.StorageInserts

open AsterVec.IndexGraph
open AsterVec.LayerSearch (Safe)
open AsterVec.PagedVectorStorage (Outcome)
open AsterVec.VectorStorages

variable {F D σ R Doc : Type} [LinearOrder D] {setup : Setup F D σ R Doc} {capacity : Nat}
  {Keeps : σ → (Nat → Option R) → Prop}

/-! ## What the index sees -/

/-- The vectors of the records. -/
def vectorsOf (setup : Setup F D σ R Doc) (stored : Nat → Option R) (id : Nat) :
    Option (List F) := (stored id).map setup.storage.decodeRecord

theorem isSome_vectorsOf (stored : Nat → Option R) (id : Nat) :
    (vectorsOf setup stored id).isSome = (stored id).isSome := Option.isSome_map

theorem vectorsOf_update (stored : Nat → Option R) (id : Nat) (record : R) :
    vectorsOf setup (Function.update stored id (some record)) =
      Function.update (vectorsOf setup stored) id
        (some (setup.storage.decodeRecord record)) := by
  funext other
  unfold vectorsOf
  rw [Function.update_apply, Function.update_apply]
  split <;> rfl

theorem shown_eq (hcontract : Contract setup.storage capacity Keeps) {st : σ}
    {stored : Nat → Option R} (hkeeps : Keeps st stored) :
    shown setup st = vectorsOf setup stored := by
  funext id
  unfold shown vectorsOf
  rw [hcontract.hasLocation st stored hkeeps]
  cases hrecord : stored id with
  | none => rfl
  | some record =>
      rw [hcontract.readVectorFromDisk st stored hkeeps id record hrecord]
      rfl

theorem seen_eq (hcontract : Contract setup.storage capacity Keeps) {st : σ}
    {stored : Nat → Option R} (hkeeps : Keeps st stored) (x : Index (List F)) :
    seen setup st x = { x with vectors := vectorsOf setup stored } := by
  rw [seen, shown_eq hcontract hkeeps]

theorem keeps_fetch (hcontract : Contract setup.storage capacity Keeps)
    {stored : Nat → Option R} (ids : List Nat) :
    ∀ {st : σ}, Keeps st stored → Keeps (fetch setup ids st) stored := by
  induction ids with
  | nil => exact fun hkeeps => hkeeps
  | cons id ids ih => exact fun hkeeps => ih (hcontract.reads _ _ hkeeps id)

/-! ## The two halves of an insert -/

section Halves

variable {x early : Index (List F)} {nodeId level e : Nat}

theorem selectAll_returns (hx : Navigable setup.graph x) {draw : Draw}
    (hpublished : Published x nodeId draw.level early)
    (hlinked : Linked setup.graph early fun w => (x.nodes w).isSome = true)
    {known : Finset Nat} (hwithin : Within early known) (hfuel : known.card < draw.fuel)
    (hentry : x.entryPoint = some e) (vector : List F) :
    ∃ selectedPerLayer selectedLevel0,
      selectAll setup draw vector early e = .hits (selectedPerLayer, selectedLevel0) ∧
      (∀ layer, Selected setup.graph.m (fun w => (x.nodes w).isSome = true)
        (selectedPerLayer layer)) ∧
      Selected setup.graph.m (fun w => (x.vectors w).isSome = true) selectedLevel0 := by
  have hsafe : Safe (fun found =>
      (∀ layer, Selected setup.graph.m (fun w => (x.nodes w).isSome = true)
        (found.1 layer)) ∧
      Selected setup.graph.m (fun w => (x.vectors w).isSome = true) found.2)
      (selectAll setup draw vector early e) :=
    hx.safe_selects hpublished hlinked hentry draw.fuel (fun upper level0 => .hits (upper, level0))
      fun _ _ hupper hlevel0 => And.intro hupper hlevel0
  have hlists : ∀ layer v, ∀ w ∈ early.neighborsAt layer v, (early.nodes w).isSome = true :=
    fun layer v w hw => (hpublished.nodes w).2 (.inl (hlinked.known layer v w hw))
  have hprompt : Prompt (selectAll setup draw vector early e) :=
    prompt_bind (prompt_descend hwithin.nodes hfuel _ _ _) fun current _ =>
      prompt_bind (prompt_selectUpper hwithin hlists hfuel _ current) fun upper _ =>
        prompt_bind (prompt_selectAt hwithin hlists hfuel 0 upper.1) fun _ _ => trivial
  obtain ⟨⟨selectedPerLayer, selectedLevel0⟩, hhits, hselected⟩ := hits_of_safe hsafe hprompt
  exact ⟨selectedPerLayer, selectedLevel0, hhits, hselected⟩

theorem linkAll_returns (hx : Navigable setup.graph x) (hnew : x.nodes nodeId = none)
    (hpublished : Published x nodeId level early)
    (hlinked : Linked setup.graph early fun w => (x.nodes w).isSome = true)
    (hentry : x.entryPoint = some e) {selectedPerLayer : Nat → List Nat}
    {selectedLevel0 : List Nat}
    (hupper : ∀ layer, Selected setup.graph.m (fun w => (x.nodes w).isSome = true)
      (selectedPerLayer layer))
    (hlevel0 : Selected setup.graph.m (fun w => (x.vectors w).isSome = true) selectedLevel0)
    (point : List F) :
    ∃ y, linkAll setup nodeId level selectedPerLayer selectedLevel0
        (storeVector nodeId point early) = .hits y ∧
      Navigable setup.graph y ∧
      y.vectors = Function.update x.vectors nodeId (some point) := by
  have hsafe : Safe (fun y => Navigable setup.graph y ∧
      Inserted setup.graph setup.edges x nodeId point y)
      (linkAll setup nodeId level selectedPerLayer selectedLevel0
        (storeVector nodeId point early)) :=
    hx.safe_links hnew hpublished hlinked hentry hupper hlevel0
  have hprompt : Prompt (linkAll setup nodeId level selectedPerLayer selectedLevel0
      (storeVector nodeId point early)) :=
    prompt_bind (prompt_linkUpper _ _ _ _) fun _ _ =>
      prompt_bind (prompt_shrink _ _) fun _ _ => trivial
  obtain ⟨y, hhits, hnavigable, hinserted⟩ := hits_of_safe hsafe hprompt
  exact ⟨y, hhits, hnavigable, hinserted.vectors⟩

end Halves

/-! ## One insert -/

/-- What holds between two inserts, `done` being the ids inserted so far. -/
structure Working (setup : Setup F D σ R Doc) (Keeps : σ → (Nat → Option R) → Prop)
    (db : Db F σ) (stored : Nat → Option R) (done : List Nat) : Prop where
  keeps : Keeps db.storage stored
  navigable : Navigable setup.graph (seen setup db.storage db.index)
  within : ∀ id, (stored id).isSome = true → id ∈ done
  tombstoned : ∀ id, db.tombstoned id = false
  updated : ∀ r, db.updated r = none
  count : db.liveCount = done.length

theorem working_fresh {st : σ} (hkeeps : Keeps st fun _ => none)
    (hcontract : Contract setup.storage capacity Keeps) :
    Working setup Keeps (Db.fresh st) (fun _ => none) [] := by
  refine ⟨hkeeps, ?_, fun _ hsome => (by cases hsome), fun _ => rfl, fun _ => rfl, rfl⟩
  change Navigable setup.graph (seen setup st (Index.empty (List F)))
  rw [seen_eq hcontract hkeeps]
  exact navigable_empty

/-- A node whose id has no record is stored, linked and seen from then on. -/
theorem Working.insertNode {db : Db F σ} {stored : Nat → Option R} {done : List Nat}
    (hworking : Working setup Keeps db stored done)
    (hcontract : Contract setup.storage capacity Keeps) (hcapacity : capacity ≤ 2 ^ 64)
    {request : Request F} (hid : request.id < capacity) (hnone : stored request.id = none)
    (hfuel : done.length + 1 < request.draw.fuel)
    (hstoring : storing setup request db = .returned ()) :
    ∃ st index, insertNode setup request.draw request.id request.vec
        (setup.storage.encodeRecord request.vec) db =
          (.returned (), { db with storage := st, index := index }) ∧
      Keeps st (Function.update stored request.id
        (some (setup.storage.encodeRecord request.vec))) ∧
      Navigable setup.graph (seen setup st index) := by
  have hx := hworking.navigable
  have hseen := seen_eq hcontract hworking.keeps db.index
  have hnew : (seen setup db.storage db.index).nodes request.id = none := by
    refine hx.fresh ?_
    rw [hseen]
    change (stored request.id).map _ = none
    rw [hnone]
    rfl
  generalize hpoint : setup.space.quantized request.vec = point
  have hpublished := published (seen setup db.storage db.index) request.id request.draw.level
    point
  have hlinked := hx.linked.early hnew request.draw.level point
  have hearly : ∀ st : σ, seen setup st (if 0 < request.draw.level then
        publish request.id point db.index else db.index) =
      { (if 0 < request.draw.level then publish request.id point
          (seen setup db.storage db.index) else seen setup db.storage db.index) with
        vectors := shown setup st } := by
    intro st
    split <;> rfl
  have hentryPoint : (if 0 < request.draw.level then publish request.id point db.index
      else db.index).entryPoint = db.index.entryPoint := by
    split <;> rfl
  have hfew : (request.id :: done).toFinset.card < request.draw.fuel :=
    Nat.lt_of_le_of_lt (List.toFinset_card_le _) hfuel
  unfold StorageInserts.insertNode
  unfold storing at hstoring
  simp only [hpoint]
  generalize (if 0 < request.draw.level then publish request.id point db.index
    else db.index) = index at *
  generalize (if 0 < request.draw.level then publish request.id point
    (seen setup db.storage db.index) else seen setup db.storage db.index) = early at *
  rw [hentryPoint]
  have hvectors : early.vectors = vectorsOf setup stored := by
    rw [hpublished.vectors, hseen]
  have hshown : ∀ st : σ, Keeps st (Function.update stored request.id
      (some (setup.storage.encodeRecord request.vec))) →
      shown setup st = Function.update early.vectors request.id
        (some (setup.storage.decodeRecord (setup.storage.encodeRecord request.vec))) := by
    intro st hkeeps
    rw [shown_eq hcontract hkeeps, vectorsOf_update, hvectors]
  have hdone : ∀ w, (early.vectors w).isSome = true → w ∈ done := by
    intro w hw
    rw [hvectors, isSome_vectorsOf] at hw
    exact hworking.within w hw
  have hwithin : Within early (request.id :: done).toFinset := by
    refine ⟨fun w hw => ?_, fun w hw => ?_⟩
    · rw [List.mem_toFinset]
      rcases (hpublished.nodes w).1 hw with hold | ⟨rfl, -⟩
      · refine List.mem_cons_of_mem _ (hdone w ?_)
        rw [hpublished.vectors]
        exact hx.located w hold
      · exact List.mem_cons_self
    · rw [List.mem_toFinset]
      exact List.mem_cons_of_mem _ (hdone w hw)
  cases hentry : db.index.entryPoint with
  | none =>
      rw [hentry] at hstoring
      simp only at hstoring ⊢
      have hkeeps := hcontract.storeEncoded _ _ hworking.keeps request.id hid hnone
        (setup.storage.encodeRecord request.vec) request.id
        (Nat.lt_of_lt_of_le hid hcapacity) hstoring
      generalize setup.storage.storeEncoded request.id (setup.storage.encodeRecord request.vec)
        request.id db.storage = call at hstoring hkeeps ⊢
      obtain ⟨outcome, st⟩ := call
      change outcome = .returned () at hstoring
      subst hstoring
      refine ⟨st, _, rfl, hkeeps, ?_⟩
      have hsame : seen setup st { index with
            entryPoint := some request.id, maxLayer := request.draw.level } =
          { storeVector request.id (setup.storage.decodeRecord
              (setup.storage.encodeRecord request.vec))
              (linkNeighborsAsterDB setup.edges request.id [] early) with
            entryPoint := some request.id, maxLayer := request.draw.level } := by
        change { seen setup st index with
          entryPoint := some request.id, maxLayer := request.draw.level } = _
        rw [hearly, hshown st hkeeps]
        rfl
      rw [hsame]
      exact (hx.insertFirst hpublished hlinked hentry _).1
  | some e =>
      rw [hentry] at hstoring
      simp only at hstoring ⊢
      have hearlySeen : seen setup db.storage index = early := by
        rw [hearly, shown_eq hcontract hworking.keeps, ← hvectors]
      obtain ⟨selectedPerLayer, selectedLevel0, hselect, hupper, hlevel0⟩ :=
        selectAll_returns hx hpublished hlinked hwithin hfew hentry request.vec
      rw [hearlySeen, hselect]
      have hkeeps := hcontract.storeEncoded _ _
        (keeps_fetch hcontract request.draw.fetched hworking.keeps) request.id hid hnone
        (setup.storage.encodeRecord request.vec) request.draw.sectionKey
        request.draw.sectionKey.isLt hstoring
      simp only
      generalize setup.storage.storeEncoded request.id (setup.storage.encodeRecord request.vec)
        request.draw.sectionKey (fetch setup request.draw.fetched db.storage) = call
        at hstoring hkeeps ⊢
      obtain ⟨outcome, st⟩ := call
      change outcome = .returned () at hstoring
      subst hstoring
      obtain ⟨y, hlink, hnavigable, hyvectors⟩ := linkAll_returns hx hnew hpublished hlinked
        hentry hupper hlevel0
        (setup.storage.decodeRecord (setup.storage.encodeRecord request.vec))
      have hstored : seen setup st index = storeVector request.id
          (setup.storage.decodeRecord (setup.storage.encodeRecord request.vec)) early := by
        rw [hearly, hshown st hkeeps]
        rfl
      simp only [hstored, hlink]
      have hlater := keeps_fetch hcontract request.draw.refetched hkeeps
      refine ⟨_, y, rfl, hlater, ?_⟩
      have hsame : seen setup (fetch setup request.draw.refetched st) y = y := by
        rw [seen, hshown _ hlater, hpublished.vectors, ← hyvectors]
      rw [hsame]
      exact hnavigable

theorem Working.isAlive {db : Db F σ} {stored : Nat → Option R} {done : List Nat}
    (hworking : Working setup Keeps db stored done)
    (hcontract : Contract setup.storage capacity Keeps) (r : Nat) :
    isAlive setup db r = (stored r).isSome := by
  unfold StorageInserts.isAlive resolveInternal
  rw [hworking.updated, hworking.tombstoned]
  change (!false && setup.storage.vectorExists db.storage r) = _
  rw [hcontract.vectorExists db.storage stored hworking.keeps]
  rfl

/-- The insert of an id without a record returns OK and is counted. -/
theorem Working.insertDense {db : Db F σ} {stored : Nat → Option R} {done : List Nat}
    (hworking : Working setup Keeps db stored done)
    (hcontract : Contract setup.storage capacity Keeps) (hcapacity : capacity ≤ 2 ^ 64)
    {request : Request F} (hid : request.id < capacity) (hnone : stored request.id = none)
    (hvalid : validateInsertArgs setup request.vec request.metadata = .ok)
    (hfuel : done.length + 1 < request.draw.fuel)
    (hstoring : storing setup request db = .returned ()) :
    (insertDense setup .fine request db).1 = some .ok ∧
      Working setup Keeps (insertDense setup .fine request db).2
        (Function.update stored request.id (some (setup.storage.encodeRecord request.vec)))
        (request.id :: done) := by
  obtain ⟨st, index, hinsert, hkeeps, hnavigable⟩ :=
    hworking.insertNode hcontract hcapacity hid hnone hfuel hstoring
  have hcall : ∃ rows, StorageInserts.insertDense setup .fine request db =
      (some .ok, { db with
        storage := st, index := index, liveCount := db.liveCount + 1, rows := rows }) := by
    unfold StorageInserts.insertDense insertNew afterInsert
    rw [hworking.isAlive hcontract, hnone, hworking.tombstoned]
    simp only [hvalid, Answers.fine, ne_eq, not_true_eq_false, if_false, Option.isSome_none,
      Bool.false_eq_true, hinsert]
    split
    · exact ⟨db.rows, rfl⟩
    · exact ⟨_, rfl⟩
  obtain ⟨rows, hcall⟩ := hcall
  rw [hcall]
  refine ⟨rfl, hkeeps, hnavigable, fun id hsome => ?_, hworking.tombstoned, hworking.updated, ?_⟩
  · rw [Function.update_apply] at hsome
    split at hsome
    · rename_i hsame
      rw [hsame]
      exact List.mem_cons_self
    · exact List.mem_cons_of_mem _ (hworking.within id hsome)
  · change db.liveCount + 1 = _
    rw [hworking.count, List.length_cons]
    omega

/-! ## A run -/

theorem Working.insertAll (hcontract : Contract setup.storage capacity Keeps)
    (hcapacity : capacity ≤ 2 ^ 64) {total : Nat} (requests : List (Request F)) :
    ∀ {db : Db F σ} {stored : Nat → Option R} {done : List Nat},
      Working setup Keeps db stored done → (requests.map Request.id).Nodup →
      (∀ request ∈ requests, request.id < capacity ∧ stored request.id = none ∧
        validateInsertArgs setup request.vec request.metadata = .ok ∧
        total < request.draw.fuel) →
      done.length + requests.length ≤ total → NoFailingStore setup requests db →
      ∃ later, (insertAll setup .fine requests db).1 = (requests.map fun _ => some .ok) ∧
        Working setup Keeps (insertAll setup .fine requests db).2 later
          ((requests.map Request.id).reverse ++ done) ∧
        (∀ request ∈ requests,
          later request.id = some (setup.storage.encodeRecord request.vec)) ∧
        ∀ id, id ∉ requests.map Request.id → later id = stored id := by
  induction requests with
  | nil =>
      intro db stored done hworking _ _ _ _
      exact ⟨stored, rfl, hworking, by simp, fun _ _ => rfl⟩
  | cons request requests ih =>
      intro db stored done hworking hdistinct hrequests htotal hcalls
      obtain ⟨hnotin, hdistinct⟩ := List.nodup_cons.1 hdistinct
      obtain ⟨hid, hnone, hvalid, hfuel⟩ := hrequests request List.mem_cons_self
      rw [List.length_cons] at htotal
      obtain ⟨hok, hnext⟩ := hworking.insertDense hcontract hcapacity hid hnone hvalid
        (by omega) hcalls.1
      obtain ⟨later, hstatuses, hend, hstored, hothers⟩ := ih hnext hdistinct
        (fun other hother => by
          obtain ⟨hbelow, hunstored, hrest⟩ := hrequests other (List.mem_cons_of_mem _ hother)
          refine ⟨hbelow, ?_, hrest⟩
          rw [Function.update_of_ne]
          · exact hunstored
          · rintro hsame
            exact hnotin (hsame ▸ List.mem_map_of_mem hother))
        (by rw [List.length_cons]; omega) hcalls.2
      refine ⟨later, ?_, ?_, ?_, ?_⟩
      · change (StorageInserts.insertDense setup .fine request db).1 :: _ = _
        rw [hok, hstatuses]
        rfl
      · rw [List.map_cons, List.reverse_cons, List.append_assoc]
        exact hend
      · intro other hother
        rcases List.mem_cons.1 hother with rfl | hother
        · rw [hothers other.id hnotin, Function.update_self]
        · exact hstored other hother
      · intro id hid
        rw [List.map_cons, List.mem_cons, not_or] at hid
        rw [hothers id hid.2, Function.update_of_ne hid.1]

theorem Working.getDense {db : Db F σ} {stored : Nat → Option R} {done : List Nat}
    (hworking : Working setup Keeps db stored done)
    (hcontract : Contract setup.storage capacity Keeps) (r : Nat) :
    (getDense setup r db).1 = some (match stored r with
      | some record => .ok (setup.storage.decodeRecord record)
      | none => .error (.notFound "vector deleted or missing")) := by
  unfold StorageInserts.getDense
  rw [hworking.isAlive hcontract]
  cases hrecord : stored r with
  | none => rfl
  | some record =>
      have hread := hcontract.readVectorFromDisk _ _ hworking.keeps r record hrecord
      have hresolve : resolveInternal db r = r := by
        rw [resolveInternal, hworking.updated]
        rfl
      rw [hresolve]
      generalize setup.storage.readVectorFromDisk r db.storage = read at hread ⊢
      obtain ⟨outcome, st⟩ := read
      change outcome = .returned record at hread
      subst hread
      rfl

/-- Over a storage that keeps the interface inserts of distinct ids work. -/
theorem insertsWork_of_contract (hcontract : Contract setup.storage capacity Keeps)
    (hcapacity : capacity ≤ 2 ^ 64) {st : σ} (hkeeps : Keeps st fun _ => none)
    {requests : List (Request F)} (hrequests : WellFormed setup capacity requests)
    (hcalls : NoFailingStore setup requests (Db.fresh st)) :
    InsertsWork setup capacity requests (Db.fresh st) := by
  obtain ⟨later, hstatuses, hworking, hstored, hothers⟩ :=
    Working.insertAll hcontract hcapacity requests (working_fresh hkeeps hcontract)
      hrequests.distinct
      (fun request hrequest => ⟨hrequests.below request hrequest, rfl,
        hrequests.valid request hrequest, hrequests.fuel request hrequest⟩)
      (by simp) hcalls
  refine ⟨hstatuses, ?_, ?_, ?_⟩
  · rw [vectorCount, hworking.count]
    simp
  · intro request hrequest
    rw [hworking.getDense hcontract, hstored request hrequest]
  · intro id _ hid
    rw [hworking.getDense hcontract, hothers id hid]

end AsterVec.StorageInserts

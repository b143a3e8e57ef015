import AsterVec.DenseReached
import AsterVec.HttpBulkBuild
import AsterVec.Machines
import AsterVec.PagedVectorStorage

/-!
The routes of the HTTP server that write, over the dense store.  Ids are storage positions,
so the largest id of a stored vector bounds the arrays of the vector storage.
-/

namespace AsterVec.HttpRoutes

open AsterVec.Dense
open AsterVec.HttpBulkBuild
open AsterVec.HttpRequests
open AsterVec.IdTypes
open AsterVec.Machines
open AsterVec.Programs

variable {F : Type}

/-- The largest id the insert routes accept. -/
def kMaxInsertId : Nat := 100000000

/-- Decimal text that is a 64-bit number from end to end. -/
def parseId (text : String) : Option Nat :=
  match stoull text.toList with
  | some (u, []) => some u
  | _ => none

def badId : String := "id must be a positive integer"

/-- The numbers of a JSON array; `toFloat` converts a number of any kind. -/
def extractVector (toFloat : Json F → Option F) : Json F → Except String (List F)
  | .array items =>
      match items.mapM toFloat with
      | some v => .ok v
      | none => .error "vector elements must be numbers"
  | _ => .error "vector must be a JSON array of floats"

/-- The vector field of a body, of the dimension of the index. -/
def checkedVector (toFloat : Json F → Option F) (dim : Int) (place : String) (field : Json F) :
    Except HttpError (List F) :=
  match extractVector toFloat field with
  | .error what => .error ⟨400, "bad_vector", place ++ what⟩
  | .ok v =>
      if (v.length : Int) = dim then .ok v
      else
        .error ⟨400, "wrong_dim", place ++ "vector dim is " ++ toString v.length ++
          " but DB dim is " ++ toString dim⟩

/-- The id field of an insert: a number, or its text. -/
def readId (place : String) : Json F → Except HttpError Nat
  | .string text =>
      match parseId text with
      | some id => .ok id
      | none => .error ⟨400, "bad_id", place ++ badId⟩
  | .unsigned value => .ok value
  | _ => .error ⟨400, "bad_id", place ++ "id must be a non-negative integer or its string form"⟩

/-- A vector to insert, with its payload when there is one. -/
structure Item (F : Type) where
  id : Nat
  vector : List F
  metadata : Option String

/-- An item of an insert or of a batch; `place` names it in the errors of a batch. -/
def readItem (lib : JsonLibrary F) (toFloat : Json F → Option F) (dim : Int) (place : String)
    (item : Json F) : Except HttpError (Item F) :=
  match item.find? "id", item.find? "vector" with
  | some idField, some vectorField => do
      let id ← readId place idField
      if kMaxInsertId < id then
        .error ⟨400, "id_too_large", place ++ "id " ++ toString id ++
          " exceeds the current pilot id limit of " ++ toString kMaxInsertId ++
          " — use sequential (dense, 0-based) ids. This is a temporary " ++
          "pilot-tier ceiling and may be higher on larger instances."⟩
      else
        let vector ← checkedVector toFloat dim place vectorField
        let metadata := (item.find? "metadata").map fun
          | .string text => text
          | value => lib.dump value
        pure ⟨id, vector, metadata⟩
  | _, _ => .error ⟨400, "missing_field", place ++ "id and vector are required"⟩

/-- What the database says of arguments it refuses. -/
def validateInsert (lib : JsonLibrary F) (id : Nat) (metadata : String) : Except String Unit :=
  if kMaxRealId < id then .error "Invalid argument: real_id must fit in 63 bits"
  else if metadata = "" then .ok ()
  else if kMaxPayloadBytes < metadata.utf8ByteSize then
    .error ("Invalid argument: metadata JSON exceeds " ++ toString kMaxPayloadBytes ++ " bytes")
  else
    match lib.parse metadata.toUTF8.toList with
    | .error what => .error ("Invalid argument: metadata parse error: " ++ what)
    | .ok (.object _) => .ok ()
    | .ok _ => .error "Invalid argument: metadata must be a JSON object"

def parseBody (lib : JsonLibrary F) (body : List UInt8) : Except HttpError (Json F) :=
  match lib.parse body with
  | .error what => .error ⟨400, "bad_json", what⟩
  | .ok value => .ok value

/-- A write the database is asked for, its arguments accepted. -/
inductive Change (F : Type) where
  | insert (item : Item F)
  | update (id : Nat) (vector : List F)
  | delete (id : Nat)

def handleInsert (lib : JsonLibrary F) (toFloat : Json F → Option F) (dim : Int)
    (body : List UInt8) : Except HttpError (List (Change F)) := do
  let item ← readItem lib toFloat dim "" (← parseBody lib body)
  match validateInsert lib item.id (item.metadata.getD "") with
  | .error what => .error ⟨400, "db_error", what⟩
  | .ok () => pure [.insert item]

def kMaxBatchItems : Nat := 10000

def kMaxBatchBytes : Nat := 64 * 1024 * 1024

/-- Check every item before any is written. -/
def readItems (lib : JsonLibrary F) (toFloat : Json F → Option F) (dim : Int) :
    Nat → List (Json F) → Except HttpError (List (Change F))
  | _, [] => .ok []
  | k, field :: fields => do
      let place := "item " ++ toString k ++ ": "
      let item ← readItem lib toFloat dim place field
      match validateInsert lib item.id (item.metadata.getD "") with
      | .error what => .error ⟨400, "bad_item", place ++ what⟩
      | .ok () =>
          let rest ← readItems lib toFloat dim (k + 1) fields
          pure (.insert item :: rest)

def handleInsertBatch (lib : JsonLibrary F) (toFloat : Json F → Option F) (dim : Int)
    (body : List UInt8) : Except HttpError (List (Change F)) :=
  if kMaxBatchBytes < body.length then
    .error ⟨413, "batch_too_large", "body exceeds " ++ toString kMaxBatchBytes ++ " bytes"⟩
  else do
    match (← parseBody lib body).find? "items" with
    | some (.array []) => .error ⟨400, "empty_batch", "items must be non-empty"⟩
    | some (.array items) =>
        if kMaxBatchItems < items.length then
          .error ⟨413, "batch_too_large", "batch has " ++ toString items.length ++
            " items, max is " ++ toString kMaxBatchItems⟩
        else readItems lib toFloat dim 0 items
    | _ => .error ⟨400, "missing_field", "items array is required"⟩

/-- The id of a path and the vector of a body.  No bound of the insert routes is checked. -/
def handlePut (lib : JsonLibrary F) (toFloat : Json F → Option F) (dim : Int) (path : String)
    (body : List UInt8) : Except HttpError (List (Change F)) :=
  match parseId path with
  | none => .error ⟨400, "bad_id", badId⟩
  | some id => do
      match (← parseBody lib body).find? "vector" with
      | none => .error ⟨400, "missing_field", "vector is required"⟩
      | some field =>
          let vector ← checkedVector toFloat dim "" field
          match validateInsert lib id "" with
          | .error what => .error ⟨400, "db_error", what⟩
          | .ok () => pure [.update id vector]

def handleDelete (path : String) : Except HttpError (List (Change F)) :=
  match parseId path with
  | none => .error ⟨400, "bad_id", badId⟩
  | some id =>
      if kMaxRealId < id then
        .error ⟨400, "db_error", "Invalid argument: real_id must fit in 63 bits"⟩
      else .ok [.delete id]

def toLower (text : String) : String := text.map Char.toLower

/-- The dimension of a new index. -/
def handleCreateIndex (lib : JsonLibrary F) (body : List UInt8) : Except HttpError Int := do
  let body ← parseBody lib body
  match body.find? "dim" with
  | none => .error ⟨400, "missing_field", "dim is required"⟩
  | some (.unsigned dim) =>
      if dim = 0 ∨ 4000 < dim then .error ⟨400, "bad_dim", "dim must be in [1, 4000]"⟩
      else
        match body.find? "metric" with
        | none => pure dim
        | some (.string metric) =>
            if toLower metric = "l2" ∨ toLower metric = "cosine" then pure dim
            else .error ⟨400, "bad_metric", "metric must be 'l2' or 'cosine'"⟩
        | some _ => .error ⟨400, "bad_metric", "metric must be a string ('l2' or 'cosine')"⟩
  | some _ => .error ⟨400, "bad_dim", "dim must be a positive integer"⟩

/-- The length of the location arrays once an id has room, in the arithmetic of the engine. -/
def roomFor (totalVectors i : Nat) : Nat :=
  if isDirectId i ∧ totalVectors ≤ i then
    (PagedVectorStorage.Store.growCapacity totalVectors (i + 1)).getD totalVectors
  else totalVectors

/-- A store and the length of its location arrays. -/
abbrev Sized (F : Type) := State (List F) String × Nat

/-- The calls on a store; a stored vector makes room for its id first. -/
def execSized : (c : Call (List F) String) → Sized F → Reply c × Sized F
  | .storeVector i vector, x =>
      ((), (exec (.storeVector i vector) x.1).2, roomFor x.2 i)
  | c, x => ((exec c x.1).1, (exec c x.1).2, x.2)

/-- A search finds stored vectors only. -/
def located (st : State (List F) String) (plan : Plan) : Plan :=
  { plan with selected := plan.selected.filter fun i => (st.vectors i).isSome }

/-- An empty payload text stands for no payload field. -/
def Change.call (plan : Plan) : Change F → WriteCall (List F) String
  | insert item =>
      .upsert .insert ⟨item.id, item.vector, item.metadata.filter (· ≠ ""), plan⟩
  | update id vector => .upsert .update ⟨id, vector, none, plan⟩
  | delete id => .delete id

def Change.apply (plan : Plan) (change : Change F) (x : Sized F) : Sized F :=
  ((change.call (located x.1 plan)).program.run execSized x).2

/-- The writes of one request, each with what its searches find. -/
def applyAll (plans : Nat → Plan) : Nat → List (Change F) → Sized F → Sized F
  | _, [], x => x
  | k, change :: changes, x => applyAll plans (k + 1) changes (change.apply (plans k) x)

/-- The server: its index, when there is one, with the dimension. -/
structure Server (F : Type) where
  index : Option (Config × Sized F)

/-- A request to one of the routes.  The payload routes write rows only; their rows are as
the database makes them. -/
inductive HttpRequest (F : Type) where
  | createIndex (body : List UInt8)
  | deleteIndex
  | insert (body : List UInt8)
  | insertBatch (body : List UInt8)
  | put (path : String) (body : List UInt8)
  | delete (path : String)
  | payload (call : PayloadCall String)
  | bulkBuild (req : Request)
  | read

/-- A request, and what is decided while it is served: the findings of its searches, and the
graph of a bulk build with the order in which it stores its vectors. -/
structure Served (F : Type) where
  request : HttpRequest F
  plans : Nat → Plan
  build : Dense.BulkBuild (List F)
  order : List Nat

/-- What the server is set up with. -/
structure Setup (F : Type) where
  lib : JsonLibrary F
  toFloat : Json F → Option F
  vecFileCapacity : Nat

/-- Load the vectors of a bulk build into an empty store, and then its payloads. -/
def bulkBuild (served : Served F) (call : BuildCall) (x : Sized F) : Sized F :=
  if x.1.entryPoint = none ∧ (served.build.vectors.length : Int) = call.n ∧
      ∀ i ∈ served.order, i < served.build.vectors.length then
    ((setPayloadBatch call.payloadItems).run execSized
      (x.1.bulkBuild served.build, served.order.foldl roomFor x.2)).2
  else x

/-- The writes of a request on an index of this dimension. -/
def changes (setup : Setup F) (cfg : Config) :
    HttpRequest F → Except HttpError (List (Change F))
  | .insert body => handleInsert setup.lib setup.toFloat cfg.dim body
  | .insertBatch body => handleInsertBatch setup.lib setup.toFloat cfg.dim body
  | .put path body => handlePut setup.lib setup.toFloat cfg.dim path body
  | .delete path => handleDelete path
  | _ => .ok []

/-- The index after a request. -/
def serveIndex (setup : Setup F) (cfg : Config) (served : Served F) (x : Sized F) : Sized F :=
  match served.request with
  | .payload call => if call.r ≤ kMaxRealId then (call.program.run execSized x).2 else x
  | .bulkBuild req =>
      match handleBulkBuild setup.lib cfg true req with
      | .ok call => bulkBuild served call x
      | .error _ => x
  | request =>
      match changes setup cfg request with
      | .ok changes => applyAll served.plans 0 changes x
      | .error _ => x

/-- An index of the asked dimension over an empty store. -/
def createIndex (setup : Setup F) (body : List UInt8) : Option (Config × Sized F) :=
  match handleCreateIndex setup.lib body with
  | .error _ => none
  | .ok dim =>
      if h : 0 < dim ∧ dim < 2 ^ 31 then
        some (⟨dim, h.1, h.2⟩, State.empty _ _, setup.vecFileCapacity)
      else none

def serve (setup : Setup F) (server : Server F) (served : Served F) : Option (Server F) :=
  match server.index, served.request with
  | none, .createIndex body => some ⟨createIndex setup body⟩
  | none, _ => some server
  | some _, .deleteIndex => some ⟨none⟩
  | some (cfg, x), _ => some ⟨some (cfg, serveIndex setup cfg served x)⟩

/-- The only route without the bound of the ids is given an id within it, and a bulk build of
an empty index no more vectors than it has ids. -/
def Capped (server : Server F) (served : Served F) : Prop :=
  ∀ cfg x, server.index = some (cfg, x) →
    match served.request with
    | .put path _ => ∀ id, parseId path = some id → id ≤ kMaxInsertId ∨ kMaxRealId < id
    | .bulkBuild req => x.1.entryPoint = none → ∀ n, stoll (getHdr req "N").toList = some n →
        n.bmod (2 ^ 32) ≤ kMaxInsertId + 1
    | _ => True

/-- No vector is stored beyond the largest id, neither at the id itself nor as its current
version, and the location arrays are less than doubled beyond it. -/
def WithinCeiling (setup : Setup F) (server : Server F) : Prop :=
  ∀ cfg x, server.index = some (cfg, x) →
    (∀ i < 2 ^ 63, Located x.1 i → i ≤ kMaxInsertId) ∧
    (∀ r < 2 ^ 63, Located x.1 (x.1.tables.resolveInternal r) → r ≤ kMaxInsertId) ∧
    x.2 ≤ max setup.vecFileCapacity (2 * (kMaxInsertId + 1) - 1)

section Growth

open PagedVectorStorage.Store

theorem doubleUntil_le {minCapacity : Nat} :
    ∀ {fuel target found : Nat}, doubleUntil minCapacity fuel target = some found →
      found ≤ max target (2 * minCapacity - 1) := by
  intro fuel
  induction fuel with
  | zero =>
      intro target found h
      rw [doubleUntil] at h
      split at h
      · cases h
      · obtain rfl := Option.some.inj h
        exact le_max_left _ _
  | succ fuel ih =>
      intro target found h
      rw [doubleUntil] at h
      split at h
      · have hle := ih h
        have hmod := Nat.mod_le (target * 2) (2 ^ 64)
        omega
      · obtain rfl := Option.some.inj h
        exact le_max_left _ _

/-- Room for an id is less than doubled beyond the id. -/
theorem roomFor_le {totalVectors i bound limit : Nat} (hi : i < 2 ^ 63 → i ≤ limit)
    (htotal : totalVectors ≤ max bound (2 * (limit + 1) - 1)) :
    roomFor totalVectors i ≤ max bound (2 * (limit + 1) - 1) := by
  unfold roomFor
  split
  · next hdirect =>
    have hlimit := hi ((isDirectId_iff i).mp hdirect.1)
    cases hgrow : growCapacity totalVectors (i + 1) with
    | none => exact htotal
    | some found =>
        have hfound := doubleUntil_le hgrow
        change found ≤ _
        split at hfound <;> omega
  · exact htotal

end Growth

section Runs

variable {α : Type}

theorem execSized_eq (c : Call (List F) String) (x : Sized F) :
    ((execSized c x).1, (execSized c x).2.1) = exec c x.1 := by
  cases c <;> rfl

theorem run_execSized (p : Prog (List F) String α) (x : Sized F) :
    ((p.run execSized x).1, (p.run execSized x).2.1) = p.run exec x.1 := by
  induction p generalizing x with
  | done value => rfl
  | call c next ih =>
      have hexec := execSized_eq c x
      change (((next _).run execSized _).1, ((next _).run execSized _).2.1) = (next _).run exec _
      rw [ih, ← hexec]

theorem run_execSized_store (p : Prog (List F) String α) (x : Sized F) :
    (p.run execSized x).2.1 = (p.run exec x.1).2 :=
  congrArg Prod.snd (run_execSized p x)

theorem located_run (p : Prog (List F) String α) (st : State (List F) String) {i : Nat}
    (hi : Located st i) : Located (p.run exec st).2 i := by
  induction p generalizing st with
  | done value => exact hi
  | call c next ih => exact ih _ _ ((grows_exec c st).located i hi)

/-- The arrays stay within a bound as long as the ids stored in the end do. -/
theorem run_execSized_le (p : Prog (List F) String α) (x : Sized F) {bound limit : Nat}
    (hstored : ∀ i < 2 ^ 63, Located (p.run exec x.1).2 i → i ≤ limit)
    (htotal : x.2 ≤ max bound (2 * (limit + 1) - 1)) :
    (p.run execSized x).2.2 ≤ max bound (2 * (limit + 1) - 1) := by
  induction p generalizing x with
  | done value => exact htotal
  | call c next ih =>
      have hstore : (execSized c x).2.1 = (exec c x.1).2 := congrArg Prod.snd (execSized_eq c x)
      have hreply : (execSized c x).1 = (exec c x.1).1 := congrArg Prod.fst (execSized_eq c x)
      refine ih _ (execSized c x).2 ?_ ?_
      · rw [hstore, hreply]
        exact hstored
      · cases c with
        | storeVector i vector =>
            refine roomFor_le (fun hi => hstored i hi
              (located_run (next ()) (exec (.storeVector i vector) x.1).2 ?_)) htotal
            change (Function.update x.1.vectors i (some vector) i).isSome = true
            rw [Function.update_self]
            rfl
        | _ => exact htotal

/-- The program stores no vector. -/
def StoresNone : Prog (List F) String α → Prop
  | .done _ => True
  | .call c next => (∀ i vector, c ≠ .storeVector i vector) ∧ ∀ reply, StoresNone (next reply)

theorem StoresNone.vectors {p : Prog (List F) String α} (hp : StoresNone p)
    (st : State (List F) String) : (p.run exec st).2.vectors = st.vectors := by
  induction p generalizing st with
  | done value => rfl
  | call c next ih =>
      refine (ih _ (hp.2 _) _).trans ?_
      cases c with
      | storeVector i vector => exact absurd rfl (hp.1 i vector)
      | _ => rfl

theorem StoresNone.bind {β : Type} {p : Prog (List F) String α}
    {follow : α → Prog (List F) String β} (hp : StoresNone p)
    (hfollow : ∀ value, StoresNone (follow value)) : StoresNone (p >>= follow) := by
  induction p with
  | done value => exact hfollow value
  | call c next ih => exact ⟨hp.1, fun reply => ih reply (hp.2 reply)⟩

theorem storesNone_perform {c : Call (List F) String}
    (hc : ∀ i vector, c ≠ .storeVector i vector) :
    StoresNone (Program.perform c) :=
  ⟨hc, fun _ => trivial⟩

theorem storesNone_isAlive (r : Nat) : StoresNone (isAlive r : Prog (List F) String Bool) := by
  refine StoresNone.bind (storesNone_perform (by simp)) fun i => ?_
  refine StoresNone.bind (storesNone_perform (by simp)) fun dead => ?_
  cases (show Bool from dead) with
  | true => trivial
  | false => exact storesNone_perform (by simp)

theorem storesNone_deleteDense (r : Nat) :
    StoresNone (deleteDense r : Prog (List F) String Bool) := by
  refine StoresNone.bind (storesNone_isAlive r) fun _ => ?_
  refine StoresNone.bind (storesNone_perform (by simp)) fun i => ?_
  refine StoresNone.bind (storesNone_perform (by simp)) fun present => ?_
  cases (show Bool from present) with
  | true =>
      exact StoresNone.bind (storesNone_perform (by simp)) fun _ =>
        StoresNone.bind (storesNone_perform (by simp)) fun _ =>
          StoresNone.bind (storesNone_perform (by simp)) fun _ => trivial
  | false => trivial

theorem storesNone_payload (call : PayloadCall String) :
    StoresNone (call.program : Prog (List F) String Bool) := by
  cases call with
  | set r row =>
      refine StoresNone.bind (storesNone_isAlive r) fun alive => ?_
      cases alive with
      | true =>
          exact StoresNone.bind (storesNone_perform (by simp)) fun _ =>
            StoresNone.bind (storesNone_perform (by simp)) fun _ => trivial
      | false => trivial
  | update r patch =>
      refine StoresNone.bind (storesNone_isAlive r) fun alive => ?_
      cases alive with
      | true =>
          exact StoresNone.bind (storesNone_perform (by simp)) fun _ =>
            StoresNone.bind (storesNone_perform (by simp)) fun _ =>
              StoresNone.bind (storesNone_perform (by simp)) fun _ => trivial
      | false => trivial
  | deleteKeys r erase =>
      refine StoresNone.bind (storesNone_perform (by simp)) fun i => ?_
      refine StoresNone.bind (storesNone_perform (by simp)) fun existing => ?_
      split
      · trivial
      · exact StoresNone.bind (storesNone_perform (by simp)) fun _ => trivial

theorem storesNone_setPayloadBatch (items : List (Nat × String)) :
    StoresNone (setPayloadBatch items : Prog (List F) String Bool) := by
  have hitems : StoresNone (resolveItems items : Prog (List F) String _) := by
    induction items with
    | nil => trivial
    | cons item items ih =>
        refine StoresNone.bind (storesNone_isAlive item.1) fun alive => ?_
        cases alive with
        | true =>
            exact StoresNone.bind (storesNone_perform (by simp)) fun _ =>
              StoresNone.bind ih fun _ => trivial
        | false => trivial
  refine StoresNone.bind hitems fun resolved => ?_
  cases resolved with
  | none => trivial
  | some rows => exact StoresNone.bind (storesNone_perform (by simp)) fun _ => trivial

end Runs

section Ceiling

/-- What every request within the condition keeps. -/
structure Ceiled (bound : Nat) (x : Sized F) : Prop where
  settled : Settled x.1
  stored : ∀ i < 2 ^ 63, Located x.1 i → i ≤ kMaxInsertId
  total : x.2 ≤ max bound (2 * (kMaxInsertId + 1) - 1)

variable {bound : Nat} {x : Sized F}

/-- A version is located only where its id is. -/
theorem Ceiled.current (hx : Ceiled bound x) {r : Nat} (hr : r < 2 ^ 63)
    (hlocated : Located x.1 (x.1.tables.resolveInternal r)) : r ≤ kMaxInsertId := by
  rcases hx.settled.quiet with ⟨owner, hquiet⟩
  refine hx.stored r hr ?_
  have hself : owns owner r r = true := owns_iff.mpr (.inl rfl)
  have hvector : ((sliceOf r owner x.1).vectors r) = x.1.vectors r := if_pos hself
  cases hmap : (sliceOf r owner x.1).mapping with
  | none =>
      have hresolve : x.1.tables.resolveInternal r = r := by
        rw [← hquiet.current_eq r, Slice.current, hmap]
        rfl
      rwa [hresolve] at hlocated
  | some m =>
      have hdead := ((hquiet.idle r hr).mapped m hmap).1
      have hsome := (hquiet.inv r hr).located r hdead
      rw [hvector] at hsome
      exact hsome

/-- A write leaves the vectors at the other ids of callers alone. -/
theorem located_of_write {st : State (List F) String} (hsettled : Settled st)
    (call : WriteCall (List F) String) (hr : call.r < 2 ^ 63) {i : Nat} (hi : i < 2 ^ 63)
    (hne : i ≠ call.r) (hlocated : Located (call.program.run exec st).2 i) : Located st i := by
  rcases hsettled.quiet with ⟨owner, hquiet⟩
  have hsafe : SafeWrite call.r call.program (fun _ s => s.Idle call.r ∧ True)
      (sliceOf call.r owner st) := by
    have hinv := hquiet.inv _ hr
    have hidle := hquiet.idle _ hr
    cases call with
    | upsert kind write =>
        exact (safe_writeDense hinv hidle kind).mono fun _ _ h => ⟨h.2, trivial⟩
    | delete r => exact (safe_deleteDense hinv hidle).mono fun _ _ h => ⟨h.2, trivial⟩
  rcases hquiet.run_slices hr hsafe with ⟨owner', -, -, hsame⟩
  have hslice := congrArg (fun s => s.vectors i) (hsame i hi hne)
  have hself : ∀ o : Nat → Option Nat, owns o i i = true := fun o => owns_iff.mpr (.inl rfl)
  simp only [sliceOf, hself, if_true] at hslice
  unfold Located at *
  rwa [← hslice]

/-- The id of a change is one it may have. -/
def Change.Fine : Change F → Prop
  | insert item => item.id ≤ kMaxInsertId
  | update id _ => id ≤ kMaxInsertId
  | delete id => id ≤ kMaxRealId

theorem Ceiled.apply (hx : Ceiled bound x) (plan : Plan) {change : Change F}
    (hfine : change.Fine) : Ceiled bound (change.apply plan x) := by
  have hlarge : kMaxInsertId < 2 ^ 63 := by decide
  have hr : (change.call (located x.1 plan)).r < 2 ^ 63 := by
    cases change with
    | insert item => exact lt_of_le_of_lt hfine hlarge
    | update id vector => exact lt_of_le_of_lt hfine hlarge
    | delete id => exact (le_kMaxRealId_iff _).mp hfine
  have hselected : ∀ n ∈ (change.call (located x.1 plan)).selected, Located x.1 n := by
    cases change with
    | delete id => exact fun n hn => absurd hn List.not_mem_nil
    | _ => exact fun n hn => (List.mem_filter.mp hn).2
  have hstored : ∀ i < 2 ^ 63,
      Located ((change.call (located x.1 plan)).program.run exec x.1).2 i → i ≤ kMaxInsertId := by
    intro i hi hlocated
    by_cases hne : i = (change.call (located x.1 plan)).r
    · cases change with
      | insert item => exact hne ▸ hfine
      | update id vector => exact hne ▸ hfine
      | delete id =>
          refine hx.stored i hi ?_
          unfold Located at *
          rwa [show ((Change.call (located x.1 plan) (.delete id : Change F)).program.run exec
            x.1).2.vectors = x.1.vectors from (storesNone_deleteDense id).vectors x.1] at hlocated
    · exact hx.stored i hi (located_of_write hx.settled _ hr hi hne hlocated)
  refine ⟨?_, ?_, run_execSized_le _ _ hstored hx.total⟩
  · rw [Change.apply, run_execSized_store]
    exact hx.settled.run_write _ hr hselected
  · rw [Change.apply, run_execSized_store]
    exact hstored

theorem Ceiled.applyAll (plans : Nat → Plan) {changes : List (Change F)}
    (hfine : ∀ change ∈ changes, change.Fine) :
    ∀ {k : Nat} {x : Sized F}, Ceiled bound x → Ceiled bound (applyAll plans k changes x) := by
  induction changes with
  | nil => exact fun hx => hx
  | cons change changes ih =>
      exact fun hx => ih (fun c hc => hfine c (List.mem_cons_of_mem _ hc))
        (hx.apply _ (hfine change List.mem_cons_self))

/-- A program that stores nothing. -/
theorem Ceiled.keep {p : Prog (List F) String Bool} (hx : Ceiled bound x)
    (hp : StoresNone p) (hsettled : Settled (p.run exec x.1).2) :
    Ceiled bound (p.run execSized x).2 := by
  have hstored : ∀ i < 2 ^ 63, Located (p.run exec x.1).2 i → i ≤ kMaxInsertId := by
    intro i hi hlocated
    unfold Located at hlocated
    rw [hp.vectors] at hlocated
    exact hx.stored i hi hlocated
  refine ⟨?_, ?_, run_execSized_le _ _ hstored hx.total⟩
  · rwa [run_execSized_store]
  · rwa [run_execSized_store]

theorem Ceiled.payload (hx : Ceiled bound x) {call : PayloadCall String}
    (hr : call.r ≤ kMaxRealId) : Ceiled bound ((call.program).run execSized x).2 :=
  hx.keep (storesNone_payload call)
    (hx.settled.run_payload call ((le_kMaxRealId_iff _).mp hr))

theorem foldl_roomFor_le {order : List Nat} (horder : ∀ i ∈ order, i ≤ kMaxInsertId) :
    ∀ {total : Nat}, total ≤ max bound (2 * (kMaxInsertId + 1) - 1) →
      order.foldl roomFor total ≤ max bound (2 * (kMaxInsertId + 1) - 1) := by
  induction order with
  | nil => exact fun htotal => htotal
  | cons i order ih =>
      exact fun htotal => ih (fun j hj => horder j (List.mem_cons_of_mem _ hj))
        (roomFor_le (fun _ => horder i List.mem_cons_self) htotal)

theorem collectPayloads_lt {lib : JsonLibrary F} {payloads : List (Json F)} :
    ∀ {i : Nat} {items : List (Nat × String)}, collectPayloads lib i payloads = .ok items →
      ∀ item ∈ items, item.1 < i + payloads.length := by
  induction payloads with
  | nil =>
      intro i items h item hitem
      obtain rfl := Except.ok.inj h
      exact absurd hitem List.not_mem_nil
  | cons payload payloads ih =>
      intro i items h item hitem
      rw [collectPayloads] at h
      rw [List.length_cons]
      split at h
      · have := ih h item hitem
        omega
      · split at h
        · cases h
        · split at h
          · cases h
          · cases hrest : collectPayloads lib (i + 1) payloads with
            | error e =>
                rw [hrest] at h
                cases h
            | ok rest =>
                rw [hrest] at h
                obtain rfl := Except.ok.inj h
                rcases List.mem_cons.mp hitem with rfl | hitem
                · omega
                · have := ih hrest item hitem
                  omega

theorem trailingPayloads_lt {lib : JsonLibrary F} {n : Int} {tail : List UInt8}
    {items : List (Nat × String)} (h : trailingPayloads lib n tail = .ok items) :
    ∀ item ∈ items, (item.1 : Int) < n := by
  intro item hitem
  unfold trailingPayloads at h
  split at h
  · obtain rfl := Except.ok.inj h
    exact absurd hitem List.not_mem_nil
  · split at h
    · cases h
    · split at h
      · next hlen =>
        have := collectPayloads_lt h item hitem
        omega
      · cases h
    · cases h

theorem Ceiled.bulkBuild (hx : Ceiled bound x) (served : Served F) {call : BuildCall}
    (hitems : ∀ item ∈ call.payloadItems, item.1 < 2 ^ 63)
    (hn : x.1.entryPoint = none → call.n ≤ kMaxInsertId + 1) :
    Ceiled bound (bulkBuild served call x) := by
  unfold HttpRoutes.bulkBuild
  split
  · next hready =>
    rcases hready with ⟨hempty, hlen, horder⟩
    have hle := hn hempty
    have hsettled := hx.settled.bulkBuild served.build hempty
    have hbuilt : Ceiled bound (x.1.bulkBuild served.build, served.order.foldl roomFor x.2) := by
      refine ⟨hsettled, fun i hi hlocated => ?_, foldl_roomFor_le (fun i hi => ?_) hx.total⟩
      · by_contra hgt
        have hnone : served.build.vectors[i]? = none := by
          rw [List.getElem?_eq_none_iff]
          omega
        refine hx.settled.rooted hempty i ?_
        change ((served.build.vectors[i]?).or (x.1.vectors i)).isSome = true at hlocated
        rwa [hnone, Option.none_or] at hlocated
      · have := horder i hi
        omega
    exact hbuilt.keep (storesNone_setPayloadBatch _) (hsettled.run_payloads _ hitems)
  · exact hx

end Ceiling

section Handlers

variable {lib : JsonLibrary F} {toFloat : Json F → Option F} {dim : Int}

theorem readItem_le {place : String} {field : Json F} {item : Item F}
    (h : readItem lib toFloat dim place field = .ok item) : item.id ≤ kMaxInsertId := by
  unfold readItem at h
  split at h
  · next idField vectorField _ _ =>
    cases hid : readId place idField with
    | error e =>
        rw [hid] at h
        cases h
    | ok id =>
        rw [hid] at h
        simp only [bind, Except.bind] at h
        split at h
        · cases h
        · next hle =>
          split at h
          · cases h
          · obtain rfl := Except.ok.inj h
            exact Nat.not_lt.mp hle
  · cases h

theorem handleInsert_fine {body : List UInt8} {changes : List (Change F)}
    (h : handleInsert lib toFloat dim body = .ok changes) : ∀ change ∈ changes, change.Fine := by
  unfold handleInsert at h
  simp only [bind, Except.bind] at h
  split at h
  · cases h
  · split at h
    · cases h
    · next item hitem =>
      split at h
      · cases h
      · obtain rfl := Except.ok.inj h
        intro change hchange
        obtain rfl := List.mem_singleton.mp hchange
        exact readItem_le hitem

theorem readItems_fine {fields : List (Json F)} :
    ∀ {k : Nat} {changes : List (Change F)}, readItems lib toFloat dim k fields = .ok changes →
      ∀ change ∈ changes, change.Fine := by
  induction fields with
  | nil =>
      intro k changes h change hchange
      obtain rfl := Except.ok.inj h
      exact absurd hchange List.not_mem_nil
  | cons field fields ih =>
      intro k changes h change hchange
      unfold readItems at h
      simp only [bind, Except.bind] at h
      split at h
      · cases h
      · next item hitem =>
        split at h
        · cases h
        · split at h
          · cases h
          · next rest hrest =>
            obtain rfl := Except.ok.inj h
            rcases List.mem_cons.mp hchange with rfl | hchange
            · exact readItem_le hitem
            · exact ih hrest change hchange

theorem handleInsertBatch_fine {body : List UInt8} {changes : List (Change F)}
    (h : handleInsertBatch lib toFloat dim body = .ok changes) :
    ∀ change ∈ changes, change.Fine := by
  unfold handleInsertBatch at h
  split at h
  · cases h
  · simp only [bind, Except.bind] at h
    split at h
    · cases h
    · split at h
      · cases h
      · split at h
        · cases h
        · exact readItems_fine h
      · cases h

theorem handlePut_fine {path : String} {body : List UInt8} {changes : List (Change F)}
    (hcap : ∀ id, parseId path = some id → id ≤ kMaxInsertId ∨ kMaxRealId < id)
    (h : handlePut lib toFloat dim path body = .ok changes) :
    ∀ change ∈ changes, change.Fine := by
  unfold handlePut at h
  split at h
  · cases h
  · next id hid =>
    simp only [bind, Except.bind] at h
    split at h
    · cases h
    · split at h
      · cases h
      · split at h
        · cases h
        · split at h
          · cases h
          · next hvalid =>
            obtain rfl := Except.ok.inj h
            intro change hchange
            obtain rfl := List.mem_singleton.mp hchange
            refine (hcap id hid).resolve_right fun hlarge => ?_
            rw [validateInsert, if_pos hlarge] at hvalid
            cases hvalid

theorem handleDelete_fine {path : String} {changes : List (Change F)}
    (h : handleDelete path = .ok changes) : ∀ change ∈ changes, change.Fine := by
  unfold handleDelete at h
  split at h
  · cases h
  · split at h
    · cases h
    · next hle =>
      obtain rfl := Except.ok.inj h
      intro change hchange
      obtain rfl := List.mem_singleton.mp hchange
      exact Nat.not_lt.mp hle

end Handlers

section Serving

variable {setup : Setup F}

theorem Ceiled.serveIndex {cfg : Config} {served : Served F} {x : Sized F}
    (hx : Ceiled setup.vecFileCapacity x)
    (hcap : Capped ⟨some (cfg, x)⟩ served) :
    Ceiled setup.vecFileCapacity (serveIndex setup cfg served x) := by
  have hcapped := hcap cfg x rfl
  unfold HttpRoutes.serveIndex
  cases hrequest : served.request with
  | payload call =>
      simp only
      split
      · next hr => exact hx.payload hr
      · exact hx
  | bulkBuild req =>
      rw [hrequest] at hcapped
      simp only
      split
      · next call hcall =>
        rcases handleBulkBuild_ok_iff.mp hcall with ⟨-, n, items, hn, -, -, -, hitems, rfl⟩
        refine hx.bulkBuild served (fun item hitem => ?_) fun hempty => hcapped hempty n hn
        have hlt : (item.1 : Int) < n := trailingPayloads_lt hitems item hitem
        have hn64 : n < 2 ^ (64 - 1) := scanSigned_lt hn
        omega
      · exact hx
  | put path body =>
      rw [hrequest] at hcapped
      simp only
      split
      · next changes hchanges => exact hx.applyAll _ (handlePut_fine hcapped hchanges)
      · exact hx
  | insert body =>
      simp only
      split
      · next changes hchanges => exact hx.applyAll _ (handleInsert_fine hchanges)
      · exact hx
  | insertBatch body =>
      simp only
      split
      · next changes hchanges => exact hx.applyAll _ (handleInsertBatch_fine hchanges)
      · exact hx
  | delete path =>
      simp only
      split
      · next changes hchanges => exact hx.applyAll _ (handleDelete_fine hchanges)
      · exact hx
  | createIndex body => exact hx
  | deleteIndex => exact hx
  | read => exact hx

/-- The index of the server, when there is one. -/
def CeiledServer (setup : Setup F) (server : Server F) : Prop :=
  ∀ cfg x, server.index = some (cfg, x) → Ceiled setup.vecFileCapacity x

theorem CeiledServer.serve {server server' : Server F} {served : Served F}
    (hserver : CeiledServer setup server) (hcap : Capped server served)
    (hserve : serve setup server served = some server') : CeiledServer setup server' := by
  rcases server with ⟨index⟩
  cases index with
  | none =>
      cases hrequest : served.request with
      | createIndex body =>
          rw [HttpRoutes.serve, hrequest] at hserve
          obtain rfl := Option.some.inj hserve
          intro cfg x hindex
          unfold createIndex at hindex
          split at hindex
          · cases hindex
          · split at hindex
            · obtain ⟨-, rfl⟩ := Prod.mk.inj (Option.some.inj hindex)
              exact ⟨Reached.empty.settled,
                fun i _ hi => absurd hi (by simp [Located, State.empty]),
                le_max_left _ _⟩
            · cases hindex
      | _ =>
          rw [HttpRoutes.serve, hrequest] at hserve
          obtain rfl := Option.some.inj hserve
          exact hserver
  | some index =>
      rcases index with ⟨cfg, x⟩
      cases hrequest : served.request with
      | deleteIndex =>
          rw [HttpRoutes.serve, hrequest] at hserve
          obtain rfl := Option.some.inj hserve
          intro cfg x hindex
          cases hindex
      | _ =>
          rw [HttpRoutes.serve, hrequest] at hserve
          obtain rfl := Option.some.inj hserve
          intro cfg' x' hindex
          obtain ⟨rfl, rfl⟩ := Prod.mk.inj (Option.some.inj hindex)
          exact (hserver _ _ rfl).serveIndex hcap

/-- **The largest id holds** in every run whose requests are within the condition. -/
theorem withinCeiling_of_capped {server : Server F} {requests : List (Served F)}
    (hmeets : Meets (serve setup) Capped ⟨none⟩ requests)
    (hrun : run (serve setup) ⟨none⟩ requests = some server) : WithinCeiling setup server := by
  have hceiled : CeiledServer setup server :=
    hmeets.invariant (fun _ _ _ hinv hcap hserve => CeiledServer.serve hinv hcap hserve)
      (fun cfg x hindex => by cases hindex) hrun
  intro cfg x hindex
  have hx := hceiled cfg x hindex
  exact ⟨hx.stored, fun r hr hlocated => hx.current hr hlocated, hx.total⟩

end Serving

/-- A JSON object with the dimension 1, and one with a vector of that dimension. -/
def dimBody : List UInt8 := [123, 34, 100, 105, 109, 34, 58, 49, 125]

def vectorBody : List UInt8 := [123, 34, 118, 101, 99, 116, 111, 114, 34, 58, 91, 49, 93, 125]

def setupOne : Setup Nat where
  lib :=
    { parse := fun body =>
        if body = dimBody then .ok (.object [("dim", .unsigned 1)])
        else if body = vectorBody then .ok (.object [("vector", .array [.unsigned 1])])
        else .error "parse error"
      dump := fun _ => "" }
  toFloat
    | .unsigned value => some value
    | _ => none
  vecFileCapacity := 1000000

def served (request : HttpRequest Nat) : Served Nat where
  request := request
  plans := fun _ => ⟨[], [], false, false⟩
  build := ⟨[[]], fun _ => [], fun _ => false, 0, by decide, by simp, by decide⟩
  order := []

/-- Create an index, and put a vector at an id. -/
def putRun (path : String) : Option (Server Nat) :=
  run (serve setupOne) ⟨none⟩ [served (.createIndex dimBody), served (.put path vectorBody)]

/-- The index of the server has a vector at this id. -/
def hasVector (server : Server Nat) (i : Nat) : Bool :=
  match server.index with
  | some (_, x) => (x.1.vectors i).isSome
  | none => false

theorem capped_put {path : String} {id : Nat} (hid : parseId path = some id)
    (hle : id ≤ kMaxInsertId) (server : Server Nat) :
    Capped server (served (.put path vectorBody)) := by
  intro cfg x _ id' hid'
  obtain rfl := Option.some.inj (hid.symm.trans hid')
  exact .inl hle

def withSeven : Server Nat := (putRun "7").get (by decide +kernel)

theorem put_withinCeiling :
    putRun "7" = some withSeven ∧ hasVector withSeven 7 = true ∧
      WithinCeiling setupOne withSeven := by
  have hrun : putRun "7" = some withSeven := (Option.some_get _).symm
  refine ⟨hrun, by decide +kernel, withinCeiling_of_capped ?_ hrun⟩
  refine ⟨(fun cfg x h => by cases h), ?_⟩
  split
  · trivial
  · refine ⟨capped_put (show parseId "7" = some 7 by decide +kernel) (by decide) _, ?_⟩
    split <;> trivial

def withLarge : Server Nat := (putRun "100000001").get (by decide +kernel)

/-- A vector put at an id that the insert routes refuse. -/
theorem put_exceedsCeiling :
    ¬ ∀ (setup : Setup Nat) (server : Server Nat) (requests : List (Served Nat)),
      run (serve setup) ⟨none⟩ requests = some server → WithinCeiling setup server := by
  intro h
  have hwithin := h setupOne withLarge _ (Option.some_get _).symm
  have hvector : hasVector withLarge 100000001 = true := by decide +kernel
  unfold hasVector at hvector
  split at hvector
  · next cfg x hindex =>
    have hle := (hwithin cfg x hindex).1 100000001 (by decide) hvector
    exact absurd hle (by decide)
  · cases hvector

end AsterVec.HttpRoutes

import AsterVec.HttpFiles
import AsterVec.Machines
import Mathlib.Logic.Function.Basic

/-!
The life of the index of an HTTP server: it is created, deleted and created again while
data requests hold the database they took when they began.
-/

namespace AsterVec.HttpLifecycle

open AsterVec.Programs AsterVec.HttpFiles

/-- A data request, and what is left of it; `closing` when it has dropped its database and
destroys it. -/
structure Request where
  handle : Nat
  rest : Prog Unit
  closing : Bool

/-- Who holds `st_->mu`. -/
inductive Phase where
  | free
  | opening (index : Nat)
  | destroying (index : Nat) (rest : Prog Unit)
  | removingBootstrap
  | wiping (rest : List Name)

/-- Databases are numbered as they are opened, and so are the indexes. -/
structure Server where
  db : Option Nat
  mu : Phase
  requests : List Request
  memory : Nat → Db
  disk : Disk
  nextIndex : Nat

namespace Server

/-- The index the data directory is of. -/
def index (s : Server) : Option Nat :=
  match s.mu with
  | .opening index => some index
  | .destroying index _ => some index
  | _ => s.db

/-- A database that has been constructed and not destroyed. -/
def Alive (s : Server) (index : Nat) : Prop :=
  s.db = some index ∨ (∃ request ∈ s.requests, request.handle = index) ∨
    s.mu = .opening index ∨ ∃ rest, s.mu = .destroying index rest

/-- Run the next call of a program of a database. -/
def perform (s : Server) (writer : Nat) (c : Call) : Reply c × Server :=
  let done := exec writer s.index c (s.memory writer, s.disk)
  (done.1, { s with memory := Function.update s.memory writer done.2.1, disk := done.2.2 })

/-- `requireInit`, and then the handler. -/
def begins (s : Server) (calls : List DbCall) : Option Server :=
  match s.mu, s.db with
  | .free, some index =>
      some { s with requests := s.requests ++ [⟨index, handler calls, false⟩] }
  | .free, none => some s
  | _, _ => none

def works (s : Server) (number : Nat) : Option Server :=
  match s.requests[number]? with
  | some ⟨handle, .call c next, closing⟩ =>
      let done := s.perform handle c
      some { done.2 with requests := s.requests.set number ⟨handle, next done.1, closing⟩ }
  | _ => none

/-- The end of a handler drops its reference, and the last reference the database. -/
def finishes (s : Server) (number : Nat) (closing : List StorageCall) : Option Server :=
  match s.requests[number]? with
  | some ⟨handle, .done (), dropped⟩ =>
      if dropped ∨ s.db = some handle ∨
          ∃ request ∈ s.requests.eraseIdx number, request.handle = handle then
        some { s with requests := s.requests.eraseIdx number }
      else
        let destroyed := ⟨handle, destructor closing, true⟩
        some { s with requests := s.requests.set number destroyed }
  | _ => none

/-- `handleCreateIndex` up to the call of `Open`, for a body that passes its checks; the
bootstrap file can be written or not. -/
def creates (s : Server) (written : Bool) : Option Server :=
  match s.mu, s.db with
  | .free, none =>
      if written then
        let made := (s.disk.adopt s.nextIndex).create s.nextIndex (some s.nextIndex) .bootstrap
        some { s with mu := .opening s.nextIndex, nextIndex := s.nextIndex + 1, disk := made.2 }
      else some s
  | .free, some _ => some s
  | _, _ => none

/-- `Open` makes any calls. -/
def opens (s : Server) (c : Call) : Option Server :=
  match s.mu with
  | .opening index => some (s.perform index c).2
  | _ => none

def opened (s : Server) (ok : Bool) : Option Server :=
  match s.mu with
  | .opening index =>
      some (if ok then { s with mu := .free, db := some index }
        else { s with mu := .free, disk := s.disk.unlink .bootstrap })
  | _ => none

/-- `handleDeleteIndex`: the server drops its reference first. -/
def deletes (s : Server) (closing : List StorageCall) : Option Server :=
  match s.mu, s.db with
  | .free, none => some { s with mu := .removingBootstrap }
  | .free, some index =>
      if ∃ request ∈ s.requests, request.handle = index then
        some { s with db := none, mu := .removingBootstrap }
      else some { s with db := none, mu := .destroying index (destructor closing) }
  | _, _ => none

def destroys (s : Server) : Option Server :=
  match s.mu with
  | .destroying index (.call c next) =>
      let done := s.perform index c
      some { done.2 with mu := .destroying index (next done.1) }
  | .destroying _ (.done ()) => some { s with mu := .removingBootstrap }
  | _ => none

/-- The bootstrap file goes first, then what the directory lists; a removal that fails
ends the request. -/
def wipes (s : Server) (removed : Bool) : Option Server :=
  match s.mu with
  | .removingBootstrap =>
      let rest := s.disk.unlink .bootstrap
      some (if removed then { s with disk := rest, mu := .wiping rest.names }
        else { s with mu := .free })
  | .wiping [] => some { s with mu := .free }
  | .wiping (name :: names) =>
      some (if removed then { s with disk := s.disk.unlink name, mu := .wiping names }
        else { s with mu := .free })
  | _ => none

end Server

inductive Label where
  | request (calls : List DbCall)
  | work (number : Nat)
  | finish (number : Nat) (closing : List StorageCall)
  | put (written : Bool)
  | openCall (c : Call)
  | opened (ok : Bool)
  | delete (closing : List StorageCall)
  | destroy
  | wipe (removed : Bool)

def step (s : Server) : Label → Option Server
  | .request calls => s.begins calls
  | .work number => s.works number
  | .finish number closing => s.finishes number closing
  | .put written => s.creates written
  | .openCall c => s.opens c
  | .opened ok => s.opened ok
  | .delete closing => s.deletes closing
  | .destroy => s.destroys
  | .wipe removed => s.wipes removed

/-- A server that starts on a directory with these names, with the index it found there or
without one. -/
def start (names : List Name) (found : Bool) (memory : Nat → Db) : Server where
  db := if found then some 0 else none
  mu := .free
  requests := []
  memory := memory
  disk := if found then (Disk.fromNames names).adopt 0 else Disk.fromNames names
  nextIndex := 1

/-- When an index is opened no database of the directory but its own is alive. -/
def OpensAlone (s : Server) : Prop :=
  ∀ index, s.mu = .opening index → ∀ other, s.Alive other → other = index

/-- No file of an index was created or changed by a database of an earlier one after the
DELETE of that. -/
def Unstained (s : Server) : Prop :=
  ∀ file ∈ s.disk.files, ∀ writer ∈ file.strays, ∀ index ∈ file.indexes, ¬ writer < index

/-- An index is deleted when no data request holds its database. -/
def Quiet (s : Server) : Label → Prop
  | .delete _ => s.requests.length = 0
  | _ => True

/-! Files -/

/-- No file was changed by a database that had lost its index. -/
def Clean (d : Disk) : Prop := ∀ file ∈ d.files, file.strays = []

section Clean

variable {d : Disk} {writer : Nat} {index : Option Nat}

theorem Clean.of_files {d' : Disk} (hclean : Clean d) (hfiles : d'.files = d.files) :
    Clean d' := by
  intro file hfile
  rw [hfiles] at hfile
  exact hclean file hfile

theorem Clean.unlink (hclean : Clean d) (name : Name) : Clean (d.unlink name) :=
  hclean.of_files rfl

theorem Clean.adopt (hclean : Clean d) (number : Nat) : Clean (d.adopt number) := by
  intro file hfile
  rcases List.mem_mapIdx.mp hfile with ⟨i, hi, rfl⟩
  have hold := hclean d.files[i] (List.getElem_mem hi)
  split
  · exact hold
  · exact hold

theorem change_of_index (hindex : index = some writer) (file : Nat) :
    d.change writer index file = d :=
  if_pos hindex

theorem Clean.create (hclean : Clean d) (hindex : index = some writer) (name : Name) :
    Clean (d.create writer index name).2 := by
  unfold Disk.create
  split
  · split
    · rw [change_of_index hindex]
      exact hclean
    · change Clean (Disk.change _ writer index _)
      rw [change_of_index hindex]
      intro file hfile
      rcases List.mem_append.mp hfile with hold | hnew
      · exact hclean file hold
      · rw [List.mem_singleton.mp hnew]
  · exact hclean

theorem Clean.remove (hclean : Clean d) (hindex : index = some writer) (name : Name) :
    Clean (d.remove writer index name) := by
  unfold Disk.remove
  split
  · rw [change_of_index hindex]
    exact hclean.unlink name
  · exact hclean

theorem Clean.rename (hclean : Clean d) (hindex : index = some writer)
    (source target : Name) : Clean (d.rename writer index source target).2 := by
  unfold Disk.rename
  split
  · change Clean (Disk.change _ writer index _)
    rw [change_of_index hindex]
    exact (hclean.remove hindex target).of_files rfl
  · exact hclean

theorem Clean.link (hclean : Clean d) (hindex : index = some writer)
    (source target : Name) : Clean (d.link writer index source target).2 := by
  unfold Disk.link
  split
  · rw [change_of_index hindex]
    exact hclean.of_files rfl
  · exact hclean

/-- A call of the database whose index the directory is of. -/
theorem Clean.exec (hclean : Clean d) (hindex : index = some writer) (c : Call) (db : Db) :
    Clean (exec writer index c (db, d)).2.2 := by
  cases c with
  | fileExists name => exact hclean
  | create name => exact hclean.create hindex name
  | write file =>
      change Clean (d.change writer index file)
      rw [change_of_index hindex]
      exact hclean
  | remove name => exact hclean.remove hindex name
  | rename source target => exact hclean.rename hindex source target
  | link source target => exact hclean.link hindex source target
  | listSegments => exact hclean
  | memory => exact hclean
  | setMemory db' => exact hclean

end Clean

/-! Runs without a DELETE among data requests -/

/-- What such runs keep: every handle is the server's own database, which it has no longer
than it lets the mutex go. -/
structure Kept (s : Server) : Prop where
  handles : ∀ request ∈ s.requests, s.db = some request.handle
  locked : s.mu ≠ .free → s.db = none
  numbered : ∀ index, s.db = some index ∨ s.mu = .opening index → index < s.nextIndex
  clean : Clean s.disk

theorem Kept.start (names : List Name) (found : Bool) (memory : Nat → Db) :
    Kept (start names found memory) where
  handles := by rintro request ⟨⟩
  locked hmu := absurd rfl hmu
  numbered := by
    rintro index (hdb | hmu)
    · cases found with
      | false => cases hdb
      | true =>
          cases hdb
          exact Nat.one_pos
    · cases hmu
  clean := by
    have hfresh : Clean (Disk.fromNames names) := by
      intro file hfile
      rcases List.mem_map.mp hfile with ⟨_, _, rfl⟩
      rfl
    cases found with
    | false => exact hfresh
    | true => exact hfresh.adopt 0

namespace Kept

variable {s t : Server}

/-- While the mutex is held no request is in progress. -/
theorem requests_eq_nil (hkept : Kept s) (hmu : s.mu ≠ .free) : s.requests = [] := by
  rw [List.eq_nil_iff_forall_not_mem]
  intro request hrequest
  have hdb := hkept.handles request hrequest
  rw [hkept.locked hmu] at hdb
  cases hdb

theorem index_eq (hkept : Kept s) {request : Request} (hrequest : request ∈ s.requests) :
    s.index = some request.handle := by
  have hmu : s.mu = .free := by
    by_contra hmu
    rw [hkept.requests_eq_nil hmu] at hrequest
    cases hrequest
  unfold Server.index
  rw [hmu]
  exact hkept.handles request hrequest

theorem begins (hkept : Kept s) {calls : List DbCall} (hstep : s.begins calls = some t) :
    Kept t := by
  unfold Server.begins at hstep
  split at hstep
  · rename_i index hmu hdb
    cases hstep
    refine ⟨?_, hkept.locked, hkept.numbered, hkept.clean⟩
    intro request hrequest
    rcases List.mem_append.mp hrequest with hold | hnew
    · exact hkept.handles request hold
    · rw [List.mem_singleton.mp hnew]
      exact hdb
  · cases hstep
    exact hkept
  · cases hstep

theorem works (hkept : Kept s) {number : Nat} (hstep : s.works number = some t) :
    Kept t := by
  unfold Server.works at hstep
  split at hstep
  · rename_i handle c next closing hrequest
    cases hstep
    have hmem := List.mem_of_getElem? hrequest
    refine ⟨?_, hkept.locked, hkept.numbered,
      hkept.clean.exec (hkept.index_eq hmem) c (s.memory handle)⟩
    intro request hin
    rcases List.mem_or_eq_of_mem_set hin with hold | rfl
    · exact hkept.handles request hold
    · exact hkept.handles ⟨handle, .call c next, closing⟩ hmem
  · cases hstep

theorem finishes (hkept : Kept s) {number : Nat} {closing : List StorageCall}
    (hstep : s.finishes number closing = some t) : Kept t := by
  unfold Server.finishes at hstep
  split at hstep
  · rename_i handle dropped hrequest
    split at hstep
    · cases hstep
      exact ⟨fun request hin => hkept.handles request (List.mem_of_mem_eraseIdx hin),
        hkept.locked, hkept.numbered, hkept.clean⟩
    · cases hstep
      refine ⟨?_, hkept.locked, hkept.numbered, hkept.clean⟩
      intro request hin
      rcases List.mem_or_eq_of_mem_set hin with hold | rfl
      · exact hkept.handles request hold
      · exact hkept.handles ⟨handle, .done (), dropped⟩ (List.mem_of_getElem? hrequest)
  · cases hstep

theorem creates (hkept : Kept s) {written : Bool} (hstep : s.creates written = some t) :
    Kept t := by
  unfold Server.creates at hstep
  split at hstep
  · rename_i hmu hdb
    split at hstep
    · cases hstep
      refine ⟨hkept.handles, fun _ => hdb, ?_, (hkept.clean.adopt _).create rfl _⟩
      rintro index (hindex | hindex)
      · rw [hdb] at hindex
        cases hindex
      · cases hindex
        exact Nat.lt_succ_self _
    · cases hstep
      exact hkept
  · cases hstep
    exact hkept
  · cases hstep

theorem opens (hkept : Kept s) {c : Call} (hstep : s.opens c = some t) : Kept t := by
  unfold Server.opens at hstep
  split at hstep
  · rename_i index hmu
    cases hstep
    have hindex : s.index = some index := by
      unfold Server.index
      rw [hmu]
    exact ⟨hkept.handles, hkept.locked, hkept.numbered,
      hkept.clean.exec hindex c (s.memory index)⟩
  · cases hstep

theorem opened (hkept : Kept s) {ok : Bool} (hstep : s.opened ok = some t) : Kept t := by
  unfold Server.opened at hstep
  split at hstep
  · rename_i index hmu
    have hrequests := hkept.requests_eq_nil (hmu ▸ Phase.noConfusion)
    have hdb := hkept.locked (hmu ▸ Phase.noConfusion)
    cases hstep
    split
    · refine ⟨?_, fun hfree => absurd rfl hfree, ?_, hkept.clean⟩
      · rw [hrequests]
        rintro request ⟨⟩
      · rintro found (hfound | hfound)
        · cases hfound
          exact hkept.numbered index (.inr hmu)
        · cases hfound
    · refine ⟨hkept.handles, fun hfree => absurd rfl hfree, ?_, hkept.clean.unlink _⟩
      rintro found (hfound | hfound)
      · exact hkept.numbered found (.inl hfound)
      · cases hfound
  · cases hstep

theorem deletes (hkept : Kept s) {closing : List StorageCall}
    (hquiet : s.requests.length = 0) (hstep : s.deletes closing = some t) : Kept t := by
  have hrequests := List.eq_nil_of_length_eq_zero hquiet
  have hnone : ∀ request ∈ s.requests, (none : Option Nat) = some request.handle := by
    rw [hrequests]
    rintro request ⟨⟩
  unfold Server.deletes at hstep
  split at hstep
  · rename_i hmu hdb
    cases hstep
    refine ⟨hkept.handles, fun _ => hdb, ?_, hkept.clean⟩
    rintro index (hindex | hindex)
    · exact hkept.numbered index (.inl hindex)
    · cases hindex
  · rename_i index hmu hdb
    split at hstep
    · cases hstep
      refine ⟨hnone, fun _ => rfl, ?_, hkept.clean⟩
      rintro found (⟨⟨⟩⟩ | ⟨⟨⟩⟩)
    · cases hstep
      refine ⟨hnone, fun _ => rfl, ?_, hkept.clean⟩
      rintro found (⟨⟨⟩⟩ | ⟨⟨⟩⟩)
  · cases hstep

theorem destroys (hkept : Kept s) (hstep : s.destroys = some t) : Kept t := by
  unfold Server.destroys at hstep
  split at hstep
  · rename_i index c next hmu
    have hindex : s.index = some index := by
      unfold Server.index
      rw [hmu]
    have hdb := hkept.locked (hmu ▸ Phase.noConfusion)
    cases hstep
    refine ⟨hkept.handles, fun _ => hdb, ?_, hkept.clean.exec hindex c (s.memory index)⟩
    rintro found (hfound | hfound)
    · exact hkept.numbered found (.inl hfound)
    · cases hfound
  · rename_i index hmu
    have hdb := hkept.locked (hmu ▸ Phase.noConfusion)
    cases hstep
    refine ⟨hkept.handles, fun _ => hdb, ?_, hkept.clean⟩
    rintro found (hfound | hfound)
    · exact hkept.numbered found (.inl hfound)
    · cases hfound
  · cases hstep

/-- Letting the mutex go, or wiping more, with some names less. -/
theorem unlinked (hkept : Kept s) {mu : Phase} {disk : Disk} (hmu : s.mu ≠ .free)
    (hopening : ∀ index, mu ≠ .opening index) (hfiles : disk.files = s.disk.files) :
    Kept { s with mu := mu, disk := disk } where
  handles := hkept.handles
  locked _ := hkept.locked hmu
  numbered := by
    rintro index (hindex | hindex)
    · exact hkept.numbered index (.inl hindex)
    · exact absurd hindex (hopening index)
  clean := hkept.clean.of_files hfiles

theorem wipes (hkept : Kept s) {removed : Bool} (hstep : s.wipes removed = some t) :
    Kept t := by
  unfold Server.wipes at hstep
  split at hstep
  · rename_i hmu
    have hlocked : s.mu ≠ .free := hmu ▸ Phase.noConfusion
    cases hstep
    split
    · exact hkept.unlinked hlocked (fun _ => Phase.noConfusion) rfl
    · exact hkept.unlinked hlocked (fun _ => Phase.noConfusion) rfl
  · rename_i hmu
    cases hstep
    exact hkept.unlinked (hmu ▸ Phase.noConfusion) (fun _ => Phase.noConfusion) rfl
  · rename_i name names hmu
    have hlocked : s.mu ≠ .free := hmu ▸ Phase.noConfusion
    cases hstep
    split
    · exact hkept.unlinked hlocked (fun _ => Phase.noConfusion) rfl
    · exact hkept.unlinked hlocked (fun _ => Phase.noConfusion) rfl
  · cases hstep

theorem step (hkept : Kept s) {label : Label} (hquiet : Quiet s label)
    (hstep : HttpLifecycle.step s label = some t) : Kept t := by
  cases label with
  | request calls => exact hkept.begins hstep
  | work number => exact hkept.works hstep
  | finish number closing => exact hkept.finishes hstep
  | put written => exact hkept.creates hstep
  | openCall c => exact hkept.opens hstep
  | opened ok => exact hkept.opened hstep
  | delete closing => exact hkept.deletes hquiet hstep
  | destroy => exact hkept.destroys hstep
  | wipe removed => exact hkept.wipes hstep

theorem opensAlone (hkept : Kept s) : OpensAlone s := by
  rintro index hmu other (hdb | ⟨request, hrequest, -⟩ | hother | ⟨rest, hother⟩)
  · rw [hkept.locked (hmu ▸ Phase.noConfusion)] at hdb
    cases hdb
  · rw [hkept.requests_eq_nil (hmu ▸ Phase.noConfusion)] at hrequest
    cases hrequest
  · rw [hmu] at hother
    cases hother
    rfl
  · rw [hmu] at hother
    cases hother

theorem unstained (hkept : Kept s) : Unstained s := by
  intro file hfile writer hwriter
  rw [hkept.clean file hfile] at hwriter
  cases hwriter

end Kept

theorem run_wipe {s : Server} {rest : List Name} (hmu : s.mu = .wiping rest) :
    ∃ t, Machines.run step s (List.replicate (rest.length + 1) (.wipe true)) = some t ∧
      t.mu = .free ∧ t.db = s.db ∧ t.requests = s.requests ∧ t.nextIndex = s.nextIndex := by
  induction rest generalizing s with
  | nil =>
      refine ⟨{ s with mu := .free }, ?_, rfl, rfl, rfl, rfl⟩
      refine Machines.run_cons.mpr ⟨_, ?_, rfl⟩
      change s.wipes true = _
      unfold Server.wipes
      rw [hmu]
  | cons name names ih =>
      obtain ⟨t, hrun, hfree, hdb, hrequests, hnext⟩ :=
        ih (s := { s with disk := s.disk.unlink name, mu := .wiping names }) rfl
      refine ⟨t, Machines.run_cons.mpr ⟨_, ?_, hrun⟩, hfree, hdb, hrequests, hnext⟩
      change s.wipes true = _
      unfold Server.wipes
      rw [hmu]
      rfl

/-- After a DELETE while a data request holds the database, the next PUT opens an index
beside it. -/
theorem opens_beside {s : Server} (hkept : Kept s) (hmu : s.mu = .free) {index : Nat}
    (hdb : s.db = some index) {request : Request} (hrequest : request ∈ s.requests)
    (closing : List StorageCall) :
    ∃ labels t, Machines.run step s (.delete closing :: labels) = some t ∧
      ¬ OpensAlone t := by
  have hhandle : request.handle = index :=
    (Option.some.inj ((hkept.handles request hrequest).symm.trans hdb))
  have hdelete : s.deletes closing = some { s with db := none, mu := .removingBootstrap } := by
    unfold Server.deletes
    rw [hmu, hdb]
    exact if_pos ⟨request, hrequest, hhandle⟩
  obtain ⟨t, hrun, hfree, hnone, hrequests, hnext⟩ := run_wipe
    (s := { s with
      db := none, disk := s.disk.unlink .bootstrap
      mu := .wiping (s.disk.unlink .bootstrap).names }) rfl
  let made := (t.disk.adopt t.nextIndex).create t.nextIndex (some t.nextIndex) .bootstrap
  refine ⟨.wipe true ::
      (List.replicate ((s.disk.unlink .bootstrap).names.length + 1) (.wipe true) ++ [.put true]),
    { t with mu := .opening t.nextIndex, nextIndex := t.nextIndex + 1, disk := made.2 }, ?_, ?_⟩
  · refine Machines.run_cons.mpr ⟨_, hdelete, Machines.run_cons.mpr ⟨_, rfl, ?_⟩⟩
    refine Machines.run_append.mpr ⟨t, hrun, Machines.run_cons.mpr ⟨_, ?_, rfl⟩⟩
    change t.creates true = _
    unfold Server.creates
    rw [hfree, hnone]
    rfl
  · intro halone
    have heq : index = t.nextIndex :=
      halone t.nextIndex rfl index (.inr (.inl ⟨request, by rwa [hrequests], hhandle⟩))
    have hlt := hkept.numbered index (.inl hdb)
    rw [hnext] at heq
    exact absurd heq (Nat.ne_of_lt hlt)

/-! A DELETE among data requests -/

/-- The names of an index that was created and not written to. -/
def freshNames : List Name :=
  [.bootstrap, .logFile, .metadata .main, .vectorLog, .deleteFile, .oplogDir, .segment 1]

/-- A database with a log that checkpoints after each write. -/
def logging : Db where
  vectorFile := 3
  enableOplog := true
  segmentBytes := 64 * 2 ^ 20
  checkpointIntervalOps := 1
  segment := some 6
  nextLsn := 1
  offset := 0
  broken := false
  opsSinceCheckpoint := 0
  writesSinceCheckpoint := 0
  checkpointDue := false
  checkpointLsn := 0
  mainCheckpointLsn := 0

/-- A write whose automatic checkpoint has synced the vectors when the index is deleted,
with the next PUT either at once or when the request has ended. -/
def deletedAmid : List Label :=
  .request [.write (some 20) [] []] :: List.replicate 17 (.work 0) ++
    .delete [] :: List.replicate 8 (.wipe true)

def putAtOnce : List Label := deletedAmid ++ [.put true]

def putAfter : List Label :=
  deletedAmid ++ List.replicate 14 (.work 0) ++ .finish 0 [] ::
    List.replicate 2 (.work 0) ++ [.finish 0 [], .put true]

instance (s : Server) : Decidable (Unstained s) :=
  inferInstanceAs (Decidable (∀ file ∈ s.disk.files, ∀ writer ∈ file.strays,
    ∀ index ∈ file.indexes, ¬ writer < index))

/-- The same write with the DELETE after it. -/
def deletedAfter : List Label :=
  .request [.write (some 20) [] []] :: List.replicate 33 (.work 0) ++ .finish 0 [] ::
    .delete [] :: List.replicate 3 .destroy ++ List.replicate 10 (.wipe true) ++ [.put true]

instance (s : Server) (label : Label) : Decidable (Quiet s label) :=
  match label with
  | .delete _ => inferInstanceAs (Decidable (_ = _))
  | .request _ | .work _ | .finish _ _ | .put _ | .openCall _ | .opened _ | .destroy
  | .wipe _ => isTrue trivial

end AsterVec.HttpLifecycle

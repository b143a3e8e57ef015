import AsterVec.PagedInterleaving
import AsterVec.Programs

/-!
Reads among stores.  A reader is a program whose calls are the steps that run under
one lock, or are one positional read; a page it loads waits in a buffer of its own
until it is published.
-/

namespace AsterVec.PagedVectorStorage

open AsterVec.ByteBuffer
open AsterVec.IdTypes
open AsterVec.Programs

variable {cfg : Config}

/-- An entry of a batch: read already, or still missing. -/
inductive Item (cfg : Config) where
  | read (record : Record cfg)
  | missing (page slot : Nat)

inductive ReadCall (cfg : Config) where
  | locate (id : Nat)
  | tryReadFromWriteBuf (page slot : Nat)
  | tryReadFromCache (page slot : Nat)
  | tryReadAllFromCache (items : List (Item cfg))
  | isCached (page : Nat)
  | preadPage (page : Nat)
  | overlayWriteBuf (page : Nat)
  | publishPage
  | preadRecord (page slot : Nat)

abbrev ReadReply : ReadCall cfg → Type
  | .locate _ => Option (Nat × Nat)
  | .tryReadFromWriteBuf _ _ => Option (Record cfg)
  | .tryReadFromCache _ _ => Option (Record cfg)
  | .tryReadAllFromCache _ => List (Item cfg)
  | .isCached _ => Bool
  | .preadPage _ => Unit
  | .overlayWriteBuf _ => Unit
  | .publishPage => Unit
  | .preadRecord _ _ => Outcome (Record cfg)

abbrev ReadProg (cfg : Config) := Program (ReadCall cfg) (@ReadReply cfg)

/-- Make a call of the store. -/
def reads (c : ReadCall cfg) : ReadProg cfg (ReadReply c) := Program.perform c

namespace ReadProg

def loadPageToCache (page : Nat) : ReadProg cfg Unit :=
  if cfg.maxCachedPages = 0 then pure ()
  else do
    let there ← reads (.isCached page)
    if there then pure ()
    else do
      reads (.preadPage page)
      reads (.overlayWriteBuf page)
      reads .publishPage

/-- Read the record at a slot: write buffer, page cache, file. -/
def readRecordAt (page slot : Nat) : ReadProg cfg (Outcome (Record cfg)) := do
  let buffered ← reads (.tryReadFromWriteBuf page slot)
  match buffered with
  | some record => pure (.returned record)
  | none => do
      let cached ← reads (.tryReadFromCache page slot)
      match cached with
      | some record => pure (.returned record)
      | none => do
          loadPageToCache page
          let loaded ← reads (.tryReadFromCache page slot)
          match loaded with
          | some record => pure (.returned record)
          | none => reads (.preadRecord page slot)

def readVectorFromDisk (id : Nat) : ReadProg cfg (Outcome (List (Record cfg))) := do
  let found ← reads (.locate id)
  match found with
  | none => pure .threw
  | some (page, slot) => do
      let record ← readRecordAt page slot
      match record with
      | .returned record => pure (.returned [record])
      | .threw => pure .threw
      | .undefined => pure .undefined

/-- The first pass of a batch, over the write buffers; an id without a location
throws. -/
def tryBuffers : List Nat → ReadProg cfg (Option (List (Item cfg)))
  | [] => pure (some [])
  | id :: ids => do
      let found ← reads (.locate id)
      match found with
      | none => pure none
      | some (page, slot) => do
          let buffered ← reads (.tryReadFromWriteBuf page slot)
          let rest ← tryBuffers ids
          pure (rest.map (buffered.elim (.missing page slot) .read :: ·))

def loadPages : List Nat → ReadProg cfg Unit
  | [] => pure ()
  | page :: pages => do
      loadPageToCache page
      loadPages pages

/-- Read a record without the cache. -/
def directReadRecord (page slot : Nat) : ReadProg cfg (Outcome (Record cfg)) := do
  let buffered ← reads (.tryReadFromWriteBuf page slot)
  match buffered with
  | some record => pure (.returned record)
  | none => reads (.preadRecord page slot)

/-- The last pass: what is not cached is read directly. -/
def readRest : List (Item cfg) → ReadProg cfg (Outcome (List (Record cfg)))
  | [] => pure (.returned [])
  | .read record :: items => do
      let rest ← readRest items
      match rest with
      | .returned records => pure (.returned (record :: records))
      | other => pure other
  | .missing page slot :: items => do
      let direct ← directReadRecord page slot
      match direct with
      | .returned record => do
          let rest ← readRest items
          match rest with
          | .returned records => pure (.returned (record :: records))
          | other => pure other
      | .threw => pure .threw
      | .undefined => pure .undefined

/-- The pages of the entries that are missing, each once. -/
def missingPages (items : List (Item cfg)) : List Nat :=
  ((items.filterMap fun item => match item with
    | .read _ => none
    | .missing page _ => some page).mergeSort).dedup

def readVectorsBatchFlat (ids : List Nat) : ReadProg cfg (Outcome (List (Record cfg))) := do
  let buffered ← tryBuffers ids
  match buffered with
  | none => pure .threw
  | some items => do
      let items ← reads (.tryReadAllFromCache items)
      loadPages (missingPages items)
      let items ← reads (.tryReadAllFromCache items)
      readRest items

end ReadProg

/-- A read by one of the threads. -/
inductive Read where
  | one (id : Nat)
  | batch (ids : List Nat)

def Read.ids : Read → List Nat
  | one id => [id]
  | batch ids => ids

def Read.program : Read → ReadProg cfg (Outcome (List (Record cfg)))
  | one id => ReadProg.readVectorFromDisk id
  | batch ids => ReadProg.readVectorsBatchFlat ids

/-- The store, how far the calls that store have come, and the page each reader is
loading. -/
structure Shared (cfg : Config) (ι κ : Type) where
  stages : ι → Stage
  st : Store cfg
  staging : κ → Option (Nat × Buffer)

namespace Shared

variable {ι κ : Type} [DecidableEq κ]

def setStaging (g : Shared cfg ι κ) (r : κ) (staged : Option (Nat × Buffer)) :
    Shared cfg ι κ :=
  { g with staging := Function.update g.staging r staged }

/-- The entry as a look into the cache leaves it. -/
def lookCached (st : Store cfg) : Item cfg → Item cfg
  | .read record => .read record
  | .missing page slot => (st.tryReadFromCache page slot).elim (.missing page slot) .read

/-- A call of reader `r`. -/
def exec (r : κ) : (c : ReadCall cfg) → Shared cfg ι κ → ReadReply c × Shared cfg ι κ
  | .locate id, g => (g.st.location id, g)
  | .tryReadFromWriteBuf page slot, g => (g.st.tryReadFromWriteBuf page slot, g)
  | .tryReadFromCache page slot, g => (g.st.tryReadFromCache page slot, g)
  | .tryReadAllFromCache items, g => (items.map (lookCached g.st), g)
  | .isCached page, g => ((g.st.pageToSlot page).isSome, g)
  | .preadPage page, g =>
      ((), g.setStaging r (some (page, fun i => g.st.file.bytes (page * kPageSize + i))))
  | .overlayWriteBuf page, g =>
      ((), g.setStaging r ((g.staging r).map fun (staged, image) =>
        (staged, ((g.st.bufferHolding page).elim image SectionWriteBuf.data))))
  | .publishPage, g =>
      match g.staging r with
      | none => ((), g)
      | some (page, image) =>
          ((), { g.setStaging r none with st := Store.publishPage page image g.st })
  | .preadRecord page slot, g => (g.st.preadRecord page slot, g)

end Shared

/-- What a reader is doing. -/
inductive Reader (cfg : Config) where
  | idle
  | reading (read : Read) (rest : ReadProg cfg (Outcome (List (Record cfg))))

/-- The ids of a read that is over, and its outcome. -/
def Reader.found? : Reader cfg → Option (List Nat × Outcome (List (Record cfg)))
  | .reading read (.done outcome) => some (read.ids, outcome)
  | _ => none

theorem Reader.found?_eq_some {reader : Reader cfg} {ids : List Nat}
    {outcome : Outcome (List (Record cfg))} :
    reader.found? = some (ids, outcome) ↔
      ∃ read : Read, read.ids = ids ∧ reader = .reading read (.done outcome) := by
  constructor
  · intro hfound
    unfold found? at hfound
    split at hfound
    · cases hfound
      exact ⟨_, rfl, rfl⟩
    · cases hfound
  · rintro ⟨read, rfl, rfl⟩
    rfl

structure Crowd (cfg : Config) (ι κ : Type) where
  shared : Shared cfg ι κ
  readers : κ → Reader cfg

namespace Crowd

variable {ι κ : Type} [DecidableEq ι] [DecidableEq κ]

/-- The id was stored by a call that returned. -/
def Published (requests : ι → Request cfg) (stages : ι → Stage) (id : Nat) : Prop :=
  ∃ j page slot, (requests j).id = id ∧ stages j = .returned page slot

/-- The next step of call `i` refreshes the cache with a record that every page image
under way already has. -/
def SafeUpdate (requests : ι → Request cfg) (i : ι) (g : Shared cfg ι κ) : Prop :=
  ∀ page slot, g.stages i = .written page slot →
    ∀ r image, g.staging r = some (page, image) →
      Store.recordAt cfg image slot = (requests i).record

/-- The call is neither to come nor over. -/
def Running : Stage → Prop
  | .called | .returned _ _ | .threw | .undefined => False
  | _ => True

/-- One step of a call or of a reader; the steps of calls satisfy `Allowed` in the state
they are taken in.  A checkpoint, which waits for the calls, drops the write buffers. -/
inductive Step (requests : ι → Request cfg) (Allowed : ι → Shared cfg ι κ → Prop) :
    Crowd cfg ι κ → Crowd cfg ι κ → Prop
  | stores (g : Shared cfg ι κ) (readers : κ → Reader cfg) (i : ι) {stage : Stage}
      {st : Store cfg} (hallowed : Allowed i g)
      (hstep : Store.storeStep (requests i) (g.stages i) g.st = some (stage, st)) :
      Step requests Allowed ⟨g, readers⟩
        ⟨{ g with stages := Function.update g.stages i stage, st := st }, readers⟩
  | begins (g : Shared cfg ι κ) (readers : κ → Reader cfg) (r : κ) (read : Read)
      (hfree : readers r = .idle ∨ ∃ before outcome, readers r = .reading before (.done outcome))
      (hpublished : ∀ id ∈ read.ids, Published requests g.stages id) :
      Step requests Allowed ⟨g, readers⟩
        ⟨g, Function.update readers r (.reading read read.program)⟩
  | calls (g : Shared cfg ι κ) (readers : κ → Reader cfg) (r : κ) (read : Read)
      (c : ReadCall cfg) (next) (hreading : readers r = .reading read (.call c next)) :
      Step requests Allowed ⟨g, readers⟩
        ⟨(Shared.exec r c g).2,
          Function.update readers r (.reading read (next (Shared.exec r c g).1))⟩
  | syncs (g : Shared cfg ι κ) (readers : κ → Reader cfg)
      (hquiet : ∀ i, ¬ Running (g.stages i)) :
      Step requests Allowed ⟨g, readers⟩ ⟨{ g with st := g.st.syncData }, readers⟩

/-- Every call is to come and no reader has begun. -/
def start (st : Store cfg) : Crowd cfg ι κ :=
  ⟨⟨fun _ => .called, st, fun _ => none⟩, fun _ => .idle⟩

end Crowd

end AsterVec.PagedVectorStorage

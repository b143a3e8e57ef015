import AsterVec.PagedDeleteFlags
import AsterVec.PagedRuns

/-!
The interface of the vector storages and its two implementations.  An implementation keeps
the interface when its state shows a map from ids to records: an id exists and has a location
if it has a record, and a read returns it.  The paged storage does.  The plain one answers for
every id below its capacity as if a vector had been stored there.
-/

namespace AsterVec.VectorStorages

open AsterVec.ByteBuffer
open AsterVec.PagedVectorStorage (Outcome)

/-- What the database asks of its vector storage. -/
structure VectorStorage (F σ R : Type) where
  encodeRecord : List F → R
  decodeRecord : R → List F
  storeEncoded : Nat → R → Nat → σ → Outcome Unit × σ
  readVectorFromDisk : Nat → σ → Outcome R × σ
  hasLocation : σ → Nat → Bool
  vectorExists : σ → Nat → Bool

/-- `Keeps st stored` says that the state holds the records of `stored` and no other. -/
structure Contract {F σ R : Type} (storage : VectorStorage F σ R) (capacity : Nat)
    (Keeps : σ → (Nat → Option R) → Prop) : Prop where
  hasLocation : ∀ st stored, Keeps st stored →
    ∀ id, storage.hasLocation st id = (stored id).isSome
  vectorExists : ∀ st stored, Keeps st stored →
    ∀ id, storage.vectorExists st id = (stored id).isSome
  readVectorFromDisk : ∀ st stored, Keeps st stored → ∀ id record, stored id = some record →
    (storage.readVectorFromDisk id st).1 = .returned record
  reads : ∀ st stored, Keeps st stored →
    ∀ id, Keeps (storage.readVectorFromDisk id st).2 stored
  storeEncoded : ∀ st stored, Keeps st stored → ∀ id < capacity, stored id = none →
    ∀ record, ∀ sectionKey < 2 ^ 64,
      (storage.storeEncoded id record sectionKey st).1 = .returned () →
      Keeps (storage.storeEncoded id record sectionKey st).2
        (Function.update stored id (some record))

/-! ## The paged storage -/

section

open AsterVec.PagedVectorStorage

variable {cfg : Config} {F : Type}

def pagedVectorStorage (quantize : List F → Record cfg) (dequantize : Record cfg → List F) :
    VectorStorage F (Store cfg) (Record cfg) where
  encodeRecord := quantize
  decodeRecord := dequantize
  storeEncoded := Store.storeEncoded
  readVectorFromDisk := Store.readVectorFromDisk
  hasLocation := Store.hasLocation
  vectorExists := Store.vectorExists

/-- The store serves every record of the map from a slot of its own, and no id is marked
deleted. -/
structure PagedKeeps (st : Store cfg) (stored : Nat → Option (Record cfg)) : Prop where
  faithful : (⟨cfg.maxCachedPages, st, stored⟩ : Session cfg).Faithful
  unflagged : ∀ id, st.deletedFlags id = false

theorem PagedKeeps.hasLocation {st : Store cfg} {stored : Nat → Option (Record cfg)}
    (hkeeps : PagedKeeps st stored) (id : Nat) :
    st.hasLocation id = (stored id).isSome := by
  cases hrecord : stored id with
  | some record =>
      obtain ⟨pageId, slot, hlocation, -⟩ := hkeeps.faithful.serves id record hrecord
      have hsome := Store.location_isSome hkeeps.faithful.sound.fit id
      rw [hlocation] at hsome
      exact hsome.symm
  | none =>
      cases hlocated : st.hasLocation id with
      | false => rfl
      | true =>
          obtain ⟨record, hsome⟩ := hkeeps.faithful.located id hlocated
          exact absurd (hrecord.symm.trans hsome) (by simp)

theorem PagedKeeps.readVectorFromDisk {st : Store cfg} {stored : Nat → Option (Record cfg)}
    (hkeeps : PagedKeeps st stored) {id : Nat} {record : Record cfg}
    (hrecord : stored id = some record) :
    (Store.readVectorFromDisk id st).1 = .returned record := by
  obtain ⟨pageId, slot, hlocation, hreserved, hholds⟩ :=
    hkeeps.faithful.serves id record hrecord
  have hserves : st.Serves id record := ⟨pageId, slot, hlocation, hreserved.slot_lt, hholds⟩
  exact hserves.read hkeeps.faithful.sound.wellFormed

theorem PagedKeeps.reads {st : Store cfg} {stored : Nat → Option (Record cfg)}
    (hkeeps : PagedKeeps st stored) (id : Nat) :
    PagedKeeps (Store.readVectorFromDisk id st).2 stored := by
  refine ⟨hkeeps.faithful.undisturbed
    (Store.undisturbed_readVectorFromDisk hkeeps.faithful.sound.wellFormed id), fun other => ?_⟩
  rw [Store.deletedFlags_readVectorFromDisk]
  exact hkeeps.unflagged other

theorem afterStore_of_returned {s : Session cfg} {id : Nat} {record : Record cfg}
    {call : Outcome Unit × Store (cfg.withMaxCachedPages s.maxCachedPages)}
    (hreturned : call.1 = .returned ()) :
    s.afterStore id record call =
      some { s with st := call.2, stored := Function.update s.stored id (some record) } := by
  obtain ⟨outcome, st⟩ := call
  cases hreturned
  rfl

theorem PagedKeeps.storeEncoded {st : Store cfg} {stored : Nat → Option (Record cfg)}
    (hkeeps : PagedKeeps st stored) {id : Nat} (hid : id < 2 ^ 64) (hnone : stored id = none)
    (record : Record cfg) {sectionKey : Nat} (hkey : sectionKey < 2 ^ 64)
    (hreturned : (Store.storeEncoded id record sectionKey st).1 = .returned ()) :
    PagedKeeps (Store.storeEncoded id record sectionKey st).2
      (Function.update stored id (some record)) := by
  refine ⟨?_, fun other =>
    Store.deletedFlags_storeEncoded hkeeps.unflagged id record sectionKey other⟩
  have hunlocated : st.hasLocation id = false := by
    rw [hkeeps.hasLocation, hnone]
    rfl
  obtain ⟨t, hstep, hfaithful, -⟩ :=
    hkeeps.faithful.storeNew ⟨id, hid⟩ record ⟨sectionKey, hkey⟩ hunlocated
  change Session.afterStore ⟨cfg.maxCachedPages, st, stored⟩ id record
    (Store.storeEncoded id record sectionKey st) = some t at hstep
  have hsame := Option.some.inj (hstep.symm.trans (afterStore_of_returned hreturned))
  rw [hsame] at hfaithful
  exact hfaithful

/-- The paged storage keeps the interface. -/
theorem contract_paged {capacity : Nat} (hcapacity : capacity ≤ 2 ^ 64)
    (quantize : List F → Record cfg) (dequantize : Record cfg → List F) :
    Contract (pagedVectorStorage quantize dequantize) capacity PagedKeeps := by
  refine ⟨fun st stored hkeeps => hkeeps.hasLocation, fun st stored hkeeps id => ?_,
    fun st stored hkeeps id record => hkeeps.readVectorFromDisk,
    fun st stored hkeeps => hkeeps.reads,
    fun st stored hkeeps id hid hnone record sectionKey hkey => hkeeps.storeEncoded
      (Nat.lt_of_lt_of_le hid hcapacity) hnone record hkey⟩
  change (!st.isDeletedAt id && st.hasLocation id) = _
  rw [hkeeps.hasLocation, Store.isDeletedAt, hkeeps.unflagged]
  simp

theorem pagedKeeps_construct {capacity : Nat} {file : ByteFile} {fresh : Store cfg}
    (hconstruct : Store.construct cfg capacity file (fun _ => false) = some fresh) :
    PagedKeeps fresh fun _ => none := by
  refine ⟨Session.Faithful.start hconstruct, fun id => ?_⟩
  unfold Store.construct at hconstruct
  split at hconstruct
  · cases hconstruct
  · cases hconstruct
    rfl

end

/-! ## The plain storage -/

namespace BasicVectorStorage

structure Config where
  dim : Nat
  dim_pos : 0 < dim

/-- Bytes of one vector of 32-bit floats. -/
def Config.recordSize (cfg : Config) : Nat := cfg.dim * 4

structure Record (cfg : Config) where
  bytes : List UInt8
  length_eq : bytes.length = cfg.recordSize
  deriving DecidableEq

/-- The vectors lie in the file one after the other, by id. -/
structure Store (cfg : Config) where
  totalVectors : Nat
  deletedFlags : Nat → Bool
  file : ByteFile

variable {cfg : Config}

/-- Construct a store, with its file extended over all vectors.  `none` when no offset of a
stream reaches the last of them: every call of such a store fails. -/
def construct (cfg : Config) (capacity : Nat) (file : ByteFile) (deletedFlags : Nat → Bool) :
    Option (Store cfg) :=
  let fileSizeBytes := cfg.recordSize * capacity
  if 2 ^ 63 ≤ fileSizeBytes then none
  else some
    { totalVectors := capacity
      deletedFlags := deletedFlags
      file := if file.size < fileSizeBytes then file.pwrite (fileSizeBytes - 1) 1 zeros
        else file }

/-- The section plays no part. -/
def storeEncoded (id : Nat) (record : Record cfg) (_sectionKey : Nat) (st : Store cfg) :
    Outcome Unit × Store cfg :=
  if st.totalVectors ≤ id then (.threw, st)
  else (.returned (), { st with
    file := st.file.pwriteBytes (id * cfg.recordSize) record.bytes
    deletedFlags := Function.update st.deletedFlags id false })

def readVectorFromDisk (id : Nat) (st : Store cfg) : Outcome (Record cfg) × Store cfg :=
  if st.totalVectors ≤ id then (.threw, st)
  else if id * cfg.recordSize + cfg.recordSize ≤ st.file.size then
    (.returned ⟨slice st.file.bytes (id * cfg.recordSize) cfg.recordSize, slice_length _ _ _⟩, st)
  else (.threw, st)

def hasLocation (st : Store cfg) (id : Nat) : Bool := decide (id < st.totalVectors)

/-- Unlike the paged storage, this one asks only for the delete flag. -/
def vectorExists (st : Store cfg) (id : Nat) : Bool :=
  decide (id < st.totalVectors) && !st.deletedFlags id

end BasicVectorStorage

section

open BasicVectorStorage

variable {cfg : Config} {F : Type}

def basicVectorStorage (toBytes : List F → Record cfg) (ofBytes : Record cfg → List F) :
    VectorStorage F (Store cfg) (Record cfg) where
  encodeRecord := toBytes
  decodeRecord := ofBytes
  storeEncoded := storeEncoded
  readVectorFromDisk := readVectorFromDisk
  hasLocation := hasLocation
  vectorExists := vectorExists

/-- A fresh plain storage answers for every id below its capacity, with no record stored. -/
theorem fresh_basic {capacity : Nat} {fresh : Store cfg}
    (hconstruct : construct cfg capacity ByteFile.empty (fun _ => false) = some fresh) :
    fresh.totalVectors = capacity ∧ capacity < 2 ^ 63 ∧
      ∀ id < capacity, vectorExists fresh id = true ∧
        ∃ record, readVectorFromDisk id fresh = (.returned record, fresh) := by
  have hsize : 0 < cfg.recordSize := Nat.mul_pos cfg.dim_pos (by decide)
  unfold construct at hconstruct
  simp only at hconstruct
  split at hconstruct
  · cases hconstruct
  · rename_i hfits
    cases hconstruct
    have hle : capacity ≤ cfg.recordSize * capacity := Nat.le_mul_of_pos_left _ hsize
    refine ⟨rfl, by omega, fun id hid => ⟨by simp [vectorExists, hid], ?_⟩⟩
    have hend : id * cfg.recordSize + cfg.recordSize ≤ cfg.recordSize * capacity := by
      have := Nat.mul_le_mul_right cfg.recordSize hid
      rw [Nat.succ_mul, Nat.mul_comm capacity] at this
      exact this
    have hempty : (ByteFile.empty).size < cfg.recordSize * capacity := by
      change 0 < cfg.recordSize * capacity
      omega
    unfold readVectorFromDisk
    rw [if_neg (Nat.not_le.2 hid), if_pos]
    · exact ⟨_, rfl⟩
    · simp only [if_pos hempty]
      have hextended : (ByteFile.empty.pwrite (cfg.recordSize * capacity - 1) 1 zeros).size =
          cfg.recordSize * capacity := by
        change max 0 (cfg.recordSize * capacity - 1 + 1) = _
        omega
      rw [hextended]
      exact hend

end

end AsterVec.VectorStorages

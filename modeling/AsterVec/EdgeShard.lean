import AsterVec.EdgeLists
import AsterVec.IntrusiveList
import AsterVec.LinearProbing

/-!
The shards of the edge cache.  The entries stand in slots; links through the slots keep the order
of the last insertions and chain the slots that are free, and a hash table leads from an id to its
slot.
-/

namespace AsterVec.EdgeCache

open AsterVec.EdgeLists (NodeId encodeInto decodeInto)
open AsterVec.IntrusiveList AsterVec.LinearProbing

/-- The index of no slot. -/
def kInvalid : Nat := 0xFFFFFFFF

def kInvalidNodeId : NodeId := Fin.last _

/-! The table -/

/-- Double `hcap` until it is large enough. -/
def growTo (want : Nat) : Nat → Nat → Nat
  | 0, hcap => hcap
  | fuel + 1, hcap => if hcap < want then growTo want fuel (hcap <<< 1) else hcap

/-- A 64-bit word is doubled at most 64 times. -/
def tableSize (capacity : Nat) : Nat :=
  let want := if capacity < 8 then 16 else capacity * 2
  growTo want 64 1

def hhash (hmask : Nat) (id : NodeId) : Nat :=
  ((id.val * 0x9E3779B97F4A7C15 % 2 ^ 64) >>> 32) &&& hmask

theorem growTo_eq (want fuel bits : Nat) :
    ∃ b ≤ bits + fuel, growTo want fuel (2 ^ bits) = 2 ^ b ∧
      (want ≤ 2 ^ (bits + fuel) → want ≤ 2 ^ b) := by
  induction fuel generalizing bits with
  | zero => exact ⟨bits, le_rfl, rfl, id⟩
  | succ fuel ih =>
      rw [growTo]
      split
      · obtain ⟨b, hle, heq, hwant⟩ := ih (bits + 1)
        rw [Nat.shiftLeft_eq, ← Nat.pow_add]
        refine ⟨b, by omega, heq, fun hlarge => hwant ?_⟩
        rwa [Nat.add_right_comm, Nat.add_assoc]
      · exact ⟨bits, by omega, rfl, fun _ => by omega⟩

theorem tableSize_eq (capacity : Nat) : ∃ bits ≤ 64, tableSize capacity = 2 ^ bits := by
  obtain ⟨b, hle, heq, -⟩ := growTo_eq (if capacity < 8 then 16 else capacity * 2) 64 0
  exact ⟨b, by omega, heq⟩

/-- The table stays at most half full. -/
theorem tableSize_ge {capacity : Nat} (hcapacity : capacity ≤ 2 ^ 58) :
    capacity + 2 ≤ tableSize capacity := by
  obtain ⟨b, -, heq, hwant⟩ := growTo_eq (if capacity < 8 then 16 else capacity * 2) 64 0
  change tableSize capacity = 2 ^ b at heq
  rw [heq]
  have hle := hwant (by split <;> omega)
  split at hle <;> omega

theorem and_tableSize (capacity n : Nat) :
    n &&& (tableSize capacity - 1) = n % tableSize capacity := by
  obtain ⟨bits, -, heq⟩ := tableSize_eq capacity
  rw [heq]
  exact Nat.and_two_pow_sub_one_eq_mod n bits

theorem tableSize_pos (capacity : Nat) : 0 < tableSize capacity := by
  obtain ⟨bits, -, heq⟩ := tableSize_eq capacity
  rw [heq]
  exact Nat.two_pow_pos bits

theorem tableSize_dvd (capacity : Nat) : tableSize capacity ∣ 2 ^ 64 := by
  obtain ⟨bits, hle, heq⟩ := tableSize_eq capacity
  rw [heq]
  exact Nat.pow_dvd_pow 2 hle

/-- The positions of the table, a power of two of them: they are taken with `hmask`. -/
def tableLayout (capacity : Nat) : Layout NodeId :=
  let hmask := tableSize capacity - 1
  { size := tableSize capacity
    home := hhash hmask
    next := fun i => (i + 1) &&& hmask
    gap := fun i j => ((j + 2 ^ 64 - i) % 2 ^ 64) &&& hmask
    empty := kInvalidNodeId
    home_lt := by
      intro id
      rw [hhash, and_tableSize]
      exact Nat.mod_lt _ (tableSize_pos capacity)
    next_eq := by
      intro i hi
      rw [and_tableSize]
      split
      · rename_i hlast
        rw [hlast, Nat.mod_self]
      · exact Nat.mod_eq_of_lt (by omega)
    gap_eq := by
      intro i hi j hj
      have hdvd := tableSize_dvd capacity
      have hle := Nat.le_of_dvd (by decide) hdvd
      rw [and_tableSize, Nat.mod_mod_of_dvd _ hdvd]
      split
      · rename_i hij
        obtain ⟨d, rfl⟩ := Nat.exists_eq_add_of_le hij
        rw [show i + d + 2 ^ 64 - i = d + 2 ^ 64 by omega, Nat.add_sub_cancel_left,
          Nat.add_mod, Nat.mod_eq_zero_of_dvd hdvd, Nat.add_zero, Nat.mod_mod]
        exact Nat.mod_eq_of_lt (by omega)
      · rename_i hij
        obtain ⟨n, hn⟩ := hdvd
        have hsplit : j + 2 ^ 64 - i = j + tableSize capacity - i + tableSize capacity * (n - 1) := by
          cases n with
          | zero => simp at hn
          | succ n =>
              rw [Nat.add_sub_cancel, hn, Nat.mul_succ]
              omega
        rw [hsplit, Nat.add_mul_mod_self_left]
        exact Nat.mod_eq_of_lt (by omega) }

/-! The shard -/

/-- A shard, with the fields of its slots side by side.  `size` counts the slots; those past the
end are as a new slot is.  The mask of the table is that of `cap`. -/
structure Shard where
  key : Nat → NodeId
  enc : Nat → List UInt8
  links : Links
  size : Nat
  table : Table NodeId Nat
  cap : Nat
  count : Nat
  freeHead : Nat

namespace Shard

def init (capacity : Nat) : Shard :=
  { key := fun _ => 0
    enc := fun _ => []
    links := ⟨fun _ => kInvalid, fun _ => kInvalid, kInvalid, kInvalid⟩
    size := 0
    table := ⟨fun _ => kInvalidNodeId, fun _ => 0⟩
    cap := capacity
    count := 0
    freeHead := kInvalid }

variable (varint : Bool) (s : Shard) (id : NodeId) (neighbors : List NodeId)

def find : Nat := (LinearProbing.find (tableLayout s.cap) s.table id).getD kInvalid

/-- A hit does not change the order. -/
def get : Option (List NodeId) :=
  let slot := s.find id
  if slot = kInvalid then none else some (decodeInto varint (s.enc slot))

/-- The last slot, when the shard is full. -/
def evict : Shard × Nat :=
  let slot := s.links.tail
  ({ s with
      table := LinearProbing.erase (tableLayout s.cap) s.table (s.key slot)
      links := unlink kInvalid s.links slot
      count := s.count - 1 }, slot)

/-- The first of the free slots. -/
def popFree : Shard × Nat :=
  let slot := s.freeHead
  ({ s with
      freeHead := s.links.next slot
      links := { s.links with next := Function.update s.links.next slot kInvalid } }, slot)

/-- A slot more; its index is a 32-bit number. -/
def emplaceBack : Shard × Nat :=
  ({ s with size := s.size + 1 }, s.size % 2 ^ 32)

/-- Fill a slot for an id that is not there. -/
def fill (slot : Nat) : Shard :=
  { s with
    key := Function.update s.key slot id
    enc := Function.update s.enc slot (encodeInto varint neighbors)
    links := linkFront kInvalid s.links slot
    table := LinearProbing.insert (tableLayout s.cap) s.table id slot
    count := s.count + 1 }

/-- The shard after a put, and whether an entry was evicted. -/
def put : Shard × Bool :=
  let slot := s.find id
  if slot ≠ kInvalid then
    ({ s with
        enc := Function.update s.enc slot (encodeInto varint neighbors)
        links := moveToFront kInvalid s.links slot }, false)
  else if s.cap ≤ s.count then
    (fill varint s.evict.1 id neighbors s.evict.2, true)
  else if s.freeHead ≠ kInvalid then
    (fill varint s.popFree.1 id neighbors s.popFree.2, false)
  else (fill varint s.emplaceBack.1 id neighbors s.emplaceBack.2, false)

/-- The shard after an erase, and whether an entry was erased. -/
def erase : Shard × Bool :=
  let slot := s.find id
  if slot = kInvalid then (s, false)
  else
    let links := unlink kInvalid s.links slot
    ({ s with
        links := { links with next := Function.update links.next slot s.freeHead }
        table := LinearProbing.erase (tableLayout s.cap) s.table id
        count := s.count - 1
        enc := Function.update s.enc slot []
        freeHead := slot }, true)

end Shard

end AsterVec.EdgeCache

import AsterVec.IdTypes
import AsterVec.LittleEndian
import Mathlib.Data.Nat.Bitwise
import Mathlib.Logic.Function.Basic

/-!
The cache of edge lists.  A shard keeps its slots in the order of their last insertion, the
latest first, and a slot keeps its list as bytes.
-/

namespace AsterVec.EdgeLists

open AsterVec.LittleEndian

/-- Node ids are 64-bit words. -/
abbrev NodeId := Fin (2 ^ 64)

/-- A number as bytes of seven bits, the lowest first; all but the last carry bit 7.  The
first argument bounds the bytes that follow the first. -/
def putVarint : Nat → Nat → List UInt8
  | 0, v => [UInt8.ofNat v]
  | fuel + 1, v =>
      if 0x80 ≤ v then (UInt8.ofNat v ||| 0x80) :: putVarint fuel (v >>> 7)
      else [UInt8.ofNat v]

/-- The numbers in a row of bytes; `v` and `shift` are what the number under way has so far. -/
def getVarints : List UInt8 → Nat → Nat → List NodeId
  | [], _, _ => []
  | p :: ps, v, shift =>
      if p &&& 0x80 = 0 then
        Fin.ofNat _ (v ||| (p.toNat <<< shift) % 2 ^ 64) :: getVarints ps 0 0
      else
        getVarints ps (v ||| ((p &&& 0x7F).toNat <<< shift) % 2 ^ 64) (shift + 7)

/-- The ids of `count` words of eight bytes. -/
def getWords : Nat → List UInt8 → List NodeId
  | 0, _ => []
  | count + 1, bytes => Fin.ofNat _ (valueLE (bytes.take 8)) :: getWords count (bytes.drop 8)

/-- A 64-bit word takes at most ten bytes. -/
def encodeInto (varint : Bool) (ids : List NodeId) : List UInt8 :=
  if varint then ids.flatMap fun id => putVarint 9 id.val
  else ids.flatMap fun id => putLE 8 id.val

def decodeInto (varint : Bool) (enc : List UInt8) : List NodeId :=
  if varint then getVarints enc 0 0 else getWords (enc.length / 8) enc

theorem continued_toNat (v : Nat) : (UInt8.ofNat v ||| 0x80).toNat = v % 128 + 128 := by
  have hbytes : ∀ b : Fin 256, b.val ||| 128 = b.val % 128 + 128 := by decide +kernel
  have hv := hbytes ⟨v % 256, Nat.mod_lt _ (by decide)⟩
  simp only [UInt8.toNat_or, UInt8.toNat_ofNat', UInt8.reduceToNat]
  change v % 256 ||| 128 = _
  rw [hv]
  change v % 256 % 128 + 128 = _
  omega

theorem byte_and_bit (b : UInt8) : b &&& 0x80 = 0 ↔ b.toNat < 128 := by
  have hbytes : ∀ n : Fin 256, n.val &&& 128 = 0 ↔ n.val < 128 := by decide +kernel
  rw [← UInt8.toNat_inj, UInt8.toNat_and]
  exact hbytes ⟨b.toNat, b.toNat_lt⟩

theorem byte_and_low (b : UInt8) : (b &&& 0x7F).toNat = b.toNat % 128 := by
  rw [UInt8.toNat_and]
  exact Nat.and_two_pow_sub_one_eq_mod b.toNat 7

/-- The bits of a number below and from a position. -/
theorem or_shifted {acc v shift : Nat} (hacc : acc < 2 ^ shift)
    (hfits : acc + v * 2 ^ shift < 2 ^ 64) :
    acc ||| (v <<< shift) % 2 ^ 64 = acc + v * 2 ^ shift := by
  rw [Nat.shiftLeft_eq, Nat.mod_eq_of_lt (by omega), Nat.mul_comm, Nat.or_comm,
    ← Nat.two_pow_add_eq_or_of_lt hacc, Nat.add_comm]

theorem getVarints_last {p : UInt8} (hlast : p.toNat < 128) (ps : List UInt8) (v shift : Nat) :
    getVarints (p :: ps) v shift =
      Fin.ofNat _ (v ||| (p.toNat <<< shift) % 2 ^ 64) :: getVarints ps 0 0 := by
  rw [getVarints, if_pos ((byte_and_bit p).mpr hlast)]

theorem getVarints_more {p : UInt8} (hmore : ¬p.toNat < 128) (ps : List UInt8) (v shift : Nat) :
    getVarints (p :: ps) v shift =
      getVarints ps (v ||| ((p.toNat % 128) <<< shift) % 2 ^ 64) (shift + 7) := by
  rw [getVarints, if_neg fun hbit => hmore ((byte_and_bit p).mp hbit), byte_and_low]

theorem getVarints_putVarint (rest : List UInt8) (fuel : Nat) :
    ∀ v acc shift : Nat, acc < 2 ^ shift → acc + v * 2 ^ shift < 2 ^ 64 →
      v < 2 ^ (7 * (fuel + 1)) →
      getVarints (putVarint fuel v ++ rest) acc shift =
        Fin.ofNat _ (acc + v * 2 ^ shift) :: getVarints rest 0 0 := by
  have hlast : ∀ v acc shift : Nat, acc < 2 ^ shift → acc + v * 2 ^ shift < 2 ^ 64 → v < 128 →
      getVarints ([UInt8.ofNat v] ++ rest) acc shift =
        Fin.ofNat _ (acc + v * 2 ^ shift) :: getVarints rest 0 0 := by
    intro v acc shift hacc hfits hv
    have hbyte : (UInt8.ofNat v).toNat = v := by
      rw [UInt8.toNat_ofNat']
      omega
    rw [List.singleton_append, getVarints_last (by omega), hbyte, or_shifted hacc hfits]
  induction fuel with
  | zero => exact fun v acc shift hacc hfits hv => hlast v acc shift hacc hfits hv
  | succ fuel ih =>
      intro v acc shift hacc hfits hv
      rw [putVarint]
      split
      · next hmore =>
        have hbyte := continued_toNat v
        have hsplit : v * 2 ^ shift = v % 128 * 2 ^ shift + v / 128 * 2 ^ (shift + 7) := by
          rw [pow_add, Nat.mul_comm (2 ^ shift), ← Nat.mul_assoc, ← Nat.add_mul]
          congr 1
          omega
        have hlow : acc + v % 128 * 2 ^ shift < 2 ^ (shift + 7) := by
          have hle : v % 128 * 2 ^ shift ≤ 127 * 2 ^ shift :=
            Nat.mul_le_mul_right _ (by omega)
          rw [pow_add]
          omega
        have hfits' : acc + v % 128 * 2 ^ shift + v / 128 * 2 ^ (shift + 7) < 2 ^ 64 := by
          rw [Nat.add_assoc, ← hsplit]
          exact hfits
        rw [List.cons_append, getVarints_more (by omega), hbyte,
          show (v % 128 + 128) % 128 = v % 128 by omega,
          or_shifted hacc (lt_of_le_of_lt (Nat.le_add_right ..) hfits'),
          show v >>> 7 = v / 128 from Nat.shiftRight_eq_div_pow v 7,
          ih (v / 128) _ (shift + 7) hlow hfits' ?_, hsplit, Nat.add_assoc]
        rw [Nat.div_lt_iff_lt_mul (by decide), show 128 = 2 ^ 7 from rfl, ← pow_add]
        exact lt_of_lt_of_le hv (Nat.pow_le_pow_right (by decide) (by omega))
      · next hmore => exact hlast v acc shift hacc hfits (by omega)

theorem getVarints_encode (ids : List NodeId) :
    getVarints (ids.flatMap fun id => putVarint 9 id.val) 0 0 = ids := by
  induction ids with
  | nil => rfl
  | cons id ids ih =>
      have hid := id.isLt
      rw [List.flatMap_cons, getVarints_putVarint _ 9 id.val 0 0 (by decide) (by omega)
        (lt_trans hid (by decide)), ih]
      simp

theorem getWords_encode (ids : List NodeId) :
    getWords ids.length (ids.flatMap fun id => putLE 8 id.val) = ids := by
  induction ids with
  | nil => rfl
  | cons id ids ih =>
      have hlen : (putLE 8 id.val).length = 8 := putLE_length 8 id.val
      rw [List.flatMap_cons, List.length_cons, getWords, List.take_left' hlen,
        List.drop_left' hlen, ih, valueLE_putLE (lt_of_lt_of_le id.isLt (by decide))]
      simp

/-- What is read out of a slot is what was put into it. -/
@[simp] theorem decodeInto_encodeInto (varint : Bool) (ids : List NodeId) :
    decodeInto varint (encodeInto varint ids) = ids := by
  cases varint with
  | true => exact getVarints_encode ids
  | false =>
      have hlen : (ids.flatMap fun id => putLE 8 id.val).length / 8 = ids.length := by
        simp [List.length_flatMap]
      change getWords _ (ids.flatMap fun id => putLE 8 id.val) = ids
      rw [encodeInto, if_neg (by decide), hlen]
      exact getWords_encode ids

def kNumShards : Nat := 64

/-- `EdgeLRUCache`: the slots of each shard, the one put last in front. -/
structure EdgeLRUCache where
  varint : Bool
  perShardCapacity : Nat
  shards : Nat → List (NodeId × List UInt8)

namespace EdgeLRUCache

/-- An empty cache. -/
def init (varint : Bool) (capacity : Nat) : EdgeLRUCache :=
  { varint, perShardCapacity := max 1 (capacity / kNumShards), shards := fun _ => [] }

/-- Ids that follow one another go to different shards. -/
def shardFor (id : NodeId) : Nat :=
  let h := id.val
  let h := h ^^^ (h >>> 33)
  let h := h * 0xff51afd7ed558ccd % 2 ^ 64
  let h := h ^^^ (h >>> 33)
  h % kNumShards

def find (c : EdgeLRUCache) (id : NodeId) : Option (NodeId × List UInt8) :=
  (c.shards (shardFor id)).find? (·.1 = id)

/-- A hit does not change the order of the slots. -/
def get (c : EdgeLRUCache) (id : NodeId) : Option (List NodeId) :=
  (c.find id).map fun slot => decodeInto c.varint slot.2

/-- A list that is there is replaced and moved to the front; a full shard gives up its last
slot for a new one. -/
def put (c : EdgeLRUCache) (id : NodeId) (neighbors : List NodeId) : EdgeLRUCache :=
  let slots := c.shards (shardFor id)
  let kept :=
    if (c.find id).isSome then slots.filter (·.1 ≠ id)
    else if c.perShardCapacity ≤ slots.length then slots.dropLast
    else slots
  { c with
    shards := Function.update c.shards (shardFor id) ((id, encodeInto c.varint neighbors) :: kept) }

def erase (c : EdgeLRUCache) (id : NodeId) : EdgeLRUCache :=
  { c with
    shards := Function.update c.shards (shardFor id)
      ((c.shards (shardFor id)).filter (·.1 ≠ id)) }

/-- The list `neighbors` is held for `id`. -/
def Holds (c : EdgeLRUCache) (id : NodeId) (neighbors : List NodeId) : Prop :=
  ∃ s, ∃ slot ∈ c.shards s, slot.1 = id ∧ decodeInto c.varint slot.2 = neighbors

/-- Every slot is in the shard of its id. -/
def Placed (c : EdgeLRUCache) : Prop := ∀ s, ∀ slot ∈ c.shards s, s = shardFor slot.1

variable {c : EdgeLRUCache} {id j : NodeId} {l m : List NodeId}

theorem holds_of_get (h : c.get id = some l) : c.Holds id l := by
  rcases Option.map_eq_some_iff.mp h with ⟨slot, hslot, hl⟩
  exact ⟨_, slot, List.mem_of_find?_eq_some hslot, by simpa using List.find?_some hslot, hl⟩

/-- A list held after a put is the list put, or was held for another id. -/
theorem holds_put (hplaced : c.Placed) (h : (c.put id l).Holds j m) :
    (j = id ∧ m = l) ∨ (j ≠ id ∧ c.Holds j m) := by
  rcases h with ⟨s, slot, hslot, rfl, rfl⟩
  change slot ∈ Function.update c.shards _ _ s at hslot
  change _ ∨ _ ∧ c.Holds slot.1 (decodeInto c.varint slot.2)
  by_cases hs : s = shardFor id
  · subst hs
    rw [Function.update_self] at hslot
    rcases List.mem_cons.mp hslot with rfl | hkept
    · exact .inl ⟨rfl, decodeInto_encodeInto c.varint l⟩
    · have hold : slot ∈ c.shards (shardFor id) ∧ slot.1 ≠ id := by
        split at hkept
        · simpa using List.mem_filter.mp hkept
        · next hfind =>
          have hmem : slot ∈ c.shards (shardFor id) := by
            split at hkept
            · exact List.dropLast_subset _ hkept
            · exact hkept
          refine ⟨hmem, fun hid => hfind ?_⟩
          exact List.find?_isSome.mpr ⟨slot, hmem, by simpa using hid⟩
      exact .inr ⟨hold.2, _, slot, hold.1, rfl, rfl⟩
  · rw [Function.update_of_ne hs] at hslot
    exact .inr ⟨fun hid => hs (hid ▸ hplaced s slot hslot), s, slot, hslot, rfl, rfl⟩

theorem holds_erase (hplaced : c.Placed) (h : (c.erase id).Holds j m) :
    j ≠ id ∧ c.Holds j m := by
  rcases h with ⟨s, slot, hslot, rfl, rfl⟩
  change slot ∈ Function.update c.shards _ _ s at hslot
  by_cases hs : s = shardFor id
  · subst hs
    rw [Function.update_self] at hslot
    have hold := List.mem_filter.mp hslot
    exact ⟨by simpa using hold.2, _, slot, hold.1, rfl, rfl⟩
  · rw [Function.update_of_ne hs] at hslot
    exact ⟨fun hid => hs (hid ▸ hplaced s slot hslot), s, slot, hslot, rfl, rfl⟩

theorem Placed.put (hplaced : c.Placed) : (c.put id l).Placed := by
  intro s slot hslot
  change slot ∈ Function.update c.shards _ _ s at hslot
  by_cases hs : s = shardFor id
  · subst hs
    rw [Function.update_self] at hslot
    rcases List.mem_cons.mp hslot with rfl | hkept
    · rfl
    · refine hplaced _ slot ?_
      split at hkept
      · exact (List.mem_filter.mp hkept).1
      · split at hkept
        · exact List.dropLast_subset _ hkept
        · exact hkept
  · rw [Function.update_of_ne hs] at hslot
    exact hplaced s slot hslot

theorem Placed.erase (hplaced : c.Placed) : (c.erase id).Placed := by
  intro s slot hslot
  change slot ∈ Function.update c.shards _ _ s at hslot
  by_cases hs : s = shardFor id
  · subst hs
    rw [Function.update_self] at hslot
    exact hplaced _ slot (List.mem_filter.mp hslot).1
  · rw [Function.update_of_ne hs] at hslot
    exact hplaced s slot hslot

theorem placed_init (varint : Bool) (capacity : Nat) : (init varint capacity).Placed :=
  fun _ _ hslot => absurd hslot (List.not_mem_nil)

end EdgeLRUCache

end AsterVec.EdgeLists

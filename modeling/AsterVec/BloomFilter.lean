import Mathlib.Data.List.Basic
import Mathlib.Data.UInt

/-!
The filter in front of the map of updated ids.  It may take an id for an updated
one, but it never misses an id that was added.
-/

namespace AsterVec

/-- `bits i` is bit `i` of the array, for `i` below `bitCount`. -/
structure BloomFilter where
  bits : Nat → Bool
  bitCount : Nat
  numHash : Nat
  capacity : Nat
  inserts : Nat

namespace BloomFilter

def splitmix64 (x : UInt64) : UInt64 :=
  let x := x + 0x9e3779b97f4a7c15
  let x := (x ^^^ (x >>> 30)) * 0xbf58476d1ce4e5b9
  let x := (x ^^^ (x >>> 27)) * 0x94d049bb133111eb
  x ^^^ (x >>> 31)

def kHash1Seed : UInt64 := 0x243f6a8885a308d3

def kHash2Seed : UInt64 := 0xb7e151628aed2a6b

def hash1 (key : Nat) : UInt64 := splitmix64 (key.toUInt64 ^^^ kHash1Seed)

def hash2 (key : Nat) : UInt64 := splitmix64 (key.toUInt64 ^^^ kHash2Seed) ||| 1

/-- The array is sized for a false positive rate of 0.01: `-ln 0.01 / (ln 2)^2`
bits an item, rounded up. -/
def bitsFor (capacity : Nat) : Nat :=
  if capacity = 0 then 0
  else max 64 ((capacity * 9585058377367439 + 999999999999999) / 1000000000000000)

/-- `-ln 0.01 / ln 2`, rounded up. -/
def hashCountFor : Nat := 7

def reset (capacity : Nat) : BloomFilter where
  bits := fun _ => false
  bitCount := bitsFor capacity
  numHash := hashCountFor
  capacity := capacity
  inserts := 0

/-- The bits of a key, one for each probe. -/
def probes (filter : BloomFilter) (key : Nat) : List Nat :=
  (List.range filter.numHash).map fun i =>
    (hash1 key + i.toUInt64 * hash2 key).toNat % filter.bitCount

def add (filter : BloomFilter) (key : Nat) : BloomFilter :=
  if filter.bitCount = 0 then filter
  else { filter with
    bits := fun bit => filter.bits bit || (filter.probes key).contains bit
    inserts := filter.inserts + 1 }

def mightContain (filter : BloomFilter) (key : Nat) : Bool :=
  filter.bitCount != 0 && (filter.probes key).all filter.bits

/-- Whether the filter holds 0.7 of the items it is sized for. -/
def isFull (filter : BloomFilter) : Bool :=
  decide (filter.capacity ≠ 0 ∧ 7 * filter.capacity ≤ 10 * filter.inserts)

@[simp] theorem bitCount_add (filter : BloomFilter) (key : Nat) :
    (filter.add key).bitCount = filter.bitCount := by
  unfold add
  split <;> rfl

theorem probes_add (filter : BloomFilter) (key other : Nat) :
    (filter.add key).probes other = filter.probes other := by
  unfold add
  split <;> rfl

theorem mightContain_add_self {filter : BloomFilter} (hbits : filter.bitCount ≠ 0)
    (key : Nat) : (filter.add key).mightContain key = true := by
  unfold mightContain
  rw [bitCount_add, probes_add, Bool.and_eq_true, bne_iff_ne, List.all_eq_true]
  refine ⟨hbits, fun bit hbit => ?_⟩
  unfold add
  rw [if_neg hbits]
  simp [hbit]

theorem mightContain_add {filter : BloomFilter} {key : Nat}
    (hkey : filter.mightContain key = true) (other : Nat) :
    (filter.add other).mightContain key = true := by
  unfold mightContain at hkey ⊢
  rw [Bool.and_eq_true, bne_iff_ne, List.all_eq_true] at hkey
  obtain ⟨hbits, hall⟩ := hkey
  rw [bitCount_add, probes_add, Bool.and_eq_true, bne_iff_ne, List.all_eq_true]
  refine ⟨hbits, fun bit hbit => ?_⟩
  unfold add
  rw [if_neg hbits]
  simp [hall bit hbit]

/-- A filter keys are added to one by one contains all of them. -/
theorem mightContain_foldl_add {filter : BloomFilter} (hbits : filter.bitCount ≠ 0)
    (keys : List Nat) : ∀ key ∈ keys, (keys.foldl add filter).mightContain key = true := by
  have hkept : ∀ (keys : List Nat) (filter : BloomFilter) (key : Nat),
      filter.mightContain key = true →
        (keys.foldl add filter).mightContain key = true := by
    intro keys
    induction keys with
    | nil => exact fun _ _ hkey => hkey
    | cons other keys ih => exact fun filter key hkey => ih _ key (mightContain_add hkey other)
  induction keys generalizing filter with
  | nil => exact fun _ hmem => absurd hmem List.not_mem_nil
  | cons first keys ih =>
      intro key hmem
      rcases List.mem_cons.mp hmem with rfl | hmem
      · exact hkept keys _ key (mightContain_add_self hbits key)
      · exact ih (by rw [bitCount_add]; exact hbits) key hmem

@[simp] theorem bitCount_foldl_add (filter : BloomFilter) (keys : List Nat) :
    (keys.foldl add filter).bitCount = filter.bitCount := by
  induction keys generalizing filter with
  | nil => rfl
  | cons first keys ih => exact (ih _).trans (bitCount_add _ _)

theorem bitsFor_ne_zero {capacity : Nat} (hcapacity : capacity ≠ 0) :
    bitsFor capacity ≠ 0 := by
  unfold bitsFor
  rw [if_neg hcapacity]
  omega

end BloomFilter

end AsterVec

import AsterVec.BloomFilter
import AsterVec.IdTypes
import Mathlib.Data.Finset.Basic
import Mathlib.Data.List.AList

/-!
The maps between the callers' ids and the internal ids of updated vectors, with the
set of dead internal ids.
-/

namespace AsterVec

open AsterVec.IdTypes

/-- The id tables of the index.  The update counter is a natural number: it starts
at `2^63` and no run takes it to `2^64`. -/
structure IdTables where
  updatedRealToInternal : AList fun _ : Nat => Nat
  updatedInternalToReal : AList fun _ : Nat => Nat
  tombstonedInternalIds : Finset Nat
  updateBloom : BloomFilter
  nextUpdateInternalId : Nat

namespace IdTables

def empty : IdTables := ⟨∅, ∅, ∅, BloomFilter.reset 512, kFirstUpdateId⟩

def resolveInternal (tables : IdTables) (r : Nat) : Nat :=
  if !tables.updateBloom.mightContain r then r
  else (tables.updatedRealToInternal.lookup r).getD r

def resolveReal (tables : IdTables) (i : Nat) : Nat :=
  if isDirectId i then i else (tables.updatedInternalToReal.lookup i).getD i

def isTombstoned (tables : IdTables) (i : Nat) : Bool :=
  decide (i ∈ tables.tombstonedInternalIds)

def tombstone (tables : IdTables) (i : Nat) : IdTables :=
  { tables with tombstonedInternalIds := insert i tables.tombstonedInternalIds }

def rebuildBloomTo (tables : IdTables) (capacity : Nat) : IdTables :=
  { tables with
    updateBloom := tables.updatedRealToInternal.keys.foldl BloomFilter.add
      (BloomFilter.reset capacity) }

def recordUpdateMapping (tables : IdTables) (r i : Nat) : IdTables :=
  let reverse :=
    match tables.updatedRealToInternal.lookup r with
    | some previous => tables.updatedInternalToReal.erase previous
    | none => tables.updatedInternalToReal
  let recorded := { tables with
    updatedRealToInternal := tables.updatedRealToInternal.insert r i
    updatedInternalToReal := reverse.insert i r
    updateBloom := tables.updateBloom.add r }
  if recorded.updateBloom.isFull then
    recorded.rebuildBloomTo (recorded.updateBloom.capacity * 2)
  else recorded

/-- The bit of the filter stays set. -/
def forgetUpdateMapping (tables : IdTables) (r : Nat) : IdTables :=
  match tables.updatedRealToInternal.lookup r with
  | some i => { tables with
      updatedInternalToReal := tables.updatedInternalToReal.erase i
      updatedRealToInternal := tables.updatedRealToInternal.erase r }
  | none => tables

/-- Enter forward entries into a reverse map. -/
def reverseEntries (entries : List (Sigma fun _ : Nat => Nat))
    (reverse : AList fun _ : Nat => Nat) : AList fun _ : Nat => Nat :=
  entries.foldl (fun reverse entry => reverse.insert entry.2 entry.1) reverse

/-- The tables after they were saved and loaded: the reverse map and the filter are built
again from the forward map. -/
def reload (tables : IdTables) : IdTables :=
  { tables with
    updatedInternalToReal :=
      reverseEntries tables.updatedRealToInternal.entries ∅ }.rebuildBloomTo
    (max tables.updatedRealToInternal.keys.length 512)

def allocateUpdateId (tables : IdTables) : Nat × IdTables :=
  (tables.nextUpdateInternalId,
    { tables with nextUpdateInternalId := tables.nextUpdateInternalId + 1 })

/-- The filter contains every updated id. -/
structure BloomCovers (tables : IdTables) : Prop where
  bitCount : tables.updateBloom.bitCount ≠ 0
  capacity : tables.updateBloom.capacity ≠ 0
  contains : ∀ r ∈ tables.updatedRealToInternal.keys,
    tables.updateBloom.mightContain r = true

theorem bloomCovers_empty : empty.BloomCovers := by
  have hbits : BloomFilter.bitsFor 512 ≠ 0 := BloomFilter.bitsFor_ne_zero (by decide)
  exact ⟨hbits, by decide, fun _ hmem => absurd hmem List.not_mem_nil⟩

/-- With the filter covering the map, an id resolves to its map entry or itself. -/
theorem resolveInternal_eq {tables : IdTables} (hcovers : tables.BloomCovers) (r : Nat) :
    tables.resolveInternal r = (tables.updatedRealToInternal.lookup r).getD r := by
  unfold resolveInternal
  split
  · rename_i hmissed
    have hnone : tables.updatedRealToInternal.lookup r = none := by
      rw [AList.lookup_eq_none]
      intro hmem
      rw [hcovers.contains r (AList.mem_keys.mp hmem)] at hmissed
      cases hmissed
    rw [hnone]
    rfl
  · rfl

theorem BloomCovers.rebuildBloomTo {tables : IdTables} {capacity : Nat}
    (hcapacity : capacity ≠ 0) : (tables.rebuildBloomTo capacity).BloomCovers := by
  have hbits := BloomFilter.bitsFor_ne_zero hcapacity
  have hkept : ∀ (keys : List Nat) (filter : BloomFilter),
      (keys.foldl BloomFilter.add filter).capacity = filter.capacity := by
    intro keys
    induction keys with
    | nil => exact fun _ => rfl
    | cons key keys ih =>
        intro filter
        refine (ih _).trans ?_
        unfold BloomFilter.add
        split <;> rfl
  refine ⟨?_, ?_, BloomFilter.mightContain_foldl_add hbits _⟩
  · exact (BloomFilter.bitCount_foldl_add _ _).symm ▸ hbits
  · exact (hkept _ _).symm ▸ hcapacity

theorem BloomCovers.reload (tables : IdTables) : tables.reload.BloomCovers :=
  BloomCovers.rebuildBloomTo (by omega)

/-- A reverse entry is that of a forward entry, or was there before. -/
theorem lookup_reverseEntries (entries : List (Sigma fun _ : Nat => Nat))
    (reverse : AList fun _ : Nat => Nat) (i : Nat) :
    (∃ entry ∈ entries, entry.2 = i ∧
      (reverseEntries entries reverse).lookup i = some entry.1) ∨
    (∀ entry ∈ entries, entry.2 ≠ i) ∧
      (reverseEntries entries reverse).lookup i = reverse.lookup i := by
  induction entries generalizing reverse with
  | nil => exact .inr ⟨by simp, rfl⟩
  | cons entry entries ih =>
      rcases ih (reverse.insert entry.2 entry.1) with
        ⟨other, hother, hi, hfound⟩ | ⟨hnone, hkept⟩
      · exact .inl ⟨other, List.mem_cons_of_mem _ hother, hi, hfound⟩
      · change _ = (reverse.insert entry.2 entry.1).lookup i at hkept
        rcases eq_or_ne entry.2 i with heq | hne
        · refine .inl ⟨entry, List.mem_cons_self, heq, ?_⟩
          rw [heq, AList.lookup_insert] at hkept
          rw [← hkept, ← heq]
          rfl
        · refine .inr ⟨List.forall_mem_cons.mpr ⟨hne, hnone⟩, ?_⟩
          rw [AList.lookup_insert_ne (Ne.symm hne)] at hkept
          exact hkept

/-- A rebuilt reverse map inverts the forward map. -/
theorem lookup_reload {tables : IdTables}
    (hdistinct : ∀ r r' i, tables.updatedRealToInternal.lookup r = some i →
      tables.updatedRealToInternal.lookup r' = some i → r = r') (i r : Nat) :
    tables.reload.updatedInternalToReal.lookup i = some r ↔
      tables.updatedRealToInternal.lookup r = some i := by
  have hentry : ∀ entry ∈ tables.updatedRealToInternal.entries,
      tables.updatedRealToInternal.lookup entry.1 = some entry.2 :=
    fun entry hmem => AList.mem_lookup_iff.mpr hmem
  change (reverseEntries tables.updatedRealToInternal.entries ∅).lookup i = some r ↔ _
  rcases lookup_reverseEntries tables.updatedRealToInternal.entries ∅ i with
    ⟨entry, hmem, rfl, hfound⟩ | ⟨hnone, hkept⟩
  · rw [hfound, Option.some.injEq]
    constructor
    · rintro rfl
      exact hentry entry hmem
    · exact fun hlookup => hdistinct _ _ _ (hentry entry hmem) hlookup
  · rw [hkept, AList.lookup_empty]
    constructor
    · rintro ⟨⟩
    · intro hlookup
      exact absurd rfl (hnone ⟨r, i⟩ (AList.mem_lookup_iff.mp hlookup))

/-- What recording a mapping leaves in the maps. -/
theorem recordUpdateMapping_maps (tables : IdTables) (r i : Nat) :
    (tables.recordUpdateMapping r i).updatedRealToInternal =
        tables.updatedRealToInternal.insert r i ∧
      (tables.recordUpdateMapping r i).updatedInternalToReal =
        (((tables.updatedRealToInternal.lookup r).elim tables.updatedInternalToReal
          tables.updatedInternalToReal.erase).insert i r) ∧
      (tables.recordUpdateMapping r i).tombstonedInternalIds =
        tables.tombstonedInternalIds ∧
      (tables.recordUpdateMapping r i).nextUpdateInternalId =
        tables.nextUpdateInternalId := by
  have hreverse : (match tables.updatedRealToInternal.lookup r with
      | some previous => tables.updatedInternalToReal.erase previous
      | none => tables.updatedInternalToReal) =
      (tables.updatedRealToInternal.lookup r).elim tables.updatedInternalToReal
        tables.updatedInternalToReal.erase := by
    cases tables.updatedRealToInternal.lookup r <;> rfl
  unfold recordUpdateMapping
  simp only [hreverse]
  split <;> exact ⟨rfl, rfl, rfl, rfl⟩

theorem BloomCovers.recordUpdateMapping {tables : IdTables}
    (hcovers : tables.BloomCovers) (r i : Nat) :
    (tables.recordUpdateMapping r i).BloomCovers := by
  have hadded : (tables.updateBloom.add r).capacity = tables.updateBloom.capacity := by
    unfold BloomFilter.add
    split <;> rfl
  unfold IdTables.recordUpdateMapping
  simp only
  split
  · apply BloomCovers.rebuildBloomTo
    rw [hadded]
    have hpos := hcovers.capacity
    omega
  · refine ⟨?_, ?_, ?_⟩
    · exact (BloomFilter.bitCount_add _ _).symm ▸ hcovers.bitCount
    · exact hadded.symm ▸ hcovers.capacity
    · intro other hother
      rcases eq_or_ne other r with rfl | hne
      · exact BloomFilter.mightContain_add_self hcovers.bitCount other
      · apply BloomFilter.mightContain_add
        apply hcovers.contains
        rw [AList.mem_keys.symm, AList.mem_insert] at hother
        exact AList.mem_keys.mp (hother.resolve_left hne)

theorem BloomCovers.forgetUpdateMapping {tables : IdTables}
    (hcovers : tables.BloomCovers) (r : Nat) :
    (tables.forgetUpdateMapping r).BloomCovers := by
  unfold IdTables.forgetUpdateMapping
  split
  · refine ⟨hcovers.bitCount, hcovers.capacity, fun other hother => ?_⟩
    apply hcovers.contains
    rw [AList.mem_keys.symm, AList.mem_erase] at hother
    exact AList.mem_keys.mp hother.2
  · exact hcovers

end IdTables

end AsterVec

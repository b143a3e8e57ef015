import AsterVec.PointIds
import Mathlib.Data.List.MinMax

/-!
The id map of a keyed store: one column family of byte strings with the key of every
dense id and the dense id of every key.
-/

namespace AsterVec.KeyMap

open AsterVec.BigEndian

/-- A stored key of the caller, `PointId` encoded. -/
abbrev Key := List UInt8

/-- The column family, newest put first. -/
abbrev Entries := List (List UInt8 × List UInt8)

def kForwardPrefix : UInt8 := 0x6B
def kReversePrefix : UInt8 := 0x72

def encodeKey (id : Nat) : List UInt8 := putBE 8 id

@[simp] theorem encodeKey_length (id : Nat) : (encodeKey id).length = 8 := putBE_length 8 id

theorem valueBE_encodeKey {id : Nat} (hid : id < 2 ^ 63) : valueBE (encodeKey id) = id :=
  valueBE_putBE (hid.trans (by decide))

inductive Lookup where
  | found (dense : Nat)
  | notFound
  | corruption
deriving DecidableEq

def lookupKey (ids : Entries) (key : Key) : Lookup :=
  match ids.lookup (kForwardPrefix :: key) with
  | none => .notFound
  | some v => if v.length = 8 then .found (valueBE v) else .corruption

def reverseLookup (ids : Entries) (dense : Nat) : Option Key :=
  ids.lookup (kReversePrefix :: encodeKey dense)

/-- One write batch with both directions of every item. -/
def putKeys (items : List (Key × Nat)) (ids : Entries) : Entries :=
  items.foldl (fun ids item =>
    (kReversePrefix :: encodeKey item.2, item.1) ::
      (kForwardPrefix :: item.1, encodeKey item.2) :: ids) ids

def putKey (key : Key) (dense : Nat) (ids : Entries) : Entries := putKeys [(key, dense)] ids

/-- The last entry whose key is not above `upper`. -/
def seekForPrev (upper : List UInt8) (ids : Entries) : Option (List UInt8 × List UInt8) :=
  (ids.filter fun entry => decide (sortKey entry.1 ≤ sortKey upper)).argmax
    fun entry => sortKey entry.1

/-- The largest mapped dense id, if there is any; `none` for a damaged entry. -/
def maxMappedId (ids : Entries) : Option (Option Nat) :=
  match seekForPrev [kReversePrefix + 1] ids with
  | none => some none
  | some (key, _) =>
      if key.head? = some kReversePrefix then
        if key.length = 9 then some (some (valueBE key.tail)) else none
      else some none

/-! The pairs that the map stores -/

/-- The column family stores these pairs in both directions and nothing else. -/
structure Stores (ids : Entries) (pairs : List (Key × Nat)) : Prop where
  forward : ∀ key d, (key, d) ∈ pairs → lookupKey ids key = .found d
  absent : ∀ key, (∀ d, (key, d) ∉ pairs) → lookupKey ids key = .notFound
  reverse : ∀ key d, d < 2 ^ 64 → (reverseLookup ids d = some key ↔ (key, d) ∈ pairs)
  entries : ∀ entry ∈ ids, ∃ key d, (key, d) ∈ pairs ∧
    (entry.1 = kForwardPrefix :: key ∨ entry.1 = kReversePrefix :: encodeKey d)
  reversed : ∀ key d, (key, d) ∈ pairs → (kReversePrefix :: encodeKey d, key) ∈ ids
  real : ∀ key d, (key, d) ∈ pairs → d < 2 ^ 63

theorem stores_nil : Stores [] [] where
  forward := by simp
  absent := fun _ _ => rfl
  reverse := by simp [reverseLookup]
  entries := by simp
  reversed := by simp
  real := by simp

variable {ids : Entries} {pairs : List (Key × Nat)} {key key' : Key} {d d' : Nat}

theorem encodeKey_injective (hd : d < 2 ^ 64) (hd' : d' < 2 ^ 64)
    (hsame : encodeKey d = encodeKey d') : d = d' := by
  apply putBE_injective _ _ hsame <;> assumption

theorem lookupKey_putKey_self (hd : d < 2 ^ 63) :
    lookupKey (putKey key d ids) key = .found d := by
  have hentry : (putKey key d ids).lookup (kForwardPrefix :: key) =
      some (encodeKey d) := by
    simp [putKey, putKeys, List.lookup_cons, kForwardPrefix, kReversePrefix]
  unfold lookupKey
  rw [hentry]
  change (if (encodeKey d).length = 8 then Lookup.found (valueBE (encodeKey d)) else _) = _
  rw [if_pos (encodeKey_length d), valueBE_encodeKey hd]

theorem lookupKey_putKey_of_ne (hne : key' ≠ key) :
    lookupKey (putKey key d ids) key' = lookupKey ids key' := by
  unfold lookupKey
  have hentry : (putKey key d ids).lookup (kForwardPrefix :: key') =
      ids.lookup (kForwardPrefix :: key') := by
    have hkey : (key' == key) = false := beq_eq_false_iff_ne.mpr hne
    simp [putKey, putKeys, List.lookup_cons, kForwardPrefix, kReversePrefix, hkey]
  rw [hentry]

theorem reverseLookup_putKey_self : reverseLookup (putKey key d ids) d = some key := by
  simp [reverseLookup, putKey, putKeys]

theorem reverseLookup_putKey_of_ne (hd : d < 2 ^ 64) (hd' : d' < 2 ^ 64) (hne : d' ≠ d) :
    reverseLookup (putKey key d ids) d' = reverseLookup ids d' := by
  have hencoded : (encodeKey d' == encodeKey d) = false :=
    beq_eq_false_iff_ne.mpr fun hsame => hne (encodeKey_injective hd' hd hsame)
  simp [reverseLookup, putKey, putKeys, List.lookup_cons, kForwardPrefix, kReversePrefix,
    hencoded]

namespace Stores

theorem key_unique (hstores : Stores ids pairs) (hmem : (key, d) ∈ pairs)
    (hmem' : (key', d) ∈ pairs) : key = key' := by
  have hd := (hstores.real key d hmem).trans (by decide : 2 ^ 63 < 2 ^ 64)
  have hkey := (hstores.reverse key d hd).mpr hmem
  rw [(hstores.reverse key' d hd).mpr hmem'] at hkey
  exact (Option.some.inj hkey).symm

theorem dense_unique (hstores : Stores ids pairs) (hmem : (key, d) ∈ pairs)
    (hmem' : (key, d') ∈ pairs) : d = d' := by
  have hfound := hstores.forward key d hmem
  rw [hstores.forward key d' hmem'] at hfound
  exact (Lookup.found.inj hfound).symm

theorem lookupKey_iff (hstores : Stores ids pairs) :
    lookupKey ids key = .found d ↔ (key, d) ∈ pairs := by
  constructor
  · intro hfound
    by_contra habsent
    by_cases hsome : ∃ d', (key, d') ∈ pairs
    · obtain ⟨d', hmem⟩ := hsome
      rw [hstores.forward key d' hmem] at hfound
      exact habsent (Lookup.found.inj hfound ▸ hmem)
    · rw [hstores.absent key fun d' hmem => hsome ⟨d', hmem⟩] at hfound
      cases hfound
  · exact hstores.forward key d

/-- A pair that fits is put: it is stored already, or its key and its id are new. -/
theorem putKey (hstores : Stores ids pairs) (hd : d < 2 ^ 63)
    (hfits : (key, d) ∈ pairs ∨ (∀ d', (key, d') ∉ pairs) ∧ ∀ key', (key', d) ∉ pairs) :
    Stores (putKey key d ids) ((key, d) :: pairs) := by
  have honlyDense : ∀ d', (key, d') ∈ pairs → d' = d := by
    intro d' hmem
    rcases hfits with hold | ⟨hnew, -⟩
    · exact hstores.dense_unique hmem hold
    · exact absurd hmem (hnew d')
  have honlyKey : ∀ key', (key', d) ∈ pairs → key' = key := by
    intro key' hmem
    rcases hfits with hold | ⟨-, hnew⟩
    · exact hstores.key_unique hmem hold
    · exact absurd hmem (hnew key')
  refine ⟨?_, ?_, ?_, ?_, ?_, ?_⟩
  · intro key' d' hmem
    rcases eq_or_ne key' key with rfl | hne
    · have hsame : d' = d := by
        rcases List.mem_cons.mp hmem with heq | hold
        · exact congrArg Prod.snd heq
        · exact honlyDense d' hold
      rw [hsame, lookupKey_putKey_self hd]
    · rw [lookupKey_putKey_of_ne hne]
      rcases List.mem_cons.mp hmem with heq | hold
      · exact absurd (congrArg Prod.fst heq) hne
      · exact hstores.forward key' d' hold
  · intro key' habsent
    have hne : key' ≠ key := by
      rintro rfl
      exact habsent d List.mem_cons_self
    rw [lookupKey_putKey_of_ne hne]
    exact hstores.absent key' fun d' hmem => habsent d' (List.mem_cons_of_mem _ hmem)
  · intro key' d' hd'
    rcases eq_or_ne d' d with rfl | hne
    · rw [reverseLookup_putKey_self, Option.some.injEq, List.mem_cons]
      constructor
      · rintro rfl
        exact .inl rfl
      · rintro (heq | hold)
        · exact (congrArg Prod.fst heq).symm
        · exact (honlyKey key' hold).symm
    · rw [reverseLookup_putKey_of_ne (hd.trans (by decide)) hd' hne, hstores.reverse key' d' hd',
        List.mem_cons, Prod.mk.injEq]
      constructor
      · exact .inr
      · rintro (⟨-, heq⟩ | hold)
        · exact absurd heq hne
        · exact hold
  · intro entry hentry
    rcases List.mem_cons.mp hentry with rfl | hentry
    · exact ⟨key, d, List.mem_cons_self, .inr rfl⟩
    · rcases List.mem_cons.mp hentry with rfl | hentry
      · exact ⟨key, d, List.mem_cons_self, .inl rfl⟩
      · obtain ⟨key', d', hmem, hshape⟩ := hstores.entries entry hentry
        exact ⟨key', d', List.mem_cons_of_mem _ hmem, hshape⟩
  · intro key' d' hmem
    rcases List.mem_cons.mp hmem with heq | hold
    · rw [(Prod.mk.inj heq).1, (Prod.mk.inj heq).2]
      exact List.mem_cons_self
    · exact List.mem_cons_of_mem _ (List.mem_cons_of_mem _ (hstores.reversed key' d' hold))
  · intro key' d' hmem
    rcases List.mem_cons.mp hmem with heq | hold
    · rw [(Prod.mk.inj heq).2]
      exact hd
    · exact hstores.real key' d' hold

/-- Pairs with new and distinct keys and ids are put. -/
theorem putKeys (items : List (Key × Nat)) (hstores : Stores ids pairs)
    (hreal : ∀ item ∈ items, item.2 < 2 ^ 63)
    (hkeys : (items.map Prod.fst).Nodup) (hdense : (items.map Prod.snd).Nodup)
    (hnew : ∀ item ∈ items, (∀ d, (item.1, d) ∉ pairs) ∧ ∀ key, (key, item.2) ∉ pairs) :
    Stores (putKeys items ids) (items.reverse ++ pairs) := by
  induction items generalizing ids pairs with
  | nil => exact hstores
  | cons item items ih =>
      rw [List.map_cons, List.nodup_cons] at hkeys hdense
      have hfirst := hstores.putKey (hreal item List.mem_cons_self)
        (.inr (hnew item List.mem_cons_self))
      have hrest : ∀ other ∈ items, (∀ d, (other.1, d) ∉ (item.1, item.2) :: pairs) ∧
          ∀ key, (key, other.2) ∉ (item.1, item.2) :: pairs := by
        intro other hother
        obtain ⟨hkey, hid⟩ := hnew other (List.mem_cons_of_mem _ hother)
        constructor
        · intro d hmem
          rcases List.mem_cons.mp hmem with heq | hmem
          · exact hkeys.1 ((Prod.mk.inj heq).1 ▸ List.mem_map_of_mem hother)
          · exact hkey d hmem
        · intro key hmem
          rcases List.mem_cons.mp hmem with heq | hmem
          · exact hdense.1 ((Prod.mk.inj heq).2 ▸ List.mem_map_of_mem hother)
          · exact hid key hmem
      have hall := ih hfirst (fun other hother => hreal other (List.mem_cons_of_mem _ hother))
        hkeys.2 hdense.2 hrest
      rw [List.reverse_cons, List.append_assoc]
      exact hall

theorem entry_below (hstores : Stores ids pairs) {entry : List UInt8 × List UInt8}
    (hentry : entry ∈ ids) : sortKey entry.1 ≤ sortKey [kReversePrefix + 1] := by
  obtain ⟨key, d, -, hshape⟩ := hstores.entries entry hentry
  refine le_of_lt ?_
  rcases hshape with hshape | hshape
  · rw [hshape]
    exact .rel (by decide)
  · rw [hshape]
    exact .rel (by decide)

/-- The seek finds the largest mapped id. -/
theorem maxMappedId (hstores : Stores ids pairs) :
    ∃ found, maxMappedId ids = some found ∧ (found = none → pairs = []) ∧
      ∀ m, found = some m → m < 2 ^ 63 ∧ ∀ pair ∈ pairs, pair.2 ≤ m := by
  have hall : (ids.filter fun entry =>
      decide (sortKey entry.1 ≤ sortKey [kReversePrefix + 1])) = ids := by
    rw [List.filter_eq_self]
    exact fun entry hentry => decide_eq_true (hstores.entry_below hentry)
  unfold KeyMap.maxMappedId seekForPrev
  rw [hall]
  cases hmax : ids.argmax fun entry => sortKey entry.1 with
  | none =>
      refine ⟨none, rfl, fun _ => ?_, by simp⟩
      rw [List.argmax_eq_none] at hmax
      rw [List.eq_nil_iff_forall_not_mem]
      rintro ⟨key, d⟩ hmem
      have hentry := hstores.reversed key d hmem
      rw [hmax] at hentry
      cases hentry
  | some entry =>
      obtain ⟨key, d, hmem, hshape⟩ := hstores.entries entry (List.argmax_mem hmax)
      have htop : ∀ other ∈ ids, sortKey other.1 ≤ sortKey entry.1 :=
        fun other hother => not_lt.mp
          (@List.not_lt_of_mem_argmax _ _ _ _ (fun e => sortKey e.1) _ _ _ hother hmax)
      have hpair := htop _ (hstores.reversed key d hmem)
      rcases hshape with hshape | hshape
      · -- A forward entry is below the reverse entry of its pair.
        rw [hshape] at hpair
        exact absurd hpair (not_le.mpr (.rel (by decide)))
      · have hd := hstores.real key d hmem
        refine ⟨some d, ?_, by simp, ?_⟩
        · obtain ⟨stored, value⟩ := entry
          change stored = _ at hshape
          subst hshape
          simp [valueBE_encodeKey hd]
        · rintro m ⟨⟩
          refine ⟨hd, fun pair hpair => ?_⟩
          have hle := htop _ (hstores.reversed pair.1 pair.2 hpair)
          rw [hshape] at hle
          have hpairReal := hstores.real pair.1 pair.2 hpair
          refine @sortKey_putBE_le 8 _ _ (hpairReal.trans (by decide))
            (hd.trans (by decide)) ?_
          by_contra hgt
          exact absurd hle (not_le.mpr (.cons (not_le.mp hgt)))

end Stores

end AsterVec.KeyMap

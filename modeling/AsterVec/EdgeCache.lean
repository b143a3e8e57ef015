import AsterVec.EdgeShardEntries
import Mathlib.Combinatorics.Pigeonhole

/-!
The edge cache against its reference model.  The model keeps a list of entries for each shard, in
the order of the last puts; the cache keeps slots, links and a table.
-/

namespace AsterVec.EdgeCache

open AsterVec.EdgeLists (NodeId kNumShards)
open AsterVec.EdgeLists.EdgeLRUCache (shardFor)

/-- The counters, machine words both in the cache and in the model. -/
structure Counters where
  hits : UInt64 := 0
  misses : UInt64 := 0
  evictions : UInt64 := 0
  invalidations : UInt64 := 0

namespace Counters

variable (n : Counters)

def hit : Counters := { n with hits := n.hits + 1 }

def miss : Counters := { n with misses := n.misses + 1 }

def evict (evicted : Bool) : Counters :=
  if evicted then { n with evictions := n.evictions + 1 } else n

def invalidate (erased : Bool) : Counters :=
  if erased then { n with invalidations := n.invalidations + 1 } else n

end Counters

/-- A call on the cache; a `get` writes to `out`. -/
inductive Operation where
  | get (id : NodeId) (out : List NodeId)
  | put (id : NodeId) (neighbors : List NodeId)
  | erase (id : NodeId)

namespace Operation

def id : Operation → NodeId
  | get id _ => id
  | put id _ => id
  | erase id => id

end Operation

def perShardCapacity (capacity : UInt64) : Nat := max 1 (capacity.toNat / kNumShards)

/-- The cache.  `varint` is the encoding of the process. -/
structure EdgeLRUCache where
  varint : Bool
  shards : Nat → Shard
  counters : Counters

namespace EdgeLRUCache

def init (varint : Bool) (capacity : UInt64) : EdgeLRUCache :=
  { varint, shards := fun _ => Shard.init (perShardCapacity capacity), counters := {} }

variable (c : EdgeLRUCache) (id : NodeId)

/-- Whether the id was there, and `out` after the call. -/
def get (out : List NodeId) : EdgeLRUCache × Bool × List NodeId :=
  match (c.shards (shardFor id)).get c.varint id with
  | none => ({ c with counters := c.counters.miss }, false, out)
  | some neighbors => ({ c with counters := c.counters.hit }, true, neighbors)

def put (neighbors : List NodeId) : EdgeLRUCache :=
  let changed := (c.shards (shardFor id)).put c.varint id neighbors
  { c with
    shards := Function.update c.shards (shardFor id) changed.1
    counters := c.counters.evict changed.2 }

def erase : EdgeLRUCache :=
  let changed := (c.shards (shardFor id)).erase id
  { c with
    shards := Function.update c.shards (shardFor id) changed.1
    counters := c.counters.invalidate changed.2 }

def step : Operation → EdgeLRUCache × Option (Bool × List NodeId)
  | .get id out => ((c.get id out).1, some (c.get id out).2)
  | .put id neighbors => (c.put id neighbors, none)
  | .erase id => (c.erase id, none)

end EdgeLRUCache

/-- The reference model. -/
structure Reference where
  perShardCapacity : Nat
  shards : Nat → Entries
  counters : Counters

namespace Reference

def init (capacity : UInt64) : Reference :=
  { perShardCapacity := EdgeCache.perShardCapacity capacity
    shards := fun _ => []
    counters := {} }

variable (r : Reference) (id : NodeId)

def get (out : List NodeId) : Reference × Bool × List NodeId :=
  match (r.shards (shardFor id)).lookup id with
  | none => ({ r with counters := r.counters.miss }, false, out)
  | some neighbors => ({ r with counters := r.counters.hit }, true, neighbors)

def put (neighbors : List NodeId) : Reference :=
  let changed := (r.shards (shardFor id)).put r.perShardCapacity id neighbors
  { r with
    shards := Function.update r.shards (shardFor id) changed.1
    counters := r.counters.evict changed.2 }

def erase : Reference :=
  let changed := (r.shards (shardFor id)).erase id
  { r with
    shards := Function.update r.shards (shardFor id) changed.1
    counters := r.counters.invalidate changed.2 }

def step : Operation → Reference × Option (Bool × List NodeId)
  | .get id out => ((r.get id out).1, some (r.get id out).2)
  | .put id neighbors => (r.put id neighbors, none)
  | .erase id => (r.erase id, none)

/-- No shard has more entries than there are slot indices. -/
def Fits : Prop := ∀ i, (r.shards i).length ≤ kInvalid

end Reference

section Run

variable {σ ρ : Type} (step : σ → Operation → σ × Option ρ)

/-- The state after a sequence of operations, and the results on the way. -/
def run : σ → List Operation → σ × List ρ
  | x, [] => (x, [])
  | x, op :: ops =>
      let rest := run (step x op).1 ops
      (rest.1, (step x op).2.toList ++ rest.2)

theorem run_append (x : σ) (before after : List Operation) :
    run step x (before ++ after) =
      ((run step (run step x before).1 after).1,
        (run step x before).2 ++ (run step (run step x before).1 after).2) := by
  induction before generalizing x with
  | nil => rfl
  | cons op before ih =>
      rw [List.cons_append, run, run, ih]
      simp only [List.append_assoc]

end Run

/-! The refinement -/

/-- Every shard agrees with its list, and so do the counters. -/
structure Refines (c : EdgeLRUCache) (r : Reference) : Prop where
  shards : ∀ i, Agrees c.varint (c.shards i) (r.shards i)
  cap_eq : ∀ i, (c.shards i).cap = r.perShardCapacity
  counters : c.counters = r.counters

variable {c : EdgeLRUCache} {r : Reference} {op : Operation} {ops : List Operation}
  {id : NodeId} {neighbors : List NodeId}

theorem refines_init (varint : Bool) (capacity : UInt64) :
    Refines (EdgeLRUCache.init varint capacity) (Reference.init capacity) where
  shards _ := by
    have hlt := capacity.toNat_lt
    refine agrees_init ?_ ?_
    · exact lt_of_lt_of_le Nat.one_pos (le_max_left 1 _)
    · refine max_le (by decide) ?_
      rw [kNumShards]
      omega
  cap_eq _ := rfl
  counters := rfl

namespace Refines

theorem get (hrefines : Refines c r) (hid : id ≠ kInvalidNodeId) (out : List NodeId) :
    Refines (c.get id out).1 (r.get id out).1 ∧ (c.get id out).2 = (r.get id out).2 := by
  have hget := (hrefines.shards (shardFor id)).get_eq hid
  have hcounters := hrefines.counters
  unfold EdgeLRUCache.get Reference.get
  rw [hget]
  cases (r.shards (shardFor id)).lookup id with
  | none => exact ⟨{ hrefines with counters := congrArg Counters.miss hcounters }, rfl⟩
  | some l => exact ⟨{ hrefines with counters := congrArg Counters.hit hcounters }, rfl⟩

/-- A shard and its list change together. -/
theorem update (hrefines : Refines c r) (i : Nat) {s : Shard} {entries : Entries}
    (hagrees : Agrees c.varint s entries) (hcap : s.cap = r.perShardCapacity)
    (counters : Counters) :
    Refines { c with shards := Function.update c.shards i s, counters := counters }
      { r with shards := Function.update r.shards i entries, counters := counters } where
  shards j := by
    change Agrees c.varint (Function.update c.shards i s j) (Function.update r.shards i entries j)
    rcases eq_or_ne j i with rfl | hne
    · rw [Function.update_self, Function.update_self]
      exact hagrees
    · rw [Function.update_of_ne hne, Function.update_of_ne hne]
      exact hrefines.shards j
  cap_eq j := by
    change (Function.update c.shards i s j).cap = r.perShardCapacity
    rcases eq_or_ne j i with rfl | hne
    · rw [Function.update_self, hcap]
    · rw [Function.update_of_ne hne, hrefines.cap_eq j]
  counters := rfl

theorem put (hrefines : Refines c r) (hid : id ≠ kInvalidNodeId)
    (hfits : (r.put id neighbors).Fits) : Refines (c.put id neighbors) (r.put id neighbors) := by
  have hcap := hrefines.cap_eq (shardFor id)
  have hlength := hfits (shardFor id)
  simp only [Reference.put, Function.update_self, ← hcap] at hlength
  obtain ⟨hagrees, hflag⟩ := (hrefines.shards (shardFor id)).put hid hlength
  rw [hcap] at hagrees hflag
  simp only [EdgeLRUCache.put, Reference.put, hflag, hrefines.counters]
  exact hrefines.update (shardFor id) hagrees ((put_cap ..).trans hcap) _

theorem erase (hrefines : Refines c r) (hid : id ≠ kInvalidNodeId) :
    Refines (c.erase id) (r.erase id) := by
  obtain ⟨hagrees, hflag⟩ := (hrefines.shards (shardFor id)).erase hid
  simp only [EdgeLRUCache.erase, Reference.erase, hflag, hrefines.counters]
  exact hrefines.update (shardFor id) hagrees ((erase_cap ..).trans (hrefines.cap_eq _)) _

theorem step (hrefines : Refines c r) (hid : op.id ≠ kInvalidNodeId)
    (hfits : (r.step op).1.Fits) :
    Refines (c.step op).1 (r.step op).1 ∧ (c.step op).2 = (r.step op).2 := by
  cases op with
  | get id out =>
      obtain ⟨hnext, hresult⟩ := hrefines.get hid out
      exact ⟨hnext, congrArg some hresult⟩
  | put id neighbors => exact ⟨hrefines.put hid hfits, rfl⟩
  | erase id => exact ⟨hrefines.erase hid, rfl⟩

/-- A sequence of operations gives the same results, as long as the shards fit. -/
theorem run (hrefines : Refines c r) (hids : ∀ op ∈ ops, op.id ≠ kInvalidNodeId)
    (hfits : ∀ done, done <+: ops → (EdgeCache.run Reference.step r done).1.Fits) :
    Refines (EdgeCache.run EdgeLRUCache.step c ops).1 (EdgeCache.run Reference.step r ops).1 ∧
      (EdgeCache.run EdgeLRUCache.step c ops).2 = (EdgeCache.run Reference.step r ops).2 := by
  induction ops generalizing c r with
  | nil => exact ⟨hrefines, rfl⟩
  | cons op ops ih =>
      have hfirst : (r.step op).1.Fits := hfits [op] ⟨ops, rfl⟩
      obtain ⟨hnext, hresult⟩ := hrefines.step (hids op List.mem_cons_self) hfirst
      obtain ⟨hlast, hresults⟩ := ih hnext (fun op' hop => hids op' (List.mem_cons_of_mem _ hop))
        fun done hdone => hfits (op :: done) (List.cons_prefix_cons.mpr ⟨rfl, hdone⟩)
      refine ⟨hlast, ?_⟩
      simp only [EdgeCache.run, hresult, hresults]

end Refines

/-! The bound of a shard -/

/-- No shard of the model has more entries than it may. -/
def Reference.Bounded (r : Reference) : Prop := ∀ i, (r.shards i).length ≤ r.perShardCapacity

theorem Reference.Bounded.update (hbounded : r.Bounded) (i : Nat) {entries : Entries}
    (hlength : entries.length ≤ r.perShardCapacity) (counters : Counters) :
    Reference.Bounded
      { r with shards := Function.update r.shards i entries, counters := counters } :=
  (Function.forall_update_iff r.shards
    fun _ (entries : Entries) => entries.length ≤ r.perShardCapacity).mpr
      ⟨hlength, fun j _ => hbounded j⟩

theorem bounded_step (hpos : 0 < r.perShardCapacity) (hbounded : r.Bounded) (op : Operation) :
    (r.step op).1.perShardCapacity = r.perShardCapacity ∧ (r.step op).1.Bounded := by
  cases op with
  | get id out =>
      simp only [Reference.step, Reference.get]
      cases (r.shards (shardFor id)).lookup id <;> exact ⟨rfl, hbounded⟩
  | put id neighbors =>
      exact ⟨rfl, hbounded.update _ (Entries.length_put_le hpos (hbounded _)) _⟩
  | erase id =>
      exact ⟨rfl, hbounded.update _ (Entries.length_erase_le.trans (hbounded _)) _⟩

theorem bounded_run (hpos : 0 < r.perShardCapacity) (hbounded : r.Bounded)
    (ops : List Operation) :
    (run Reference.step r ops).1.perShardCapacity = r.perShardCapacity ∧
      (run Reference.step r ops).1.Bounded := by
  induction ops generalizing r with
  | nil => exact ⟨rfl, hbounded⟩
  | cons op ops ih =>
      obtain ⟨hcap, hnext⟩ := bounded_step hpos hbounded op
      obtain ⟨hlast, hend⟩ := ih (hcap ▸ hpos) hnext
      exact ⟨hlast.trans hcap, hend⟩

theorem fits_of_capacity {capacity : UInt64} (hcapacity : capacity.toNat / kNumShards < 2 ^ 32) :
    (run Reference.step (Reference.init capacity) ops).1.Fits := by
  have hpos : 0 < (Reference.init capacity).perShardCapacity :=
    lt_of_lt_of_le Nat.one_pos (le_max_left 1 _)
  obtain ⟨hcap, hbounded⟩ := bounded_run hpos (fun _ => Nat.zero_le _) ops
  intro i
  refine (hbounded i).trans ?_
  rw [hcap]
  exact max_le (by decide) (Nat.le_of_lt_succ hcapacity)

/-- The cache gives the results and the counters of the reference model, as long as a shard has
no more entries than there are slot indices. -/
theorem cache_eq_reference (varint : Bool) (capacity : UInt64) (ops : List Operation)
    (hids : ∀ op ∈ ops, op.id ≠ kInvalidNodeId)
    (hfits : capacity.toNat / kNumShards < 2 ^ 32 ∨
      ∀ done, done <+: ops → (run Reference.step (Reference.init capacity) done).1.Fits) :
    (run EdgeLRUCache.step (EdgeLRUCache.init varint capacity) ops).2 =
        (run Reference.step (Reference.init capacity) ops).2 ∧
      (run EdgeLRUCache.step (EdgeLRUCache.init varint capacity) ops).1.counters =
        (run Reference.step (Reference.init capacity) ops).1.counters := by
  have hprefixes : ∀ done, done <+: ops →
      (run Reference.step (Reference.init capacity) done).1.Fits := by
    rcases hfits with hcapacity | hfits
    · exact fun done _ => fits_of_capacity hcapacity
    · exact hfits
  obtain ⟨hlast, hresults⟩ := (refines_init varint capacity).run hids hprefixes
  exact ⟨hresults, hlast.counters⟩

/-- A list that is put, found, erased and missed. -/
theorem cache_eq_reference_erased :
    (run EdgeLRUCache.step (EdgeLRUCache.init true 832)
        [.put 5 [1, 300], .get 5 [], .erase 5, .get 5 [7]]).2 =
      (run Reference.step (Reference.init 832)
        [.put 5 [1, 300], .get 5 [], .erase 5, .get 5 [7]]).2 := by
  refine (cache_eq_reference true 832 _ ?_ (.inl (by decide))).1
  decide

/-! A shard with more entries than slot indices -/

/-- The ids of `seen` were put into shard `i`, the last one first, and nothing was erased. -/
structure Filling (i : Nat) (c : EdgeLRUCache) (r : Reference) (seen : List NodeId) : Prop where
  refines : Refines c r
  fits : r.Fits
  keys : (r.shards i).map Prod.fst = seen
  large : kInvalid < r.perShardCapacity
  noFree : (c.shards i).freeHead = kInvalid

variable {i : Nat} {seen ids : List NodeId}

theorem put_freeHead {varint : Bool} {s : Shard} (hnone : s.freeHead = kInvalid) :
    (s.put varint id neighbors).1.freeHead = kInvalid := by
  unfold Shard.put
  simp only
  split_ifs <;> first | exact hnone | contradiction

namespace Filling

theorem length_eq (hfilling : Filling i c r seen) : (r.shards i).length = seen.length := by
  rw [← hfilling.keys, List.length_map]

theorem put (hfilling : Filling i c r seen) (hshard : shardFor id = i) (hid : id ≠ kInvalidNodeId)
    (hnew : id ∉ seen) (hlength : seen.length < kInvalid) :
    Filling i (c.put id []) (r.put id []) (id :: seen) := by
  subst hshard
  have hlarge := hfilling.large
  have hentries := Entries.put_new [] (hfilling.keys ▸ hnew)
    (hfilling.length_eq ▸ hlength.trans hlarge)
  have hfits : (r.put id []).Fits := by
    refine (Function.forall_update_iff r.shards
      fun _ (entries : Entries) => entries.length ≤ kInvalid).mpr
        ⟨?_, fun j _ => hfilling.fits j⟩
    rw [hentries, List.length_cons, hfilling.length_eq]
    exact hlength
  refine ⟨hfilling.refines.put hid hfits, hfits, ?_, hlarge, ?_⟩
  · simp only [Reference.put, Function.update_self, hentries]
    rw [List.map_cons, hfilling.keys]
  · simp only [EdgeLRUCache.put, Function.update_self]
    exact put_freeHead hfilling.noFree

theorem run (hfilling : Filling i c r seen) (hshard : ∀ id ∈ ids, shardFor id = i)
    (hids : ∀ id ∈ ids, id ≠ kInvalidNodeId) (hnodup : (ids.reverse ++ seen).Nodup)
    (hlength : ids.length + seen.length ≤ kInvalid) :
    Filling i (EdgeCache.run EdgeLRUCache.step c (ids.map (.put · []))).1
      (EdgeCache.run Reference.step r (ids.map (.put · []))).1 (ids.reverse ++ seen) := by
  induction ids generalizing c r seen with
  | nil => exact hfilling
  | cons id ids ih =>
      rw [List.reverse_cons, List.append_assoc, List.singleton_append] at hnodup ⊢
      rw [List.length_cons] at hlength
      have hnew : id ∉ seen := (List.nodup_cons.mp (List.nodup_append.mp hnodup).2.1).1
      have hnext := hfilling.put (hshard id List.mem_cons_self) (hids id List.mem_cons_self) hnew
        (by omega)
      refine ih hnext (fun id hid => hshard id (List.mem_cons_of_mem _ hid))
        (fun id hid => hids id (List.mem_cons_of_mem _ hid)) hnodup ?_
      rw [List.length_cons]
      omega

/-- The id that is put next gets the index of no slot. -/
theorem get_put (hfilling : Filling i c r seen) (hshard : shardFor id = i)
    (hid : id ≠ kInvalidNodeId) (hnew : id ∉ seen) (hlength : seen.length = kInvalid) :
    ((c.put id []).get id []).2 = (false, []) ∧ ((r.put id []).get id []).2 = (true, []) := by
  subst hshard
  have habsent : id ∉ (r.shards (shardFor id)).map Prod.fst := by
    rw [hfilling.keys]
    exact hnew
  have hroom : kInvalid < (c.shards (shardFor id)).cap := by
    rw [hfilling.refines.cap_eq]
    exact hfilling.large
  have hmissed := (hfilling.refines.shards (shardFor id)).get_put_last [] hid habsent
    (hfilling.length_eq.trans hlength) hroom hfilling.noFree
  have hcache : ((c.put id []).shards (shardFor id)).get (c.put id []).varint id = none := by
    have hself : (c.put id []).shards (shardFor id) =
        ((c.shards (shardFor id)).put c.varint id []).1 := Function.update_self ..
    rw [hself]
    exact hmissed
  have hmodel : ((r.put id []).shards (shardFor id)).lookup id = some [] := by
    have hself : (r.put id []).shards (shardFor id) =
        ((r.shards (shardFor id)).put r.perShardCapacity id []).1 := Function.update_self ..
    rw [hself]
    exact Entries.lookup_put
  rw [EdgeLRUCache.get, hcache, Reference.get, hmodel]
  exact ⟨rfl, rfl⟩

end Filling

/-- Some shard takes more ids than there are slot indices. -/
theorem exists_crowded_shard : ∃ i, ∃ ids : List NodeId, ids.Nodup ∧ ids.length = kInvalid + 1 ∧
    ∀ id ∈ ids, shardFor id = i ∧ id ≠ kInvalidNodeId := by
  have hcard : ((Finset.univ : Finset NodeId).erase kInvalidNodeId).card = 2 ^ 64 - 1 := by
    rw [Finset.card_erase_of_mem (Finset.mem_univ _), Finset.card_univ, Fintype.card_fin]
  have hmaps : ∀ id ∈ (Finset.univ : Finset NodeId).erase kInvalidNodeId,
      shardFor id ∈ Finset.range kNumShards := by
    intro id _
    exact Finset.mem_range.mpr (Nat.mod_lt _ (by decide))
  obtain ⟨i, -, hlarge⟩ := Finset.exists_lt_card_fiber_of_mul_lt_card_of_maps_to hmaps
    (n := kInvalid) (by
      rw [hcard, Finset.card_range]
      decide)
  obtain ⟨ids, hsubset, hids⟩ := Finset.exists_subset_card_eq (Nat.succ_le_of_lt hlarge)
  refine ⟨i, ids.toList, ids.nodup_toList, ?_, fun id hid => ?_⟩
  · rw [Finset.length_toList, hids]
  · obtain ⟨hin, hshard⟩ := Finset.mem_filter.mp (hsubset (Finset.mem_toList.mp hid))
    exact ⟨hshard, (Finset.mem_erase.mp hin).1⟩

theorem run_puts_results {σ ρ : Type} {step : σ → Operation → σ × Option ρ}
    (hput : ∀ x id neighbors, (step x (.put id neighbors)).2 = none) (x : σ) :
    (run step x (ids.map (.put · []))).2 = [] := by
  induction ids generalizing x with
  | nil => rfl
  | cons id ids ih =>
      rw [List.map_cons, run, hput, ih]
      rfl

theorem large_capacity : kInvalid < perShardCapacity 274877906944 := by
  rw [perShardCapacity, lt_max_iff]
  exact .inr (by decide)

/-- The last of 2^32 entries of a shard gets the index of no slot, and is not found. -/
theorem cache_ne_reference : ¬ ∀ (varint : Bool) (capacity : UInt64) (ops : List Operation),
    (∀ op ∈ ops, op.id ≠ kInvalidNodeId) →
      (run EdgeLRUCache.step (EdgeLRUCache.init varint capacity) ops).2 =
          (run Reference.step (Reference.init capacity) ops).2 ∧
        (run EdgeLRUCache.step (EdgeLRUCache.init varint capacity) ops).1.counters =
          (run Reference.step (Reference.init capacity) ops).1.counters := by
  intro hall
  obtain ⟨i, ids, hnodup, hlength, hids⟩ := exists_crowded_shard
  cases ids with
  | nil => exact absurd hlength (Nat.succ_ne_zero _).symm
  | cons id rest =>
      obtain ⟨hnew, hnodup⟩ := List.nodup_cons.mp hnodup
      obtain ⟨hshard, hid⟩ := hids id List.mem_cons_self
      have hrest := fun id hid => hids id (List.mem_cons_of_mem _ hid)
      have hlength : rest.length = kInvalid := Nat.succ.inj hlength
      have hstart : Filling i (EdgeLRUCache.init true 274877906944)
          (Reference.init 274877906944) [] :=
        ⟨refines_init _ _, fun _ => Nat.zero_le _, rfl, large_capacity, rfl⟩
      have hfull := hstart.run (fun id hid => (hrest id hid).1) (fun id hid => (hrest id hid).2)
        (by rwa [List.append_nil, List.nodup_reverse]) hlength.le
      rw [List.append_nil] at hfull
      have hlast := hfull.get_put hshard hid (fun hin => hnew (List.mem_reverse.mp hin))
        (by rw [List.length_reverse, hlength])
      have hsame := (hall true 274877906944 (rest.map (.put · []) ++ [.put id [], .get id []])
        (by
          intro op hop
          rcases List.mem_append.mp hop with hop | hop
          · obtain ⟨id', hid', rfl⟩ := List.mem_map.mp hop
            exact (hrest id' hid').2
          · simp only [List.mem_cons, List.not_mem_nil, or_false] at hop
            rcases hop with rfl | rfl <;> exact hid)).1
      rw [run_append, run_append, run_puts_results fun _ _ _ => rfl,
        run_puts_results fun _ _ _ => rfl] at hsame
      generalize (run EdgeLRUCache.step (EdgeLRUCache.init true 274877906944)
        (rest.map (.put · []))).1 = c at hsame hlast
      generalize (run Reference.step (Reference.init 274877906944)
        (rest.map (.put · []))).1 = r at hsame hlast
      have hresults : [((c.put id []).get id []).2] = [((r.put id []).get id []).2] := hsame
      rw [hlast.1, hlast.2] at hresults
      exact absurd hresults (by decide)

end AsterVec.EdgeCache

import AsterVec.KeyMapRuns
import AsterVec.PointIdCodec
import Mathlib.Data.Set.Basic

/-!
The hits of a search in a keyed store: their dense ids are read back through the id map.
-/

namespace AsterVec.KeyMap

open AsterVec.PointIds

variable {Distance : Type}

structure Hit (Id Distance : Type) where
  id : Id
  distance : Distance
deriving DecidableEq

/-- What is made of hits; `unreadable` has the stored key that is no id. -/
inductive Hits (Id Distance : Type) where
  | ok (hits : List (Hit Id Distance))
  | unreadable (found : Decoded)
  | stringIds
deriving DecidableEq

def Hits.cons {Id : Type} (hit : Hit Id Distance) : Hits Id Distance → Hits Id Distance
  | .ok hits => .ok (hit :: hits)
  | failed => failed

/-- Hits whose id is not in the map are left out. -/
def toPointHits (ids : Entries) : List (Hit Nat Distance) → Hits PointId Distance
  | [] => .ok []
  | r :: rest =>
      match reverseLookup ids r.id with
      | none => toPointHits ids rest
      | some key =>
          match decode key with
          | .id pid => (toPointHits ids rest).cons ⟨pid, r.distance⟩
          | found => .unreadable found

/-- The same for callers with integer ids only. -/
def toIntIds (ids : Entries) : List (Hit Nat Distance) → Hits Nat Distance
  | [] => .ok []
  | r :: rest =>
      match reverseLookup ids r.id with
      | none => toIntIds ids rest
      | some key =>
          match decode key with
          | .id (.int value) => (toIntIds ids rest).cons ⟨value.toNat, r.distance⟩
          | .id (.str _) => .stringIds
          | found => .unreadable found

/-! Every stored key is the encoding of an id -/

/-- An entry of one direction. -/
def EncodedEntry (entry : List UInt8 × List UInt8) : Prop :=
  ∃ id d, entry = (kReversePrefix :: encodeKey d, encode id) ∨
    entry = (kForwardPrefix :: encode id, encodeKey d)

/-- The key that a write call was given. -/
def Resolving.givenKey : Resolving → Option Key
  | .waiting key | .locked key | .missing key | .allocated key _ | .resolved key _ => some key
  | .refused => none

structure Machine.Encoded (m : Machine) : Prop where
  ids : ∀ entry ∈ m.ids, EncodedEntry entry
  oplog : ∀ record ∈ m.oplog, record.1 ∈ Set.range encode
  writers : ∀ t w key, m.writers t = some w → w.givenKey = some key → key ∈ Set.range encode
  bulk : ∀ keys, m.bulk = some (.checked keys) → ∀ item ∈ keys, item.1 ∈ Set.range encode
  replayed : ∀ records, m.stage = .replaying records →
    ∀ record ∈ records, record.1 ∈ Set.range encode

theorem encoded_fresh : Machine.fresh.Encoded :=
  ⟨by rintro _ ⟨⟩, by rintro _ ⟨⟩, by rintro _ _ _ ⟨⟩, by rintro _ ⟨⟩, by rintro _ ⟨⟩⟩

theorem encodedEntry_putKeys {items : List (Key × Nat)} {ids : Entries}
    (hids : ∀ entry ∈ ids, EncodedEntry entry)
    (hitems : ∀ item ∈ items, item.1 ∈ Set.range encode) :
    ∀ entry ∈ putKeys items ids, EncodedEntry entry := by
  induction items generalizing ids with
  | nil => exact hids
  | cons item items ih =>
      refine ih ?_ fun other hother => hitems other (List.mem_cons_of_mem _ hother)
      obtain ⟨id, hid⟩ := hitems item List.mem_cons_self
      intro entry hentry
      rcases List.mem_cons.mp hentry with rfl | hentry
      · exact ⟨id, item.2, .inl (by rw [hid])⟩
      · rcases List.mem_cons.mp hentry with rfl | hentry
        · exact ⟨id, item.2, .inr (by rw [hid])⟩
        · exact hids entry hentry

namespace Machine.Encoded

variable {shard : Key → Nat} {m m' : Machine} {t : Nat}

/-- A writer moves on with its key. -/
theorem setWriter (hencoded : m.Encoded) {w : Option Resolving}
    (hw : ∀ x key, w = some x → x.givenKey = some key → key ∈ Set.range encode) :
    (m.setWriter t w).Encoded where
  ids := hencoded.ids
  oplog := hencoded.oplog
  writers := by
    intro t' x key hx hkey
    rcases setWriter_some hx with ⟨-, hset⟩ | ⟨-, hold⟩
    · exact hw x key hset hkey
    · exact hencoded.writers t' x key hold hkey
  bulk := hencoded.bulk
  replayed := hencoded.replayed

/-- The new state of a writer has the key of the old one. -/
theorem keeps (hencoded : m.Encoded) {w x : Resolving} (hwriter : m.writers t = some w)
    (hsame : x.givenKey = w.givenKey) :
    (m.setWriter t (some x)).Encoded := by
  refine hencoded.setWriter ?_
  rintro _ key ⟨⟩ hkey
  exact hencoded.writers t w key hwriter (hsame ▸ hkey)

theorem step (hencoded : m.Encoded) (hstep : Step shard m m') : m'.Encoded := by
  cases hstep with
  | begins t id =>
      refine hencoded.setWriter ?_
      rintro _ key ⟨⟩ ⟨⟩
      exact ⟨id, rfl⟩
  | locks t key hwaiting => exact hencoded.keeps hwaiting rfl
  | finds t key d hlocked => exact hencoded.keeps hlocked rfl
  | misses t key hlocked => exact hencoded.keeps hlocked rfl
  | fails t w hwriter =>
      refine hencoded.setWriter ?_
      rintro _ key ⟨⟩ ⟨⟩
  | allocates t key hmissing =>
      have hgrown : { m with nextDenseId := m.nextDenseId + 1 }.Encoded :=
        ⟨hencoded.ids, hencoded.oplog, hencoded.writers, hencoded.bulk, hencoded.replayed⟩
      split
      · exact hgrown.keeps hmissing rfl
      · refine hgrown.setWriter ?_
        rintro _ key ⟨⟩ ⟨⟩
  | puts t key next hallocated =>
      have hput : { m with ids := putKey key next m.ids }.Encoded :=
        ⟨encodedEntry_putKeys hencoded.ids (by
          rintro item hitem
          rw [List.mem_singleton.mp hitem]
          exact hencoded.writers t _ key hallocated rfl), hencoded.oplog,
          hencoded.writers, hencoded.bulk, hencoded.replayed⟩
      exact hput.keeps hallocated rfl
  | logs t key d hresolved =>
      refine ⟨hencoded.ids, fun record hrecord => ?_, hencoded.writers, hencoded.bulk,
        hencoded.replayed⟩
      rcases List.mem_append.mp hrecord with hold | hnew
      · exact hencoded.oplog record hold
      · rw [List.mem_singleton.mp hnew]
        exact hencoded.writers t _ key hresolved rfl
  | ends t w hwriter => exact hencoded.setWriter (by rintro _ _ ⟨⟩)
  | bulkBegins ids =>
      refine ⟨hencoded.ids, hencoded.oplog, hencoded.writers, ?_, hencoded.replayed⟩
      rintro _ ⟨⟩ item hitem
      obtain ⟨id, -, hid⟩ := List.mem_map.mp (List.fst_mem_of_mem_zipIdx hitem)
      exact ⟨id, hid⟩
  | bulkFails =>
      exact ⟨hencoded.ids, hencoded.oplog, hencoded.writers, by rintro _ ⟨⟩,
        hencoded.replayed⟩
  | bulkPuts keys hbulk =>
      exact ⟨encodedEntry_putKeys hencoded.ids (hencoded.bulk keys hbulk), hencoded.oplog,
        hencoded.writers, by rintro _ ⟨⟩, hencoded.replayed⟩
  | bulkCounts =>
      exact ⟨hencoded.ids, hencoded.oplog, hencoded.writers, by rintro _ ⟨⟩,
        hencoded.replayed⟩
  | truncates oplog hsub =>
      exact ⟨hencoded.ids, fun record hrecord => hencoded.oplog record (hsub.subset hrecord),
        hencoded.writers, hencoded.bulk, hencoded.replayed⟩
  | kills =>
      exact ⟨hencoded.ids, hencoded.oplog, by rintro _ _ _ ⟨⟩, by rintro _ ⟨⟩,
        by rintro _ ⟨⟩⟩
  | opens found records hclosed hmax hsub =>
      refine ⟨hencoded.ids, hencoded.oplog, hencoded.writers, hencoded.bulk, ?_⟩
      rintro _ ⟨⟩ record hrecord
      exact hencoded.oplog record (hsub.subset hrecord)
  | replays key d records hreplaying =>
      have hrecords := hencoded.replayed _ hreplaying
      refine ⟨encodedEntry_putKeys hencoded.ids (by
        rintro item hitem
        rw [List.mem_singleton.mp hitem]
        exact hrecords _ List.mem_cons_self), hencoded.oplog, hencoded.writers,
        hencoded.bulk, ?_⟩
      rintro _ ⟨⟩ record hrecord
      exact hrecords record (List.mem_cons_of_mem _ hrecord)
  | starts =>
      exact ⟨hencoded.ids, hencoded.oplog, hencoded.writers, hencoded.bulk, by rintro _ ⟨⟩⟩

/-- A key that is found for a dense id is read as an id. -/
theorem decoded (hencoded : m.Encoded) {d : Nat} {key : Key}
    (hfound : reverseLookup m.ids d = some key) : ∃ id, encode id = key ∧ decode key = .id id := by
  obtain ⟨front, back, hids, -⟩ := List.lookup_eq_some_iff.mp hfound
  have hmem : (kReversePrefix :: encodeKey d, key) ∈ m.ids := by
    rw [hids]
    exact List.mem_append_right _ List.mem_cons_self
  obtain ⟨id, d', hentry | hentry⟩ := hencoded.ids _ hmem
  · rw [(Prod.mk.inj hentry).2]
    exact ⟨id, rfl, decode_encode id⟩
  · exact absurd (List.cons.inj (Prod.mk.inj hentry).1).1 (by decide)

end Machine.Encoded

theorem Reachable.encoded {shard : Key → Nat} {m : Machine} (hm : Reachable shard m) :
    m.Encoded := by
  induction hm with
  | refl => exact encoded_fresh
  | tail _ hstep ih => exact ih.step hstep

/-! The hits -/

/-- The caller's id of a dense id. -/
def pointOf (ids : Entries) (dense : Nat) : Option PointId :=
  match (reverseLookup ids dense).map decode with
  | some (.id id) => some id
  | _ => none

/-- The hits under the ids of their callers. -/
def pointHits (owner : Nat → Option PointId) (hits : List (Hit Nat Distance)) :
    List (Hit PointId Distance) :=
  hits.filterMap fun hit => (owner hit.id).map fun id => ⟨id, hit.distance⟩

/-- The hit under an integer, if its id is one. -/
def Hit.toInt : Hit PointId Distance → Option (Hit Nat Distance)
  | ⟨.int value, distance⟩ => some ⟨value.toNat, distance⟩
  | ⟨.str _, _⟩ => none

theorem mapM_toInt_cons (value : UInt64) (distance : Distance)
    (hits : List (Hit PointId Distance)) :
    (Hit.mk (.int value) distance :: hits).mapM Hit.toInt =
      (hits.mapM Hit.toInt).map (⟨value.toNat, distance⟩ :: ·) := by
  rw [List.mapM_cons]
  change (hits.mapM Hit.toInt).bind (fun rest => some (⟨value.toNat, distance⟩ :: rest)) = _
  cases hits.mapM Hit.toInt <;> rfl

theorem Hits.elim_cons {Id : Type} (hit : Hit Id Distance)
    (hits : Option (List (Hit Id Distance))) :
    (hits.map (hit :: ·)).elim Hits.stringIds Hits.ok =
      (hits.elim Hits.stringIds Hits.ok).cons hit := by
  cases hits <;> rfl

namespace Machine.Encoded

variable {m : Machine}

/-- The map has no key for a dense id, or that of its caller's id. -/
theorem pointOf_cases (hencoded : m.Encoded) (d : Nat) :
    reverseLookup m.ids d = none ∧ pointOf m.ids d = none ∨
      ∃ id, reverseLookup m.ids d = some (encode id) ∧ pointOf m.ids d = some id := by
  cases hfound : reverseLookup m.ids d with
  | none =>
      refine .inl ⟨rfl, ?_⟩
      unfold pointOf
      rw [hfound]
      rfl
  | some key =>
      obtain ⟨id, rfl, hdecode⟩ := hencoded.decoded hfound
      refine .inr ⟨id, rfl, ?_⟩
      unfold pointOf
      rw [hfound, Option.map_some, hdecode]

theorem pointOf_iff (hencoded : m.Encoded) (d : Nat) (id : PointId) :
    pointOf m.ids d = some id ↔ reverseLookup m.ids d = some (encode id) := by
  rcases hencoded.pointOf_cases d with ⟨hkey, hpoint⟩ | ⟨id', hkey, hpoint⟩
  · rw [hkey, hpoint]
    exact ⟨by rintro ⟨⟩, by rintro ⟨⟩⟩
  · rw [hkey, hpoint, Option.some.injEq, Option.some.injEq]
    exact ⟨congrArg encode, fun hsame => encode_injective hsame⟩

theorem toPointHits_eq (hencoded : m.Encoded) (hits : List (Hit Nat Distance)) :
    toPointHits m.ids hits = .ok (pointHits (pointOf m.ids) hits) := by
  induction hits with
  | nil => rfl
  | cons hit hits ih =>
      unfold toPointHits pointHits
      rcases hencoded.pointOf_cases hit.id with ⟨hkey, hpoint⟩ | ⟨id, hkey, hpoint⟩
      · rw [hkey, List.filterMap_cons_none (by rw [hpoint]; rfl)]
        exact ih
      · rw [hkey, List.filterMap_cons_some (by rw [hpoint]; rfl)]
        simp only [decode_encode]
        rw [ih]
        rfl

theorem toIntIds_eq (hencoded : m.Encoded) (hits : List (Hit Nat Distance)) :
    toIntIds m.ids hits =
      ((pointHits (pointOf m.ids) hits).mapM Hit.toInt).elim .stringIds .ok := by
  induction hits with
  | nil => rfl
  | cons hit hits ih =>
      unfold toIntIds pointHits
      rcases hencoded.pointOf_cases hit.id with ⟨hkey, hpoint⟩ | ⟨id, hkey, hpoint⟩
      · rw [hkey, List.filterMap_cons_none (by rw [hpoint]; rfl)]
        exact ih
      · rw [hkey, List.filterMap_cons_some (by rw [hpoint]; rfl)]
        simp only [decode_encode]
        cases id with
        | str s => rfl
        | int value =>
            rw [mapM_toInt_cons, Hits.elim_cons, ih]
            rfl

end Machine.Encoded

/-- Whatever writers, bulk builds, kills and replays made of the id map, the hits of a search
are read back: each under the one id that finds its dense id, and none but those of dense
ids that no id finds are left out.  Where ids are integers only, `SearchKnn` has the same
hits. -/
theorem hits_named {shard : Key → Nat} {m : Machine} (hm : Reachable shard m) :
    ∃ owner : Nat → Option PointId,
      (∀ d < 2 ^ 64, ∀ id, owner d = some id ↔ lookupKey m.ids (encode id) = .found d) ∧
      ∀ hits : List (Hit Nat Distance),
        toPointHits m.ids hits = .ok (pointHits owner hits) ∧
        toIntIds m.ids hits = ((pointHits owner hits).mapM Hit.toInt).elim .stringIds .ok := by
  have hencoded := hm.encoded
  obtain ⟨pairs, hinv, -⟩ := (inv_fresh shard).run hm
  refine ⟨pointOf m.ids, fun d hd id => ?_, fun hits =>
    ⟨hencoded.toPointHits_eq hits, hencoded.toIntIds_eq hits⟩⟩
  rw [hencoded.pointOf_iff, hinv.stores.lookupKey_iff, hinv.stores.reverse _ d hd]

/-- The dense id 0 is that of the id 7, and the dense id 1 is nobody's. -/
theorem hits_named_seven :
    toPointHits sevenPut.ids [⟨1, 3⟩, ⟨0, 5⟩] = Hits.ok [⟨.int 7, 5⟩] ∧
      ∃ owner : Nat → Option PointId,
        toIntIds sevenPut.ids [⟨1, 3⟩, ⟨0, 5⟩] =
          ((pointHits owner [⟨1, 3⟩, ⟨0, 5⟩]).mapM Hit.toInt).elim .stringIds .ok := by
  obtain ⟨owner, -, hhits⟩ := @hits_named Nat _ _ reachable_sevenPut
  exact ⟨by decide, owner, (hhits _).2⟩

end AsterVec.KeyMap

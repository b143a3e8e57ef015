import AsterVec.EdgeShard
import Mathlib.Data.List.Perm.Basic

/-!
A shard of the edge cache as the list of its entries, the one put last in front.
-/

namespace AsterVec.EdgeCache

open AsterVec.EdgeLists (NodeId encodeInto decodeInto decodeInto_encodeInto)
open AsterVec.IntrusiveList AsterVec.LinearProbing

/-- The ids of a shard with their lists. -/
abbrev Entries := List (NodeId × List NodeId)

namespace Entries

variable (cap : Nat) (entries : Entries) (id : NodeId) (neighbors : List NodeId)

def lookup : Option (List NodeId) := (entries.find? (·.1 = id)).map Prod.snd

/-- An id that is there moves to the front; a full list gives up its last entry for a new one.
The flag says whether it did. -/
def put : Entries × Bool :=
  if (lookup entries id).isSome then ((id, neighbors) :: entries.filter (·.1 ≠ id), false)
  else if cap ≤ entries.length then ((id, neighbors) :: entries.dropLast, true)
  else ((id, neighbors) :: entries, false)

def erase : Entries × Bool :=
  if (lookup entries id).isSome then (entries.filter (·.1 ≠ id), true) else (entries, false)

variable {cap entries id neighbors} {before after : Entries} {l : List NodeId}

theorem lookup_none (habsent : id ∉ entries.map Prod.fst) : lookup entries id = none := by
  rw [lookup, List.find?_eq_none.mpr, Option.map_none]
  intro e he hsame
  exact habsent (of_decide_eq_true hsame ▸ List.mem_map_of_mem he)

/-- The other ids of a list in which `id` stands. -/
theorem not_mem_of_nodup (hnodup : ((before ++ (id, l) :: after).map Prod.fst).Nodup) :
    ∀ e ∈ before ++ after, e.1 ≠ id := by
  rw [List.map_append, List.map_cons] at hnodup
  have hother := (List.nodup_cons.mp (List.nodup_middle.mp hnodup)).1
  intro e he hsame
  have hin := List.mem_map_of_mem (f := Prod.fst) he
  rw [List.map_append, hsame] at hin
  exact hother hin

theorem length_filter_lt (hsome : (lookup entries id).isSome) :
    (entries.filter (·.1 ≠ id)).length < entries.length := by
  rw [lookup, Option.isSome_map, List.find?_isSome] at hsome
  obtain ⟨e, he, hsame⟩ := hsome
  refine List.length_filter_lt_length_iff_exists.mpr ⟨e, he, ?_⟩
  simpa using hsame

theorem length_put_le (hpos : 0 < cap) (hle : entries.length ≤ cap) :
    (put cap entries id neighbors).1.length ≤ cap := by
  unfold put
  split
  · next hsome =>
    have hlt := length_filter_lt hsome
    exact hlt.trans_le hle
  · split
    · rw [List.length_cons, List.length_dropLast]
      omega
    · rw [List.length_cons]
      omega

theorem length_erase_le : (erase entries id).1.length ≤ entries.length := by
  unfold erase
  split
  · exact List.length_filter_le ..
  · exact le_rfl

/-- A new id in a list that is not full. -/
theorem put_new (neighbors : List NodeId) (habsent : id ∉ entries.map Prod.fst) (hroom : entries.length < cap) :
    (put cap entries id neighbors).1 = (id, neighbors) :: entries := by
  rw [put, lookup_none habsent, if_neg (by simp), if_neg (by omega)]

theorem lookup_put : lookup (put cap entries id neighbors).1 id = some neighbors := by
  unfold put
  split_ifs <;> simp [lookup]

theorem lookup_split (hnodup : ((before ++ (id, l) :: after).map Prod.fst).Nodup) :
    lookup (before ++ (id, l) :: after) id = some l := by
  have hother := not_mem_of_nodup hnodup
  rw [lookup, List.find?_append, List.find?_eq_none.mpr, Option.none_or, List.find?_cons_of_pos]
  · rfl
  · exact decide_eq_true rfl
  · intro e he hsame
    exact hother e (List.mem_append_left _ he) (of_decide_eq_true hsame)

theorem filter_split (hnodup : ((before ++ (id, l) :: after).map Prod.fst).Nodup) :
    (before ++ (id, l) :: after).filter (·.1 ≠ id) = before ++ after := by
  have hother := not_mem_of_nodup hnodup
  rw [List.filter_append, List.filter_cons_of_neg (by simp), ← List.filter_append]
  exact List.filter_eq_self.mpr fun e he => decide_eq_true (hother e he)

end Entries

/-- The entries of a shard stand in the slots `used`, in their order; the slots `free` are
chained, and those of `out` are neither. -/
structure Arranged (varint : Bool) (s : Shard) (entries : Entries) (used free out : List Nat) :
    Prop where
  linked : Linked kInvalid s.links used
  chained : Chained kInvalid s.links.next s.freeHead free
  slots : (used ++ (free ++ out)).Perm (List.range s.size)
  size_le : s.size ≤ kInvalid
  stored : used.map (fun x => (s.key x, s.enc x)) =
    entries.map fun e => (e.1, encodeInto varint e.2)
  table : ∃ content, Holds (tableLayout s.cap) s.table content ∧
    ∀ k x, content k = some x ↔ x ∈ used ∧ s.key x = k
  distinct : (entries.map Prod.fst).Nodup
  valid : ∀ e ∈ entries, e.1 ≠ kInvalidNodeId
  count_eq : s.count = entries.length
  count_le : s.count ≤ s.cap
  cap_pos : 0 < s.cap
  cap_le : s.cap ≤ 2 ^ 58

variable {varint : Bool} {s : Shard} {entries : Entries} {used free out : List Nat}
  {id : NodeId} {neighbors : List NodeId} {slot : Nat}

namespace Arranged

theorem length_eq (harranged : Arranged varint s entries used free out) :
    used.length = entries.length := by
  have hlength := congrArg List.length harranged.stored
  simpa using hlength

theorem key_eq (harranged : Arranged varint s entries used free out) :
    used.map s.key = entries.map Prod.fst := by
  have hkeys := congrArg (List.map Prod.fst) harranged.stored
  simpa [Function.comp_def] using hkeys

theorem lt_size (harranged : Arranged varint s entries used free out)
    (hslot : slot ∈ used ++ (free ++ out)) : slot < s.size :=
  List.mem_range.mp (harranged.slots.mem_iff.mp hslot)

theorem ne_kInvalid (harranged : Arranged varint s entries used free out)
    (hslot : slot ∈ used ++ (free ++ out)) : slot ≠ kInvalid :=
  Nat.ne_of_lt ((harranged.lt_size hslot).trans_le harranged.size_le)

theorem nodup (harranged : Arranged varint s entries used free out) :
    (used ++ (free ++ out)).Nodup :=
  harranged.slots.nodup_iff.mpr List.nodup_range

/-- The table leads to a slot, and the slot stands where the entry does. -/
theorem find_cases (harranged : Arranged varint s entries used free out)
    (hid : id ≠ kInvalidNodeId) :
    (id ∉ entries.map Prod.fst ∧ s.find id = kInvalid) ∨
      ∃ before l after usedBefore slot usedAfter,
        entries = before ++ (id, l) :: after ∧ used = usedBefore ++ slot :: usedAfter ∧
        s.key slot = id ∧ s.enc slot = encodeInto varint l ∧ s.find id = slot ∧
        usedBefore.map (fun x => (s.key x, s.enc x)) =
          before.map (fun e => (e.1, encodeInto varint e.2)) ∧
        usedAfter.map (fun x => (s.key x, s.enc x)) =
          after.map fun e => (e.1, encodeInto varint e.2) := by
  obtain ⟨content, hholds, hcontent⟩ := harranged.table
  have hfind : s.find id = (content id).getD kInvalid := by
    rw [Shard.find, hholds.find_eq hid]
  by_cases hmem : id ∈ entries.map Prod.fst
  · obtain ⟨⟨id, l⟩, he, rfl⟩ := List.mem_map.mp hmem
    obtain ⟨before, after, rfl⟩ := List.append_of_mem he
    have hstored := harranged.stored
    rw [List.map_append, List.map_cons, List.map_eq_append_iff] at hstored
    obtain ⟨usedBefore, rest, rfl, hbefore, hrest⟩ := hstored
    obtain ⟨slot, usedAfter, rfl, hslot, hafter⟩ := List.map_eq_cons_iff.mp hrest
    obtain ⟨hkey, henc⟩ := Prod.mk.inj hslot
    have hsome := (hcontent id slot).mpr ⟨by simp, hkey⟩
    refine .inr ⟨before, l, after, usedBefore, slot, usedAfter, rfl, rfl, hkey, henc, ?_, hbefore,
      hafter⟩
    rw [hfind, hsome, Option.getD_some]
  · refine .inl ⟨hmem, ?_⟩
    cases hsome : content id with
    | none => rw [hfind, hsome, Option.getD_none]
    | some x =>
        obtain ⟨hx, hkey⟩ := (hcontent id x).mp hsome
        have hin := List.mem_map_of_mem (f := s.key) hx
        rw [harranged.key_eq, hkey] at hin
        exact absurd hin hmem

theorem get_eq (harranged : Arranged varint s entries used free out)
    (hid : id ≠ kInvalidNodeId) : s.get varint id = entries.lookup id := by
  unfold Shard.get
  rcases harranged.find_cases hid with
    ⟨habsent, hfind⟩ | ⟨before, l, after, usedBefore, slot, usedAfter, rfl, rfl, -, henc, hfind, -⟩
  · rw [if_pos hfind, Entries.lookup_none habsent]
  · have hvalid : slot ≠ kInvalid := harranged.ne_kInvalid (by simp)
    simp only [hfind]
    rw [if_neg hvalid, henc, decodeInto_encodeInto, Entries.lookup_split harranged.distinct]

/-- A slot that is left over is neither used nor free. -/
theorem out_not_mem (harranged : Arranged varint s entries used free [slot]) :
    slot ∉ used ∧ slot ∉ free := by
  have hnodup := harranged.nodup
  rw [← List.append_assoc] at hnodup
  have hout := fun hin => (List.nodup_append.mp hnodup).2.2 slot hin slot (by simp) rfl
  exact not_or.mp (mt List.mem_append.mpr hout)

/-- Without a free slot the slots are as many as the entries. -/
theorem size_eq (harranged : Arranged varint s entries used [] []) : s.size = entries.length := by
  have hlength := harranged.slots.length_eq
  simp only [List.append_nil, List.length_range] at hlength
  rw [← hlength, harranged.length_eq]

/-- A new id is entered in the table. -/
theorem insert_holds (harranged : Arranged varint s entries used free out)
    (habsent : id ∉ entries.map Prod.fst) (slot : Nat) (hroom : entries.length < s.cap)
    (hid : id ≠ kInvalidNodeId) :
    ∃ content, content id = none ∧ (∀ k x, content k = some x ↔ x ∈ used ∧ s.key x = k) ∧
      Holds (tableLayout s.cap) (LinearProbing.insert (tableLayout s.cap) s.table id slot)
        (Function.update content id (some slot)) := by
  have hlarge := tableSize_ge harranged.cap_le
  have hcard := (entries.map Prod.fst).toFinset_card_le
  rw [List.length_map] at hcard
  obtain ⟨content, hholds, hcontent⟩ := harranged.table
  have hnone : content id = none := by
    cases hsome : content id with
    | none => rfl
    | some x =>
        obtain ⟨hx, hkey⟩ := (hcontent id x).mp hsome
        have hin := List.mem_map_of_mem (f := s.key) hx
        rw [harranged.key_eq, hkey] at hin
        exact absurd hin habsent
  have hkeys : ∀ k x, content k = some x → k ∈ (entries.map Prod.fst).toFinset := by
    intro k x hkx
    obtain ⟨hx, rfl⟩ := (hcontent k x).mp hkx
    rw [List.mem_toFinset, ← harranged.key_eq]
    exact List.mem_map_of_mem hx
  refine ⟨content, hnone, hcontent, hholds.insert hid slot hnone (hholds.exists_free hkeys ?_)⟩
  change _ ≤ tableSize s.cap
  omega

/-! The steps of the operations -/

/-- The slot of an entry is taken out of the order and of the table. -/
theorem takeOut {before after : Entries} {l : List NodeId} {usedBefore usedAfter : List Nat}
    (harranged : Arranged varint s (before ++ (id, l) :: after) (usedBefore ++ slot :: usedAfter)
      free [])
    (hkey : s.key slot = id)
    (hbefore : usedBefore.map (fun x => (s.key x, s.enc x)) =
      before.map fun e => (e.1, encodeInto varint e.2))
    (hafter : usedAfter.map (fun x => (s.key x, s.enc x)) =
      after.map fun e => (e.1, encodeInto varint e.2)) :
    Arranged varint
      { s with
        links := unlink kInvalid s.links slot
        table := LinearProbing.erase (tableLayout s.cap) s.table id
        count := s.count - 1 }
      (before ++ after) (usedBefore ++ usedAfter) free [slot] := by
  have hnodup := harranged.nodup
  have hcount := harranged.count_eq
  have hcountLe := harranged.count_le
  have hslot : slot ∉ usedBefore ++ usedAfter :=
    (List.nodup_cons.mp (List.nodup_middle.mp harranged.linked.nodup)).1
  have hvalid : id ≠ kInvalidNodeId := harranged.valid (id, l) (by simp)
  obtain ⟨content, hholds, hcontent⟩ := harranged.table
  have hsome : content id = some slot := (hcontent id slot).mpr ⟨by simp, hkey⟩
  refine ⟨harranged.linked.unlink, ?_, ?_, harranged.size_le, ?_, ?_, ?_, ?_, ?_, ?_,
    harranged.cap_pos, harranged.cap_le⟩
  · refine harranged.chained.congr fun x hx => ?_
    refine harranged.linked.unlink_next_of_not_mem (fun hin => ?_)
      (harranged.ne_kInvalid (by simp [hx]))
    exact (List.nodup_append.mp hnodup).2.2 x hin x (by simp [hx]) rfl
  · refine List.Perm.trans ?_ harranged.slots
    rw [List.perm_iff_count]
    intro x
    simp only [List.count_append, List.count_cons, List.count_nil]
    omega
  · rw [List.map_append, List.map_append, hbefore, hafter]
  · refine ⟨Function.update content id none, hholds.erase hvalid, fun k x => ?_⟩
    rcases eq_or_ne k id with rfl | hne
    · rw [Function.update_self]
      refine ⟨fun hnone => absurd hnone (by simp), fun ⟨hx, hkx⟩ => ?_⟩
      have hin : x ∈ usedBefore ++ slot :: usedAfter :=
        List.perm_middle.mem_iff.mpr (List.mem_cons_of_mem slot hx)
      have hfound := (hcontent k x).mpr ⟨hin, hkx⟩
      rw [hsome] at hfound
      cases hfound
      exact absurd hx hslot
    · rw [Function.update_of_ne hne, hcontent k x]
      refine and_congr_left fun hkx => ?_
      have hxs : x ≠ slot := by
        rintro rfl
        exact hne (hkx.symm.trans hkey)
      simp [hxs]
  · have hdistinct := harranged.distinct
    rw [List.map_append, List.map_cons] at hdistinct
    rw [List.map_append]
    exact (List.nodup_cons.mp (List.nodup_middle.mp hdistinct)).2
  · intro e he
    refine harranged.valid e ?_
    rcases List.mem_append.mp he with he | he
    · exact List.mem_append_left _ he
    · exact List.mem_append_right _ (List.mem_cons_of_mem _ he)
  · simp only [List.length_append, List.length_cons] at hcount ⊢
    omega
  · simp only
    omega

/-- A slot is filled with a new entry. -/
theorem fill (harranged : Arranged varint s entries used free [slot])
    (hid : id ≠ kInvalidNodeId) (habsent : id ∉ entries.map Prod.fst)
    (hroom : entries.length < s.cap) :
    Arranged varint (s.fill varint id neighbors slot) ((id, neighbors) :: entries) (slot :: used)
      free [] := by
  have hvalid : slot ≠ kInvalid := harranged.ne_kInvalid (by simp)
  obtain ⟨hslot, hfree⟩ := harranged.out_not_mem
  have hother : ∀ x ∈ used, x ≠ slot := fun x hx => ne_of_mem_of_not_mem hx hslot
  obtain ⟨content, hnone, hcontent, hholds⟩ := harranged.insert_holds habsent slot hroom hid
  refine ⟨harranged.linked.linkFront hslot hvalid, ?_, ?_, harranged.size_le, ?_, ?_, ?_, ?_, ?_,
    ?_, harranged.cap_pos, harranged.cap_le⟩
  · refine harranged.chained.congr fun x hx => ?_
    change (linkFront kInvalid s.links slot).next x = _
    rw [linkFront_next, Function.update_of_ne (ne_of_mem_of_not_mem hx hfree)]
  · refine List.Perm.trans ?_ harranged.slots
    rw [List.perm_iff_count]
    intro x
    simp only [List.count_append, List.count_cons, List.count_nil]
    omega
  · have hstored := harranged.stored
    simp only [Shard.fill, List.map_cons, Function.update_self]
    rw [← hstored]
    congr 1
    refine List.map_congr_left fun x hx => ?_
    rw [Function.update_of_ne (hother x hx), Function.update_of_ne (hother x hx)]
  · refine ⟨_, hholds, fun k x => ?_⟩
    simp only [Shard.fill]
    rcases eq_or_ne k id with rfl | hne
    · rw [Function.update_self]
      refine ⟨?_, ?_⟩
      · rintro heq
        cases heq
        exact ⟨List.mem_cons_self, Function.update_self ..⟩
      · rintro ⟨hx, hkx⟩
        rcases List.mem_cons.mp hx with rfl | hx
        · rfl
        · rw [Function.update_of_ne (hother x hx)] at hkx
          rw [(hcontent k x).mpr ⟨hx, hkx⟩] at hnone
          cases hnone
    · rw [Function.update_of_ne hne, hcontent k x, List.mem_cons]
      rcases eq_or_ne x slot with rfl | hxs
      · rw [Function.update_self]
        exact ⟨fun h => absurd h.1 hslot, fun h => absurd h.2.symm hne⟩
      · rw [Function.update_of_ne hxs, or_iff_right hxs]
  · exact List.nodup_cons.mpr ⟨habsent, harranged.distinct⟩
  · rintro e (_ | ⟨_, he⟩)
    · exact hid
    · exact harranged.valid e he
  · exact congrArg (· + 1) harranged.count_eq
  · have hcount := harranged.count_eq
    change s.count + 1 ≤ s.cap
    omega

/-- An entry gets a new list and moves to the front. -/
theorem refresh {before after : Entries} {l : List NodeId} {usedBefore usedAfter : List Nat}
    (harranged : Arranged varint s (before ++ (id, l) :: after) (usedBefore ++ slot :: usedAfter)
      free [])
    (hkey : s.key slot = id)
    (hbefore : usedBefore.map (fun x => (s.key x, s.enc x)) =
      before.map fun e => (e.1, encodeInto varint e.2))
    (hafter : usedAfter.map (fun x => (s.key x, s.enc x)) =
      after.map fun e => (e.1, encodeInto varint e.2)) :
    Arranged varint
      { s with
        enc := Function.update s.enc slot (encodeInto varint neighbors)
        links := moveToFront kInvalid s.links slot }
      ((id, neighbors) :: (before ++ after)) (slot :: (usedBefore ++ usedAfter)) free [] := by
  have hnodup := harranged.nodup
  have hcount := harranged.count_eq
  have hslot : slot ∉ usedBefore ++ usedAfter :=
    (List.nodup_cons.mp (List.nodup_middle.mp harranged.linked.nodup)).1
  have hdistinct := harranged.distinct
  rw [List.map_append, List.map_cons] at hdistinct
  obtain ⟨content, hholds, hcontent⟩ := harranged.table
  refine ⟨harranged.linked.moveToFront, ?_, ?_, harranged.size_le, ?_, ⟨content, hholds, ?_⟩, ?_,
    ?_, ?_, harranged.count_le, harranged.cap_pos, harranged.cap_le⟩
  · refine harranged.chained.congr fun x hx => ?_
    refine harranged.linked.moveToFront_next_of_not_mem (fun hin => ?_)
      (harranged.ne_kInvalid (by simp [hx]))
    exact (List.nodup_append.mp hnodup).2.2 x hin x (by simp [hx]) rfl
  · refine List.Perm.trans ?_ harranged.slots
    exact List.Perm.append_right _ List.perm_middle.symm
  · have hstored : (before ++ after).map (fun e => (e.1, encodeInto varint e.2)) =
        (usedBefore ++ usedAfter).map fun x => (s.key x, s.enc x) := by
      rw [List.map_append, List.map_append, hbefore, hafter]
    simp only [List.map_cons, Function.update_self, hkey]
    rw [hstored]
    congr 1
    refine List.map_congr_left fun x hx => ?_
    rw [Function.update_of_ne (ne_of_mem_of_not_mem hx hslot)]
  · intro k x
    rw [hcontent k x, List.perm_middle.mem_iff]
  · rw [List.map_cons, List.map_append]
    exact List.nodup_middle.mp hdistinct
  · intro e he
    rcases List.mem_cons.mp he with rfl | he
    · exact harranged.valid (id, l) (by simp)
    · exact harranged.valid e (List.perm_middle.mem_iff.mpr (List.mem_cons_of_mem _ he))
  · rw [hcount, List.length_append, List.length_cons, List.length_cons, List.length_append,
      Nat.add_assoc]

/-- The last entry of a full shard is dropped, and its slot is left over. -/
theorem evict (harranged : Arranged varint s entries used free []) (hfull : s.cap ≤ s.count) :
    ∃ used', Arranged varint s.evict.1 entries.dropLast used' free [s.evict.2] := by
  have hpos := harranged.cap_pos
  have hcount := harranged.count_eq
  have hne : entries ≠ [] := List.ne_nil_of_length_pos (by omega)
  obtain ⟨before, ⟨id, l⟩, rfl⟩ := (List.eq_nil_or_concat' entries).resolve_left hne
  have hstored := harranged.stored
  rw [List.map_append, List.map_eq_append_iff] at hstored
  obtain ⟨usedBefore, last, rfl, hbefore, hlast⟩ := hstored
  obtain ⟨slot, usedAfter, rfl, hslot, hafter⟩ := List.map_eq_cons_iff.mp hlast
  obtain rfl : usedAfter = [] := List.map_eq_nil_iff.mp hafter
  have hkey : s.key slot = id := (Prod.mk.inj hslot).1
  have htail : s.links.tail = slot := by
    rw [harranged.linked.tail_eq, List.getLast?_concat, Option.getD_some]
  refine ⟨usedBefore, ?_⟩
  have hout := harranged.takeOut hkey hbefore rfl
  rw [List.dropLast_concat]
  simp only [List.append_nil] at hout
  unfold Shard.evict
  simp only [htail, hkey]
  exact hout

theorem popFree (harranged : Arranged varint s entries used (slot :: free) []) :
    s.popFree.2 = slot ∧ Arranged varint s.popFree.1 entries used free [slot] := by
  have hnodup := harranged.nodup
  have hslot : slot ∉ used := fun hin =>
    (List.nodup_append.mp hnodup).2.2 slot hin slot (by simp) rfl
  have hfree : slot ∉ free := by
    have hrest := (List.nodup_append.mp hnodup).2.1
    rw [List.append_nil] at hrest
    exact (List.nodup_cons.mp hrest).1
  obtain ⟨hfirst, hchained⟩ := harranged.chained
  unfold Shard.popFree
  simp only [hfirst]
  refine ⟨trivial, { harranged with linked := ?_, chained := ?_, slots := ?_ }⟩
  · refine harranged.linked.congr (fun x hx => ?_) (fun _ _ => rfl) rfl rfl
    exact Function.update_of_ne (ne_of_mem_of_not_mem hx hslot) ..
  · refine hchained.congr fun x hx => ?_
    exact Function.update_of_ne (ne_of_mem_of_not_mem hx hfree) ..
  · refine List.Perm.trans ?_ harranged.slots
    refine List.Perm.append_left _ ?_
    rw [List.append_nil]
    exact List.perm_append_singleton slot free

theorem emplaceBack (harranged : Arranged varint s entries used [] [])
    (hfits : entries.length < kInvalid) :
    Arranged varint s.emplaceBack.1 entries used [] [s.emplaceBack.2] := by
  have hsize := harranged.size_eq
  have hindex : s.size % 2 ^ 32 = s.size :=
    Nat.mod_eq_of_lt (hsize ▸ hfits.trans (by decide))
  unfold Shard.emplaceBack
  simp only [hindex]
  refine { harranged with slots := ?_, size_le := ?_ }
  · rw [List.range_succ]
    have hslots := harranged.slots
    rw [List.append_nil, List.append_nil] at hslots
    exact hslots.append_right [s.size]
  · simp only
    omega

/-- A slot that is left over becomes the first free one. -/
theorem release (harranged : Arranged varint s entries used free [slot]) :
    Arranged varint
      { s with
        links := { s.links with next := Function.update s.links.next slot s.freeHead }
        enc := Function.update s.enc slot []
        freeHead := slot }
      entries used (slot :: free) [] := by
  obtain ⟨hslot, hfree⟩ := harranged.out_not_mem
  refine { harranged with linked := ?_, chained := ?_, slots := ?_, stored := ?_ }
  · refine harranged.linked.congr (fun x hx => ?_) (fun _ _ => rfl) rfl rfl
    exact Function.update_of_ne (ne_of_mem_of_not_mem hx hslot) ..
  · refine ⟨rfl, ?_⟩
    simp only [Function.update_self]
    refine harranged.chained.congr fun x hx => ?_
    exact Function.update_of_ne (ne_of_mem_of_not_mem hx hfree) ..
  · refine List.Perm.trans ?_ harranged.slots
    refine List.Perm.append_left _ ?_
    rw [List.append_nil]
    exact (List.perm_append_singleton slot free).symm
  · rw [← harranged.stored]
    refine List.map_congr_left fun x hx => ?_
    simp only
    rw [Function.update_of_ne (ne_of_mem_of_not_mem hx hslot)]

end Arranged

/-! The operations -/

/-- The shard holds the entries, in their order. -/
def Agrees (varint : Bool) (s : Shard) (entries : Entries) : Prop :=
  ∃ used free, Arranged varint s entries used free []

theorem agrees_init {capacity : Nat} (hpos : 0 < capacity) (hle : capacity ≤ 2 ^ 58) :
    Agrees varint (Shard.init capacity) [] := by
  refine ⟨[], [], linked_nil rfl rfl, rfl, List.Perm.refl [], Nat.zero_le _, rfl, ?_,
    List.nodup_nil, ?_, rfl, Nat.zero_le _, hpos, hle⟩
  · refine ⟨fun _ => none, holds_empty (tableSize_pos capacity) _, fun k x => ?_⟩
    simp
  · intro e he
    cases he

namespace Agrees

theorem get_eq (hagrees : Agrees varint s entries) (hid : id ≠ kInvalidNodeId) :
    s.get varint id = entries.lookup id := by
  obtain ⟨used, free, harranged⟩ := hagrees
  exact harranged.get_eq hid

theorem put (hagrees : Agrees varint s entries) (hid : id ≠ kInvalidNodeId)
    (hfits : (entries.put s.cap id neighbors).1.length ≤ kInvalid) :
    Agrees varint (s.put varint id neighbors).1 (entries.put s.cap id neighbors).1 ∧
      (s.put varint id neighbors).2 = (entries.put s.cap id neighbors).2 := by
  obtain ⟨used, free, harranged⟩ := hagrees
  have hcount := harranged.count_eq
  have hpos := harranged.cap_pos
  unfold Shard.put
  unfold Entries.put at hfits ⊢
  rcases harranged.find_cases hid with
    ⟨habsent, hfind⟩ | ⟨before, l, after, usedBefore, slot, usedAfter, rfl, rfl, hkey, -, hfind,
      hbefore, hafter⟩
  · rw [Entries.lookup_none habsent] at hfits ⊢
    simp only [hfind, ne_eq, not_true_eq_false, if_false, Option.isSome_none,
      Bool.false_eq_true] at hfits ⊢
    rw [← hcount] at hfits ⊢
    by_cases hfull : s.cap ≤ s.count
    · simp only [if_pos hfull] at hfits ⊢
      obtain ⟨used', hevict⟩ := harranged.evict hfull
      refine ⟨⟨_, _, hevict.fill hid (fun hin => habsent ?_) ?_⟩, trivial⟩
      · rw [List.map_dropLast] at hin
        exact List.dropLast_subset _ hin
      · change _ < s.cap
        have hle := harranged.count_le
        rw [List.length_dropLast]
        omega
    · simp only [if_neg hfull] at hfits ⊢
      have hroom : entries.length < s.cap := by omega
      cases free with
      | nil =>
          have hnone : s.freeHead = kInvalid := harranged.chained
          rw [if_neg (not_not.mpr hnone)]
          have hnew := harranged.emplaceBack hfits
          exact ⟨⟨_, _, hnew.fill hid habsent hroom⟩, rfl⟩
      | cons slot free =>
          have hsome : s.freeHead ≠ kInvalid := by
            rw [harranged.chained.1]
            exact harranged.ne_kInvalid (by simp)
          rw [if_pos hsome]
          obtain ⟨hslot, hpop⟩ := harranged.popFree
          rw [hslot]
          exact ⟨⟨_, _, hpop.fill hid habsent hroom⟩, rfl⟩
  · have hvalid : slot ≠ kInvalid := harranged.ne_kInvalid (by simp)
    rw [Entries.lookup_split harranged.distinct, Entries.filter_split harranged.distinct]
    simp only [hfind, if_pos hvalid, Option.isSome_some, if_true]
    exact ⟨⟨_, _, harranged.refresh hkey hbefore hafter⟩, trivial⟩

theorem erase (hagrees : Agrees varint s entries) (hid : id ≠ kInvalidNodeId) :
    Agrees varint (s.erase id).1 (entries.erase id).1 ∧ (s.erase id).2 = (entries.erase id).2 := by
  have hsame := hagrees
  obtain ⟨used, free, harranged⟩ := hagrees
  unfold Shard.erase Entries.erase
  rcases harranged.find_cases hid with
    ⟨habsent, hfind⟩ | ⟨before, l, after, usedBefore, slot, usedAfter, rfl, rfl, hkey, -, hfind,
      hbefore, hafter⟩
  · rw [if_pos hfind, Entries.lookup_none habsent]
    exact ⟨hsame, rfl⟩
  · have hvalid : slot ≠ kInvalid := harranged.ne_kInvalid (by simp)
    rw [Entries.lookup_split harranged.distinct, Entries.filter_split harranged.distinct]
    simp only [hfind, if_neg hvalid, Option.isSome_some, if_true]
    exact ⟨⟨_, _, (harranged.takeOut hkey hbefore hafter).release⟩, trivial⟩

end Agrees

/-- The entry that gets the last slot index is not found again. -/
theorem Agrees.get_put_last (hagrees : Agrees varint s entries) (neighbors : List NodeId)
    (hid : id ≠ kInvalidNodeId) (habsent : id ∉ entries.map Prod.fst)
    (hlength : entries.length = kInvalid) (hroom : kInvalid < s.cap)
    (hnone : s.freeHead = kInvalid) :
    (s.put varint id neighbors).1.get varint id = none := by
  obtain ⟨used, free, harranged⟩ := hagrees
  obtain rfl : free = [] := by
    cases free with
    | nil => rfl
    | cons slot free =>
        rw [harranged.chained.1] at hnone
        exact absurd hnone (harranged.ne_kInvalid (by simp))
  have hcount := harranged.count_eq
  have hsize := harranged.size_eq
  have hfind := (harranged.find_cases hid).resolve_right (by
    rintro ⟨before, l, after, usedBefore, slot, usedAfter, rfl, -⟩
    simp at habsent)
  have hput : s.put varint id neighbors =
      (Shard.fill varint s.emplaceBack.1 id neighbors kInvalid, false) := by
    have hindex : s.emplaceBack.2 = kInvalid := by
      rw [Shard.emplaceBack, hsize, hlength]
      rfl
    unfold Shard.put
    simp only [hfind.2, hnone, ne_eq, not_true_eq_false, if_false]
    rw [if_neg (by omega), hindex]
  obtain ⟨content, hholds, hcontent, hafter⟩ := harranged.insert_holds habsent kInvalid
    (hlength ▸ hroom) hid
  have hlookup : (s.put varint id neighbors).1.find id = kInvalid := by
    rw [hput]
    change (LinearProbing.find (tableLayout s.cap)
      (LinearProbing.insert (tableLayout s.cap) s.table id kInvalid) id).getD kInvalid = kInvalid
    rw [hafter.find_eq hid, Function.update_self, Option.getD_some]
  unfold Shard.get
  simp only [hlookup, if_true]

@[simp] theorem put_cap : (s.put varint id neighbors).1.cap = s.cap := by
  unfold Shard.put
  simp only
  split_ifs <;> rfl

@[simp] theorem erase_cap : (s.erase id).1.cap = s.cap := by
  unfold Shard.erase
  simp only
  split_ifs <;> rfl

end AsterVec.EdgeCache

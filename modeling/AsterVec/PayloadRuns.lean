import AsterVec.PayloadWrites

/-!
What runs of writes leave in the payload store.  A text that comes with a call is checked;
a text that is made of stored ones is not.
-/

namespace AsterVec.PayloadWrites

open AsterVec.PointIds (PointId)

variable {F Doc : Type} {engine : Engine F Doc} {faults : Faults} {s : Store} {r i : Nat}

/-- The text of an object, of 64 KiB at most. -/
def Admissible (json : JsonLibrary Doc) (text : Text) : Prop :=
  text.length ≤ kMaxMetadataJsonBytes ∧
    ∃ doc, json.parse text = .ok doc ∧ json.isObject doc = true

/-- Every row is admissible. -/
def Store.Admissible (json : JsonLibrary Doc) (s : Store) : Prop :=
  ∀ i row, s.rows i = some row → PayloadWrites.Admissible json row

theorem parseMetadataObject_eq_ok {json : JsonLibrary Doc} {text : Text} {doc : Doc} :
    parseMetadataObject json text = .ok doc ↔
      text.length ≤ kMaxMetadataJsonBytes ∧ json.parse text = .ok doc ∧
        json.isObject doc = true := by
  unfold parseMetadataObject
  split
  · rename_i hlong
    exact iff_of_false (by rintro ⟨⟩) fun hall => absurd hlong (Nat.not_lt.mpr hall.1)
  · rename_i hshort
    have hlength := Nat.not_lt.mp hshort
    cases hparse : json.parse text with
    | error what => simp
    | ok found =>
        simp only [Except.ok.injEq]
        split
        · rename_i hobject
          rw [Except.ok.injEq]
          exact ⟨fun hsame => ⟨hlength, hsame, hsame ▸ hobject⟩, fun hall => hall.2.1⟩
        · rename_i hother
          refine iff_of_false (by rintro ⟨⟩) ?_
          rintro ⟨-, rfl, hobject⟩
          exact hother hobject

theorem admissible_iff {json : JsonLibrary Doc} {text : Text} :
    Admissible json text ↔ ∃ doc, parseMetadataObject json text = .ok doc := by
  simp only [parseMetadataObject_eq_ok]
  constructor
  · rintro ⟨hlength, doc, hparse, hobject⟩
    exact ⟨doc, hlength, hparse, hobject⟩
  · rintro ⟨doc, hlength, hparse, hobject⟩
    exact ⟨hlength, doc, hparse, hobject⟩

theorem admissible_emptyText (json : JsonLibrary Doc) : Admissible json emptyText :=
  ⟨by decide, json.parse_empty⟩

theorem admissible_dump {json : JsonLibrary Doc} {doc : Doc} (hobject : json.isObject doc = true)
    (hlength : (json.dump doc).length ≤ kMaxMetadataJsonBytes) :
    Admissible json (json.dump doc) :=
  ⟨hlength, json.parse_dump doc hobject⟩

theorem admissible_of_validate {metadata : Text} (hsome : metadata ≠ [])
    (hvalid : validateMetadata engine metadata = .ok) :
    Admissible engine.json metadata := by
  unfold validateMetadata at hvalid
  rw [if_neg hsome] at hvalid
  rw [admissible_iff]
  cases hparsed : parseMetadataObject engine.json metadata with
  | ok doc => exact ⟨doc, rfl⟩
  | error status =>
      rw [hparsed] at hvalid
      unfold parseMetadataObject at hparsed
      split at hparsed
      · cases hparsed
        cases hvalid
      · split at hparsed
        · cases hparsed
          cases hvalid
        · split at hparsed
          · cases hparsed
          · cases hparsed
            cases hvalid

/-! Rows -/

@[simp] theorem rows_setRow_self (s : Store) (i : Nat) (row : Option Text) :
    (s.setRow i row).rows i = row :=
  Function.update_self ..

@[simp] theorem rows_logOp (fault : Option OpLog.Fault) (rec : OpLog.OpRecord) (s : Store) :
    (logOp fault rec s).2.rows = s.rows := by
  unfold logOp
  split
  · rfl
  · simp only
    split
    · rfl
    · rfl

@[simp] theorem rows_logAbort (fault : Option OpLog.Fault) (lsn : Nat) (s : Store) :
    (logAbort fault lsn s).rows = s.rows := by
  unfold logAbort
  split
  · rfl
  · exact rows_logOp _ _ _

theorem rows_resolveId (engine : Engine F Doc) (faults : Faults) (id : PointId) (create : Bool)
    (s : Store) : (resolveId engine faults id create s).2.rows = s.rows := by
  unfold resolveId
  split
  · rfl
  · split
    · rfl
    · simp only
      split
      · rfl
      · split
        · rfl
        · split
          · rfl
          · split
            · rfl
            · split
              · rfl
              · rfl

variable {json : JsonLibrary Doc}

theorem Store.Admissible.congr (hrows : s.Admissible json) {s' : Store}
    (hsame : s'.rows = s.rows) : s'.Admissible json := by
  unfold Store.Admissible
  rw [hsame]
  exact hrows

theorem Store.Admissible.setRow (hrows : s.Admissible json) {row : Option Text}
    (hrow : ∀ text, row = some text → PayloadWrites.Admissible json text) :
    (s.setRow i row).Admissible json := by
  intro j text hfound
  change Function.update s.rows i row j = some text at hfound
  rcases eq_or_ne j i with rfl | hne
  · rw [Function.update_self] at hfound
    exact hrow text hfound
  · rw [Function.update_of_ne hne] at hfound
    exact hrows j text hfound

/-! Calls -/

/-- A payload that comes with a call is checked before it is written. -/
theorem admissible_migrateMetadata (faults : Faults) (hrows : s.Admissible json)
    {metadata : Text}
    (hmetadata : metadata ≠ [] → PayloadWrites.Admissible json metadata) (old new : Nat) :
    (migrateMetadata faults old new metadata s).2.Admissible json := by
  unfold migrateMetadata
  split
  · rename_i hsome
    split
    · exact hrows
    · refine hrows.setRow ?_
      rintro _ ⟨⟩
      exact hmetadata hsome
  · split
    · exact hrows
    · rename_i oldMeta hold
      split
      · exact hrows
      · refine hrows.setRow ?_
        rintro _ ⟨⟩
        split at hold
        · exact hrows old _ hold
        · cases hold

theorem admissible_updateAlive (hrows : s.Admissible json) {metadata : Text}
    (hmetadata : metadata ≠ [] → PayloadWrites.Admissible json metadata) (vec : List F)
    (key : List UInt8) :
    (updateAlive engine faults r vec metadata key s).2.Admissible json := by
  unfold updateAlive
  have hlogged := rows_logOp faults.append (writeRecord engine .kUpdate r s.nextUpdateId
    (s.resolveInternal r) vec metadata key) { s with nextUpdateId := s.nextUpdateId + 1 }
  simp only
  split
  · rename_i heq
    rw [heq] at hlogged
    exact hrows.congr hlogged
  · rename_i lsn logged heq
    rw [heq] at hlogged
    split
    · exact hrows.congr ((rows_logAbort _ _ _).trans hlogged)
    · have hswitched : (((logged.storeVector s.nextUpdateId).recordUpdateMapping r
          s.nextUpdateId).tombstone (s.resolveInternal r)).Admissible json :=
        hrows.congr hlogged
      have hmigrated := admissible_migrateMetadata faults hswitched hmetadata
        (s.resolveInternal r) s.nextUpdateId
      split
      · rename_i migrated hmigrate
        rw [hmigrate] at hmigrated
        split
        · exact hmigrated.setRow (by rintro _ ⟨⟩)
        · exact hmigrated.setRow (by rintro _ ⟨⟩)
        · exact hmigrated
      · rename_i hmigrate
        rw [hmigrate] at hmigrated
        exact hmigrated

theorem admissible_insertNew (hrows : s.Admissible json) {metadata : Text}
    (hmetadata : metadata ≠ [] → PayloadWrites.Admissible json metadata) (vec : List F)
    (key : List UInt8) :
    (insertNew engine faults r vec metadata key s).2.Admissible json := by
  unfold insertNew
  simp only
  generalize (if s.tombstoned r then s.nextUpdateId else r) = target
  have hnext : (if s.tombstoned r then { s with nextUpdateId := s.nextUpdateId + 1 }
      else s).rows = s.rows := by
    split
    · rfl
    · rfl
  generalize (if s.tombstoned r then { s with nextUpdateId := s.nextUpdateId + 1 }
    else s) = next at hnext ⊢
  have hlogged := rows_logOp faults.append
    (writeRecord engine .kInsert r target 0 vec metadata key) next
  rw [hnext] at hlogged
  split
  · rename_i heq
    rw [heq] at hlogged
    exact hrows.congr hlogged
  · rename_i lsn logged heq
    rw [heq] at hlogged
    have hmapped : (if s.tombstoned r then logged.recordUpdateMapping r target
        else logged).rows = s.rows := by
      split
      · exact hlogged
      · exact hlogged
    generalize (if s.tombstoned r then logged.recordUpdateMapping r target
      else logged) = mapped at hmapped ⊢
    split
    · exact hrows.congr ((rows_logAbort _ _ _).trans hmapped)
    · have hstored : (mapped.storeVector target).Admissible json := hrows.congr hmapped
      split
      · exact hstored
      · rename_i hsome
        split
        · exact hstored
        · refine hstored.setRow ?_
          rintro _ ⟨⟩
          exact hmetadata hsome

theorem admissible_insertDense (hrows : s.Admissible engine.json) (metadata : Text)
    (vec : List F) (key : List UInt8) :
    (insertDense engine faults r vec metadata key s).2.Admissible engine.json := by
  unfold insertDense
  split
  · exact hrows
  · rename_i hvalid
    have hmetadata : metadata ≠ [] → PayloadWrites.Admissible engine.json metadata := by
      intro hsome
      apply admissible_of_validate hsome
      have hargs := not_not.mp hvalid
      unfold validateInsertArgs at hargs
      split at hargs
      · contradiction
      · split at hargs
        · contradiction
        · exact hargs
    split
    · split
      · exact hrows
      · split
        · exact hrows
        · split
          · exact hrows
          · exact admissible_updateAlive hrows hmetadata vec key
    · exact admissible_insertNew hrows hmetadata vec key

theorem admissible_insert (hrows : s.Admissible engine.json) (id : PointId) (vec : List F)
    (metadata : Text) : (insert engine faults id vec metadata s).2.Admissible engine.json := by
  unfold insert
  split
  · exact hrows
  · have hresolved := rows_resolveId engine faults id true s
    split
    · rename_i heq
      rw [heq] at hresolved
      exact hrows.congr hresolved
    · rename_i heq
      rw [heq] at hresolved
      exact admissible_insertDense (hrows.congr hresolved) metadata vec _

theorem admissible_update (hrows : s.Admissible engine.json) (id : PointId) (vec : List F) :
    (update engine faults id vec s).2.Admissible engine.json := by
  unfold update
  split
  · exact hrows
  · have hresolved := rows_resolveId engine faults id true s
    split
    · rename_i heq
      rw [heq] at hresolved
      exact hrows.congr hresolved
    · rename_i r key resolved heq
      rw [heq] at hresolved
      have hrows' := hrows.congr hresolved
      unfold updateDense
      split
      · exact hrows'
      · split
        · exact hrows'
        · split
          · exact hrows'
          · split
            · exact admissible_insertDense hrows' [] vec key
            · exact admissible_updateAlive hrows' (fun hsome => absurd rfl hsome) vec key

theorem admissible_delete (hrows : s.Admissible json) (id : PointId) :
    (delete engine faults id s).2.Admissible json := by
  unfold delete
  split
  · exact hrows
  · exact hrows
  · rename_i r _
    unfold deleteDense
    simp only
    split
    · exact hrows
    · have hlogged := rows_logOp faults.append (bareRecord .kDelete r (s.resolveInternal r) 0) s
      split
      · rename_i heq
        rw [heq] at hlogged
        exact hrows.congr hlogged
      · rename_i lsn logged heq
        rw [heq] at hlogged
        have htombstoned : (logged.tombstone (s.resolveInternal r)).Admissible json :=
          hrows.congr hlogged
        split
        · exact (htombstoned.setRow (by rintro _ ⟨⟩)).congr rfl
        · exact (htombstoned.setRow (by rintro _ ⟨⟩)).congr rfl
        · exact htombstoned

theorem admissible_setPayload (hrows : s.Admissible engine.json) (id : PointId)
    (metadata : Text) : (setPayload engine faults id metadata s).2.Admissible engine.json := by
  unfold setPayload
  split
  · exact hrows
  · unfold setPayloadDense
    split
    · exact hrows
    · split
      · exact hrows
      · rename_i doc hparsed
        split
        · exact hrows
        · refine hrows.setRow ?_
          rintro _ ⟨⟩
          exact admissible_iff.mpr ⟨doc, hparsed⟩

theorem admissible_checkItems {items : List (Faults × PointId × Text)}
    {rows : List (Nat × Text)} (hchecked : checkItems engine s items = .ok rows) :
    ∀ row ∈ rows, PayloadWrites.Admissible engine.json row.2 := by
  induction items generalizing rows with
  | nil =>
      cases hchecked
      exact fun row hrow => by cases hrow
  | cons item items ih =>
      obtain ⟨faults, id, metadata⟩ := item
      unfold checkItems at hchecked
      split at hchecked
      · cases hchecked
      · cases hchecked
      · split at hchecked
        · cases hchecked
        · split at hchecked
          · cases hchecked
          · rename_i doc hparsed
            split at hchecked
            · cases hchecked
            · rename_i rest hrest
              cases hchecked
              intro row hrow
              rcases List.mem_cons.mp hrow with rfl | hlater
              · exact admissible_iff.mpr ⟨doc, hparsed⟩
              · exact ih hrest row hlater

theorem admissible_setPayloadBatch (hrows : s.Admissible engine.json)
    (items : List (Faults × PointId × Text)) :
    (setPayloadBatch engine faults items s).2.Admissible engine.json := by
  unfold setPayloadBatch
  split
  · exact hrows
  · rename_i rows hchecked
    have hadmissible := admissible_checkItems hchecked
    clear hchecked
    split
    · exact hrows
    · simp only
      induction rows generalizing s with
      | nil => exact hrows
      | cons row rows ih =>
          refine ih (hrows.setRow ?_) fun other hother => hadmissible other (by simp [hother])
          rintro _ ⟨⟩
          exact hadmissible row (by simp)

/-! Texts that are made of stored ones -/

/-- The document that a patch leaves. -/
def patched (engine : Engine F Doc) (existing : Option Doc) (patch : Doc) : Doc :=
  engine.json.mergePatch (existing.getD engine.json.object) patch

theorem readDocument_of_row {row : Text} {doc : Doc} (hget : faults.get = .ok)
    (hrow : s.rows i = some row) (hparse : engine.json.parse row = .ok doc) :
    readDocument engine faults i s = .ok (some doc) := by
  unfold readDocument
  rw [hget, hrow]
  simp only
  rw [hparse]

/-- A patch of a row is written as it is. -/
theorem updatePayload_eq {id : PointId} {patch : Text} {doc : Doc} {existing : Option Doc}
    (hid : lookedUp engine faults id s = .ok r) (halive : s.isAlive r = true)
    (hpatch : parseMetadataObject engine.json patch = .ok doc)
    (hread : readDocument engine faults (s.resolveInternal r) s = .ok existing)
    (hput : faults.put = .ok) :
    updatePayload engine faults id patch s =
      (.ok, s.setRow (s.resolveInternal r)
        (some (engine.json.dump (patched engine existing doc)))) := by
  unfold updatePayload
  rw [hid]
  simp only
  unfold updatePayloadDense
  rw [halive, if_neg (by decide), hpatch]
  simp only
  unfold updateRow
  rw [hread]
  simp only
  rw [if_neg (not_not.mpr hput)]
  rfl

theorem setPayload_refused {id : PointId} {metadata : Text} {status : Status}
    (hid : lookedUp engine faults id s = .ok r) (halive : s.isAlive r = true)
    (hrefused : parseMetadataObject engine.json metadata = .error status) :
    setPayload engine faults id metadata s = (status, s) := by
  unfold setPayload
  rw [hid]
  simp only
  unfold setPayloadDense
  rw [halive, if_neg (by decide), hrefused]

theorem deletePayloadKeys_eq {id : PointId} {keys : List Text} {existing : Doc}
    (hid : lookedUp engine faults id s = .ok r)
    (hread : readDocument engine faults (s.resolveInternal r) s = .ok (some existing))
    (hobject : engine.json.isObject existing = true) (hput : faults.put = .ok) :
    deletePayloadKeys engine faults id keys s =
      (.ok, s.setRow (s.resolveInternal r)
        (some (engine.json.dump (keys.foldl engine.json.erase existing)))) := by
  unfold deletePayloadKeys
  rw [hid]
  simp only
  unfold deletePayloadKeysDense deleteKeys
  rw [hread]
  simp only
  rw [hobject, if_neg (by decide), if_neg (not_not.mpr hput)]

theorem isObject_foldl_erase (json : JsonLibrary Doc) (keys : List Text) {doc : Doc}
    (hobject : json.isObject doc = true) :
    json.isObject (keys.foldl json.erase doc) = true := by
  induction keys generalizing doc with
  | nil => exact hobject
  | cons key keys ih => exact ih (json.isObject_erase doc key hobject)

/-! Runs -/

/-- A write call, with the faults of its calls on files. -/
inductive Call (F : Type) where
  | insert (faults : Faults) (id : PointId) (vec : List F) (metadata : Text)
  | update (faults : Faults) (id : PointId) (vec : List F)
  | delete (faults : Faults) (id : PointId)
  | setPayload (faults : Faults) (id : PointId) (metadata : Text)
  | setPayloadBatch (faults : Faults) (items : List (Faults × PointId × Text))
  | updatePayload (faults : Faults) (id : PointId) (patch : Text)
  | deletePayloadKeys (faults : Faults) (id : PointId) (keys : List Text)

namespace Call

def run (engine : Engine F Doc) : Call F → Store → Status × Store
  | insert faults id vec metadata, s => PayloadWrites.insert engine faults id vec metadata s
  | update faults id vec, s => PayloadWrites.update engine faults id vec s
  | delete faults id, s => PayloadWrites.delete engine faults id s
  | setPayload faults id metadata, s => PayloadWrites.setPayload engine faults id metadata s
  | setPayloadBatch faults items, s => PayloadWrites.setPayloadBatch engine faults items s
  | updatePayload faults id patch, s => PayloadWrites.updatePayload engine faults id patch s
  | deletePayloadKeys faults id keys, s =>
      PayloadWrites.deletePayloadKeys engine faults id keys s

/-- The document that the stored row and the call make, where they make one, has a text of
64 KiB at most. -/
def Fits (engine : Engine F Doc) (s : Store) : Call F → Prop
  | updatePayload faults id patch => ∀ r doc existing, lookedUp engine faults id s = .ok r →
      s.isAlive r = true → parseMetadataObject engine.json patch = .ok doc →
      readDocument engine faults (s.resolveInternal r) s = .ok existing →
      (engine.json.dump (patched engine existing doc)).length ≤ kMaxMetadataJsonBytes
  | deletePayloadKeys faults id keys => ∀ r existing, lookedUp engine faults id s = .ok r →
      readDocument engine faults (s.resolveInternal r) s = .ok (some existing) →
      (engine.json.dump (keys.foldl engine.json.erase existing)).length ≤
        kMaxMetadataJsonBytes
  | _ => True

end Call

theorem admissible_updatePayload (hrows : s.Admissible engine.json) {id : PointId} {patch : Text}
    (hfits : (Call.updatePayload faults id patch : Call F).Fits engine s) :
    (updatePayload engine faults id patch s).2.Admissible engine.json := by
  unfold updatePayload
  split
  · exact hrows
  · rename_i r hid
    unfold updatePayloadDense
    split
    · exact hrows
    · rename_i halive
      split
      · exact hrows
      · rename_i doc hpatch
        unfold updateRow
        split
        · exact hrows
        · rename_i existing hread
          split
          · exact hrows
          · refine hrows.setRow ?_
            rintro _ ⟨⟩
            exact admissible_dump
              (engine.json.isObject_mergePatch _ _ (parseMetadataObject_eq_ok.mp hpatch).2.2)
              (hfits r doc existing hid (Bool.not_eq_false _ ▸ halive) hpatch hread)

theorem admissible_deletePayloadKeys (hrows : s.Admissible engine.json) {id : PointId}
    {keys : List Text} (hfits : (Call.deletePayloadKeys faults id keys : Call F).Fits engine s) :
    (deletePayloadKeys engine faults id keys s).2.Admissible engine.json := by
  unfold deletePayloadKeys
  split
  · exact hrows
  · rename_i r hid
    unfold deletePayloadKeysDense deleteKeys
    split
    · exact hrows
    · exact hrows
    · rename_i existing hread
      split
      · exact hrows
      · rename_i hobject
        split
        · exact hrows
        · refine hrows.setRow ?_
          rintro _ ⟨⟩
          exact admissible_dump
            (isObject_foldl_erase _ _ (Bool.not_eq_false _ ▸ hobject)) (hfits r existing hid hread)

theorem admissible_run (hrows : s.Admissible engine.json) (call : Call F)
    (hfits : call.Fits engine s) : (call.run engine s).2.Admissible engine.json := by
  cases call with
  | insert faults id vec metadata => exact admissible_insert hrows id vec metadata
  | update faults id vec => exact admissible_update hrows id vec
  | delete faults id => exact admissible_delete hrows id
  | setPayload faults id metadata => exact admissible_setPayload hrows id metadata
  | setPayloadBatch faults items => exact admissible_setPayloadBatch hrows items
  | updatePayload faults id patch => exact admissible_updatePayload hrows hfits
  | deletePayloadKeys faults id keys => exact admissible_deletePayloadKeys hrows hfits

/-- The stores that runs from `s` reach whose calls all fit. -/
inductive Runs (engine : Engine F Doc) (s : Store) : Store → Prop where
  | start : Runs engine s s
  | step {reached : Store} (hruns : Runs engine s reached) (call : Call F)
      (hfits : call.Fits engine reached) : Runs engine s (call.run engine reached).2

theorem Runs.admissible {reached : Store} (hruns : Runs engine s reached)
    (hrows : s.Admissible engine.json) : reached.Admissible engine.json := by
  induction hruns with
  | start => exact hrows
  | step _ call hfits ih => exact admissible_run ih call hfits

/-- A call that does not fit, and succeeds, leaves a row that is too long. -/
theorem not_admissible_of_not_fits {call : Call F} (hfits : ¬ call.Fits engine s)
    (hok : (call.run engine s).1 = .ok) : ¬ (call.run engine s).2.Admissible engine.json := by
  have hrow : ∀ {text : Text}, kMaxMetadataJsonBytes < text.length → ∀ i,
      ¬ (s.setRow i (some text)).Admissible engine.json := by
    intro text hlong i hrows
    exact absurd (hrows i text (rows_setRow_self ..)).1 (Nat.not_le.mpr hlong)
  cases call with
  | updatePayload faults id patch =>
      unfold Call.Fits at hfits
      push Not at hfits
      obtain ⟨r, doc, existing, hid, halive, hpatch, hread, hlong⟩ := hfits
      by_cases hput : faults.put = .ok
      · change ¬ (updatePayload engine faults id patch s).2.Admissible engine.json
        rw [updatePayload_eq hid halive hpatch hread hput]
        exact hrow hlong _
      · exfalso
        change (updatePayload engine faults id patch s).1 = .ok at hok
        unfold updatePayload at hok
        rw [hid] at hok
        simp only [updatePayloadDense, updateRow, halive, hpatch, hread, if_pos hput,
          Bool.true_eq_false, if_false] at hok
        exact hput hok
  | deletePayloadKeys faults id keys =>
      unfold Call.Fits at hfits
      push Not at hfits
      obtain ⟨r, existing, hid, hread, hlong⟩ := hfits
      change (deletePayloadKeys engine faults id keys s).1 = .ok at hok
      change ¬ (deletePayloadKeys engine faults id keys s).2.Admissible engine.json
      cases hobject : engine.json.isObject existing with
      | false =>
          exfalso
          unfold deletePayloadKeys at hok
          rw [hid] at hok
          simp only [deletePayloadKeysDense, deleteKeys, hread, hobject, if_true] at hok
          cases hok
      | true =>
          by_cases hput : faults.put = .ok
          · rw [deletePayloadKeys_eq hid hread hobject hput]
            exact hrow hlong _
          · exfalso
            unfold deletePayloadKeys at hok
            rw [hid] at hok
            simp only [deletePayloadKeysDense, deleteKeys, hread, hobject, if_pos hput,
              Bool.true_eq_false, if_false] at hok
            exact hput hok
  | _ => exact absurd trivial hfits

/-- An id has a vector. -/
def isLive (engine : Engine F Doc) (id : PointId) (s : Store) : Bool :=
  match lookedUp engine .none id s with
  | .ok r => s.isAlive r
  | .error _ => false

theorem checkId_ne_notFound (engine : Engine F Doc) (id : PointId) (text : String) :
    checkId engine id ≠ .notFound text := by
  unfold checkId
  split
  · split
    · split
      · rintro ⟨⟩
      · rintro ⟨⟩
    · rintro ⟨⟩
  · split
    · rintro ⟨⟩
    · rintro ⟨⟩

/-- An id that the store takes is found or was never written. -/
theorem lookedUp_none {id : PointId} (hid : checkId engine id = .ok) (s : Store) :
    (∃ r, lookedUp engine .none id s = .ok r) ∨
      lookedUp engine .none id s = .error (.notFound "vector not found for id") := by
  have hresolved : (∃ resolved, (resolveId engine .none id false s).1 = .ok resolved) ∨
      (resolveId engine .none id false s).1 = .error (.notFound "") := by
    unfold resolveId
    rw [if_neg (not_not.mpr hid)]
    split
    · exact .inl ⟨_, rfl⟩
    · simp only
      rw [if_neg (not_not.mpr (show Faults.none.lookupKey = .ok from rfl))]
      split
      · exact .inl ⟨_, rfl⟩
      · exact .inr rfl
  unfold lookedUp
  rcases hresolved with ⟨resolved, hfound⟩ | hmissing
  · rw [hfound]
    exact .inl ⟨resolved.1, rfl⟩
  · rw [hmissing]
    exact .inr rfl

/-- What is read is accepted for an id that has a vector, and refused only for the lack of
one. -/
theorem setPayload_getPayload {id : PointId} {text : Text} (hrows : s.Admissible engine.json)
    (hget : getPayload engine faults id s = .ok text) :
    (setPayload engine .none id text s).1 =
      if isLive engine id s then .ok else .notFound "vector not found for id" := by
  have hid : checkId engine id = .ok := by
    by_contra hinvalid
    unfold getPayload lookedUp resolveId at hget
    rw [if_pos hinvalid] at hget
    have hmissing := checkId_ne_notFound engine id
    cases hcheck : checkId engine id with
    | notFound text => exact hmissing text hcheck
    | ok => exact hinvalid hcheck
    | _ =>
        rw [hcheck] at hget
        cases hget
  have htext : PayloadWrites.Admissible engine.json text := by
    unfold getPayload at hget
    split at hget
    · cases hget
      exact admissible_emptyText _
    · cases hget
    · split at hget
      · cases hget
        rename_i r _ _ _
        cases hrow : s.rows (s.resolveInternal r) with
        | none => exact admissible_emptyText _
        | some row => exact hrows _ row hrow
      · cases hget
        exact admissible_emptyText _
      · cases hget
  obtain ⟨doc, hparsed⟩ := admissible_iff.mp htext
  unfold setPayload isLive
  rcases lookedUp_none hid s with ⟨r, hfound⟩ | hmissing
  · rw [hfound]
    simp only
    unfold setPayloadDense
    by_cases halive : s.isAlive r = true
    · rw [if_neg (by rw [halive]; decide), if_pos halive, hparsed]
      rfl
    · rw [if_pos (Bool.not_eq_true _ ▸ halive), if_neg halive]
  · rw [hmissing]
    rfl

/-- Objects with the members `a` and `b`, whose values are strings of one length. -/
inductive TwoMembers where
  | neither
  | onlyA
  | onlyB
  | both
  deriving DecidableEq

namespace TwoMembers

/-- The member whose value is `n` characters `x`. -/
def member (n : Nat) (name : UInt8) : Text :=
  [0x22, name, 0x22, 0x3A, 0x22] ++ (List.replicate n 0x78 ++ [0x22])

def dump (n : Nat) : TwoMembers → Text
  | neither => emptyText
  | onlyA => 0x7B :: (member n 0x61 ++ [0x7D])
  | onlyB => 0x7B :: (member n 0x62 ++ [0x7D])
  | both => 0x7B :: (member n 0x61 ++ 0x2C :: (member n 0x62 ++ [0x7D]))

def ofMembers (a b : Bool) : TwoMembers :=
  match a, b with
  | false, false => neither
  | true, false => onlyA
  | false, true => onlyB
  | true, true => both

def hasA : TwoMembers → Bool
  | onlyA | both => true
  | _ => false

def hasB : TwoMembers → Bool
  | onlyB | both => true
  | _ => false

def parse (n : Nat) (text : Text) : Except String TwoMembers :=
  match [neither, onlyA, onlyB, both].find? fun doc => dump n doc == text with
  | some doc => .ok doc
  | none => .error "not one of the texts"

theorem exists_parse_dump (n : Nat) (doc : TwoMembers) :
    ∃ again, parse n (dump n doc) = .ok again := by
  have hmem : doc ∈ [neither, onlyA, onlyB, both] := by cases doc <;> simp
  have hfound : ([neither, onlyA, onlyB, both].find? fun other =>
      dump n other == dump n doc).isSome := List.find?_isSome.mpr ⟨doc, hmem, by simp⟩
  obtain ⟨again, hagain⟩ := Option.isSome_iff_exists.mp hfound
  refine ⟨again, ?_⟩
  unfold parse
  rw [hagain]

def library (n : Nat) : JsonLibrary TwoMembers where
  parse := parse n
  dump := dump n
  isObject _ := true
  object := neither
  mergePatch doc patch := ofMembers (doc.hasA || patch.hasA) (doc.hasB || patch.hasB)
  erase doc key := ofMembers (doc.hasA && key != [0x61]) (doc.hasB && key != [0x62])
  parse_dump doc _ := by
    obtain ⟨again, hagain⟩ := exists_parse_dump n doc
    exact ⟨again, hagain, rfl⟩
  parse_empty := ⟨neither, rfl, rfl⟩
  isObject_object := rfl
  isObject_mergePatch _ _ _ := rfl
  isObject_erase _ _ _ := rfl

theorem length_member (n : Nat) (name : UInt8) : (member n name).length = n + 6 := by
  unfold member
  rw [List.length_append, List.length_append, List.length_replicate]
  change 5 + (n + 1) = n + 6
  omega

variable {n : Nat}

theorem length_onlyA : (dump n onlyA).length = n + 8 := by
  change (0x7B :: (member n 0x61 ++ [0x7D])).length = n + 8
  rw [List.length_cons, List.length_append, length_member]
  rfl

theorem length_onlyB : (dump n onlyB).length = n + 8 := by
  change (0x7B :: (member n 0x62 ++ [0x7D])).length = n + 8
  rw [List.length_cons, List.length_append, length_member]
  rfl

theorem length_both : (dump n both).length = 2 * n + 15 := by
  change (0x7B :: (member n 0x61 ++ 0x2C :: (member n 0x62 ++ [0x7D]))).length = 2 * n + 15
  rw [List.length_cons, List.length_append, List.length_cons, List.length_append,
    length_member, length_member, List.length_singleton]
  omega

theorem dump_onlyA_ne : dump n onlyA ≠ dump n neither := by
  intro hsame
  have hlength : (dump n onlyA).length = (dump n neither).length := by rw [hsame]
  rw [length_onlyA] at hlength
  change n + 8 = 2 at hlength
  omega

theorem parse_onlyA : parse n (dump n onlyA) = .ok onlyA := by
  unfold parse
  rw [List.find?_cons_of_neg (by simpa using dump_onlyA_ne.symm),
    List.find?_cons_of_pos (by simp)]

theorem parse_onlyB : parse n (dump n onlyB) = .ok onlyB := by
  have hneither : dump n neither ≠ dump n onlyB := by
    intro hsame
    have hlength : (dump n neither).length = (dump n onlyB).length := by rw [hsame]
    rw [length_onlyB] at hlength
    change 2 = n + 8 at hlength
    omega
  have honlyA : dump n onlyA ≠ dump n onlyB := by
    intro hsame
    have hname := congrArg (fun text : Text => text[2]?) hsame
    cases hname
  unfold parse
  rw [List.find?_cons_of_neg (by simpa using hneither),
    List.find?_cons_of_neg (by simpa using honlyA), List.find?_cons_of_pos (by simp)]

end TwoMembers

open TwoMembers

/-- One dimension, in which every vector is stored as zeros. -/
def tinyEngine (n : Nat) : Engine Nat TwoMembers where
  cfg := ⟨1, 4, 4, Nat.one_pos, PagedVectorStorage.oneDim_fits⟩
  metricSupported := true
  keyed := false
  json := library n
  encodeRecord _ := List.replicate 9 0
  encodingTag := 1
  length_encodeRecord _ _ := rfl

def emptyStore : Store where
  keyIds _ := none
  nextDenseId := 0
  located _ := false
  tombstoned _ := false
  updated _ := none
  nextUpdateId := IdTypes.kFirstUpdateId
  rows _ := none
  log := none
  segments := []

/-- The vector 1, the member `a`, and then the member `b`. -/
def oneVector (n : Nat) : Store :=
  (insert (tinyEngine n) .none (.int 1) [0] [] emptyStore).2

def oneMember (n : Nat) : Status × Store :=
  updatePayload (tinyEngine n) .none (.int 1) (dump n onlyA) (oneVector n)

def twoMembers (n : Nat) : Status × Store :=
  updatePayload (tinyEngine n) .none (.int 1) (dump n onlyB) (oneMember n).2

theorem lookedUp_one (n : Nat) (s : Store) :
    lookedUp (tinyEngine n) .none (.int 1) s = .ok 1 := rfl

/-- A member is taken as it is. -/
theorem oneMember_eq {n : Nat} (hn : n + 8 ≤ kMaxMetadataJsonBytes) :
    oneMember n = (.ok, (emptyStore.storeVector 1).setRow 1 (some (dump n onlyA))) := by
  have hpatch : parseMetadataObject (tinyEngine n).json (dump n onlyA) = .ok onlyA :=
    parseMetadataObject_eq_ok.mpr ⟨length_onlyA.trans_le hn, parse_onlyA, rfl⟩
  exact updatePayload_eq (lookedUp_one n _) rfl hpatch (show readDocument _ _ _ _ = .ok none from rfl) rfl

/-- The second member is added to the first. -/
theorem twoMembers_eq {n : Nat} (hn : n + 8 ≤ kMaxMetadataJsonBytes) :
    twoMembers n = (.ok, ((emptyStore.storeVector 1).setRow 1 (some (dump n onlyA))).setRow 1
      (some (dump n both))) := by
  have hpatch : parseMetadataObject (tinyEngine n).json (dump n onlyB) = .ok onlyB :=
    parseMetadataObject_eq_ok.mpr ⟨length_onlyB.trans_le hn, parse_onlyB, rfl⟩
  have hread : readDocument (tinyEngine n) .none 1
      ((emptyStore.storeVector 1).setRow 1 (some (dump n onlyA))) = .ok (some onlyA) :=
    readDocument_of_row rfl (rows_setRow_self ..) parse_onlyA
  unfold twoMembers
  rw [oneMember_eq hn]
  exact updatePayload_eq (s := (emptyStore.storeVector 1).setRow 1 (some (dump n onlyA)))
    (lookedUp_one n _) rfl hpatch hread rfl

theorem getPayload_twoMembers {n : Nat} (hn : n + 8 ≤ kMaxMetadataJsonBytes) :
    getPayload (tinyEngine n) .none (.int 1) (twoMembers n).2 = .ok (dump n both) := by
  rw [twoMembers_eq hn]
  change Except.ok ((Store.rows (Store.setRow _ 1 (some (dump n both))) 1).getD emptyText) = _
  rw [rows_setRow_self]
  rfl

end AsterVec.PayloadWrites

import AsterVec.DenseContents
import AsterVec.LoggedPrograms

/-!
What the log has of one id.  The records lead from the slice of the checkpoint to the
versions of today.  The payload rows are ahead of it: a row stays until its version is
replaced, and the replay fills no row that a later version has.
-/

namespace AsterVec.Dense

open AsterVec.IdTypes
open AsterVec.OpLog (OpType)

variable {V Row : Type} {r i : Nat}

namespace Slice

/-- The versions and the vectors alone. -/
def bare (s : Slice V Row) : Slice V Row :=
  { s with owned := fun _ => false, rows := fun _ => none }

/-- A new update id for the slice. -/
structure Fresh (s : Slice V Row) (n : Nat) : Prop where
  update : 2 ^ 63 ≤ n
  vector : s.vectors n = none
  live : s.tombstoned n = false

/-- The versions of an id that no call writes. -/
structure Tidy (r : Nat) (s : Slice V Row) : Prop where
  mapped : ∀ m, s.mapping = some m →
    2 ^ 63 ≤ m ∧ s.tombstoned r = true ∧ (s.vectors m).isSome = true ∧ s.tombstoned m = false
  replaced : ∀ i, i ≠ s.current r → (s.vectors i).isSome = true → s.tombstoned i = true
  located : ∀ i, s.tombstoned i = true → (s.vectors i).isSome = true

theorem Idle.tidy {s : Slice V Row} (hinv : s.Inv r) (hidle : s.Idle r) : s.bare.Tidy r := by
  refine ⟨fun m hm => ?_, hidle.replaced, hinv.located⟩
  obtain ⟨howned, hne, -⟩ := hinv.mapped m hm
  exact ⟨hinv.owned_update m howned hne, hidle.mapped m hm⟩

/-- What an id has when its current version has this row. -/
def docWith (s : Slice V Row) (r : Nat) (row : Option Row) : Doc V Row :=
  bif s.tombstoned (s.current r) then none
  else (s.vectors (s.current r)).map fun vector => (vector, row)

theorem docWith_rows (s : Slice V Row) (r : Nat) :
    s.docWith r (s.rows (s.current r)) = s.doc r := rfl

variable {s : Slice V Row}

theorem Alive.docWith (halive : s.Alive r) {vector : V}
    (hvector : s.vectors (s.current r) = some vector) (row : Option Row) :
    s.docWith r row = some (vector, row) := by
  unfold Slice.docWith
  rw [halive.1, hvector]
  rfl

theorem docWith_of_dead (hdead : ¬s.Alive r) (row : Option Row) : s.docWith r row = none := by
  unfold docWith
  cases htomb : s.tombstoned (s.current r) with
  | true => rfl
  | false =>
      cases hvector : s.vectors (s.current r) with
      | none => rfl
      | some vector => exact absurd ⟨htomb, by rw [hvector]; rfl⟩ hdead

theorem Alive.row_docWith (halive : s.Alive r) (row : Option Row) :
    (s.docWith r row).bind Prod.snd = row := by
  obtain ⟨vector, hvector⟩ := Option.isSome_iff_exists.mp halive.2
  rw [halive.docWith hvector]
  rfl

theorem Fresh.ne_of_vector {n j : Nat} (hnew : s.Fresh n) (hj : (s.vectors j).isSome = true) :
    j ≠ n := by
  rintro rfl
  rw [hnew.vector] at hj
  cases hj

/-- The current version of an id whose direct version is dead is dead, unless it is mapped. -/
theorem Tidy.dead_of_unmapped (hmap : s.mapping = none)
    (htomb : s.tombstoned r = true) : ¬s.Alive r := by
  rintro ⟨hlive, -⟩
  rw [current_of_unmapped hmap, htomb] at hlive
  cases hlive

/-- Of a dead current version, the direct one is dead too. -/
theorem Tidy.tombstoned_direct (htidy : s.Tidy r) :
    (s.tombstone (s.current r)).tombstoned r = true := by
  change Function.update s.tombstoned (s.current r) true r = true
  rw [Function.update_apply]
  split
  · rfl
  · rename_i hne
    cases hmap : s.mapping with
    | none => exact absurd (current_of_unmapped hmap).symm hne
    | some m => exact (htidy.mapped m hmap).2.1

end Slice

namespace LogRecord

/-- What the replay of a record does to the versions of its id. -/
def onSlice (record : LogRecord V Row) (s : Slice V Row) : Slice V Row :=
  match record.op, record.vector with
  | .kInsert, some vector =>
      (bif isDirectId record.internalId then s
        else s.record record.realId record.internalId).store record.internalId vector
  | .kUpdate, some vector =>
      ((s.store record.internalId vector).record record.realId record.internalId).tombstone
        record.aux
  | .kDelete, _ => (s.tombstone record.internalId).forget
  | _, _ => s

/-- What the logged call makes of its id. -/
def onDoc (record : LogRecord V Row) (doc : Doc V Row) : Doc V Row :=
  match record.op with
  | .kInsert | .kUpdate =>
      record.vector.map fun vector => (vector, record.payload.or (doc.bind Prod.snd))
  | .kDelete => none
  | _ => doc

/-- The records that calls log for an id with these versions. -/
inductive Fits (r : Nat) (s : Slice V Row) : LogRecord V Row → Prop
  | insert (vector : V) (payload : Option Row) (hr : r < 2 ^ 63) (hmap : s.mapping = none)
      (hlive : s.tombstoned r = false) (hnone : s.vectors r = none) :
      Fits r s ⟨.kInsert, r, r, 0, some vector, payload⟩
  | reinsert (n : Nat) (vector : V) (payload : Option Row) (hmap : s.mapping = none)
      (htomb : s.tombstoned r = true) (hnew : s.Fresh n) :
      Fits r s ⟨.kInsert, r, n, 0, some vector, payload⟩
  | update (n : Nat) (vector : V) (payload : Option Row) (halive : s.Alive r)
      (hnew : s.Fresh n) : Fits r s ⟨.kUpdate, r, n, s.current r, some vector, payload⟩
  | delete (hvector : (s.vectors (s.current r)).isSome = true) :
      Fits r s ⟨.kDelete, r, s.current r, 0, none, none⟩

end LogRecord

/-- The versions that the records lead to. -/
def replayed (saved : Slice V Row) (records : List (LogRecord V Row)) : Slice V Row :=
  records.foldl (fun s record => record.onSlice s) saved

theorem replayed_append (saved : Slice V Row) (records later : List (LogRecord V Row)) :
    replayed saved (records ++ later) = replayed (replayed saved records) later :=
  List.foldl_append

/-- Each record is that of a call on the versions the ones before it lead to. -/
def Legal (r : Nat) : Slice V Row → List (LogRecord V Row) → Prop
  | _, [] => True
  | s, record :: records => record.Fits r s ∧ Legal r (record.onSlice s) records

theorem legal_append {s : Slice V Row} {records later : List (LogRecord V Row)} :
    Legal r s (records ++ later) ↔ Legal r s records ∧ Legal r (replayed s records) later := by
  induction records generalizing s with
  | nil => exact ⟨fun h => ⟨trivial, h⟩, fun h => h.2⟩
  | cons record records ih =>
      change _ ∧ Legal r (record.onSlice s) (records ++ later) ↔
        (_ ∧ Legal r (record.onSlice s) records) ∧ _
      rw [ih, and_assoc]
      rfl

namespace LogRecord

variable {s : Slice V Row} {record : LogRecord V Row}

theorem onSlice_insert (hr : r < 2 ^ 63) (vector : V) (payload : Option Row) :
    (⟨.kInsert, r, r, 0, some vector, payload⟩ : LogRecord V Row).onSlice s =
      s.store r vector := by
  have hdirect : isDirectId r = true := (isDirectId_iff r).mpr hr
  unfold onSlice
  simp only [hdirect, cond_true]

theorem onSlice_reinsert {n : Nat} (hn : 2 ^ 63 ≤ n) (vector : V) (payload : Option Row) :
    (⟨.kInsert, r, n, 0, some vector, payload⟩ : LogRecord V Row).onSlice s =
      (s.record r n).store n vector := by
  have hupdate : isDirectId n = false := (isDirectId_eq_false_iff n).mpr hn
  unfold onSlice
  simp only [hupdate, cond_false]

/-- Nothing comes back to life, and no vector is lost. -/
theorem Fits.grows (hfits : record.Fits r s) (i : Nat) :
    (s.tombstoned i = true → (record.onSlice s).tombstoned i = true) ∧
      ((s.vectors i).isSome = true → ((record.onSlice s).vectors i).isSome = true) := by
  have hstore : ∀ (t : Slice V Row) (n : Nat) (vector : V), (t.vectors i).isSome = true →
      ((t.store n vector).vectors i).isSome = true := by
    intro t n vector hi
    change (Function.update t.vectors n (some vector) i).isSome = true
    rcases eq_or_ne i n with rfl | hne
    · rw [Function.update_self]
      rfl
    · rw [Function.update_of_ne hne]
      exact hi
  have hdead : ∀ (t : Slice V Row) (n : Nat), t.tombstoned i = true →
      (t.tombstone n).tombstoned i = true := by
    intro t n hi
    change Function.update t.tombstoned n true i = true
    rw [Function.update_apply, hi, ite_self]
  cases hfits with
  | insert vector payload hr =>
      rw [onSlice_insert hr]
      exact ⟨fun hi => hi, hstore s r vector⟩
  | reinsert n vector payload _ _ hnew =>
      rw [onSlice_reinsert hnew.update]
      exact ⟨fun hi => hi, hstore _ n vector⟩
  | update n vector => exact ⟨fun hi => hdead s _ hi, fun hi => hstore s n vector hi⟩
  | delete => exact ⟨fun hi => hdead s _ hi, fun hi => hi⟩

theorem Fits.tidy (hfits : record.Fits r s) (htidy : s.Tidy r) : (record.onSlice s).Tidy r := by
  cases hfits with
  | insert vector payload hr hmap hlive hnone =>
      rw [onSlice_insert hr]
      have hcurrent : s.current r = r := Slice.current_of_unmapped hmap
      refine ⟨fun m hm => ?_, fun i hne hi => ?_, fun i hi => ?_⟩
      · rw [show s.mapping = some m from hm] at hmap
        cases hmap
      · change i ≠ s.current r at hne
        change (Function.update s.vectors r (some vector) i).isSome = true at hi
        rw [hcurrent] at hne
        rw [Function.update_of_ne hne] at hi
        exact htidy.replaced i (by rwa [hcurrent]) hi
      · have hold := htidy.located i hi
        change (Function.update s.vectors r (some vector) i).isSome = true
        have hne : i ≠ r := by
          rintro rfl
          rw [hnone] at hold
          cases hold
        rw [Function.update_of_ne hne]
        exact hold
  | reinsert n vector payload hmap htomb hnew =>
      rw [onSlice_reinsert hnew.update]
      have hcurrent : s.current r = r := Slice.current_of_unmapped hmap
      have hvectors : ∀ i, i ≠ n → ((s.record r n).store n vector).vectors i = s.vectors i :=
        fun i hne => Function.update_of_ne hne _ _
      refine ⟨fun m hm => ?_, fun i hne hi => ?_, fun i hi => ?_⟩
      · cases hm
        refine ⟨hnew.update, htomb, ?_, hnew.live⟩
        change (Function.update s.vectors n (some vector) n).isSome = true
        rw [Function.update_self]
        rfl
      · change i ≠ n at hne
        rw [hvectors i hne] at hi
        rcases eq_or_ne i r with rfl | hir
        · exact htomb
        · exact htidy.replaced i (by rwa [hcurrent]) hi
      · have hold := htidy.located i hi
        rw [hvectors i (hnew.ne_of_vector hold)]
        exact hold
  | update n vector payload halive hnew =>
      have hnc := hnew.ne_of_vector halive.2
      refine ⟨fun m hm => ?_, fun i hne hi => ?_, fun i hi => ?_⟩
      · cases hm
        refine ⟨hnew.update, htidy.tombstoned_direct, ?_, ?_⟩
        · change (Function.update s.vectors n (some vector) n).isSome = true
          rw [Function.update_self]
          rfl
        · exact (Function.update_of_ne hnc.symm _ _).trans hnew.live
      · change i ≠ n at hne
        change (Function.update s.vectors n (some vector) i).isSome = true at hi
        change Function.update s.tombstoned (s.current r) true i = true
        rw [Function.update_of_ne hne] at hi
        rw [Function.update_apply]
        split
        · rfl
        · rename_i hic
          exact htidy.replaced i hic hi
      · change Function.update s.tombstoned (s.current r) true i = true at hi
        change (Function.update s.vectors n (some vector) i).isSome = true
        have hold : (s.vectors i).isSome = true := by
          rw [Function.update_apply] at hi
          split at hi
          · rename_i hic
            rw [hic]
            exact halive.2
          · exact htidy.located i hi
        rw [Function.update_of_ne (hnew.ne_of_vector hold)]
        exact hold
  | delete hvector =>
      refine ⟨by rintro m ⟨⟩, fun i hne hi => ?_, fun i hi => ?_⟩
      · change Function.update s.tombstoned (s.current r) true i = true
        rw [Function.update_apply]
        split
        · rfl
        · rename_i hic
          exact htidy.replaced i hic hi
      · change Function.update s.tombstoned (s.current r) true i = true at hi
        rw [Function.update_apply] at hi
        split at hi
        · rename_i hic
          rw [hic]
          exact hvector
        · exact htidy.located i hi

end LogRecord

theorem Legal.grows {s : Slice V Row} {records : List (LogRecord V Row)}
    (hlegal : Legal r s records) (i : Nat) :
    (s.tombstoned i = true → (replayed s records).tombstoned i = true) ∧
      ((s.vectors i).isSome = true → ((replayed s records).vectors i).isSome = true) := by
  induction records generalizing s with
  | nil => exact ⟨id, id⟩
  | cons record records ih =>
      obtain ⟨hfits, hlegal⟩ := hlegal
      obtain ⟨hdead, hvector⟩ := hfits.grows i
      obtain ⟨hdeads, hvectors⟩ := ih hlegal
      exact ⟨fun hi => hdeads (hdead hi), fun hi => hvectors (hvector hi)⟩

theorem Legal.tidy {s : Slice V Row} {records : List (LogRecord V Row)}
    (hlegal : Legal r s records) (htidy : s.Tidy r) : (replayed s records).Tidy r := by
  induction records generalizing s with
  | nil => exact htidy
  | cons record records ih => exact ih hlegal.2 (hlegal.1.tidy htidy)

/-! The rows -/

namespace LogRecord

/-- The record says nothing that is not known of the rows: `had` are the versions that had
one. -/
structure Told (goal : Slice V Row) (had : Nat → Prop) (record : LogRecord V Row) : Prop where
  payload : record.Inserts → record.payload.isSome = true → had record.internalId
  moved : record.op = .kUpdate → had record.aux → had record.internalId
  replaced : record.op = .kUpdate → goal.tombstoned record.aux = true
  deleted : record.op = .kDelete → goal.tombstoned record.internalId = true

/-- What the replay puts where it finds no row. -/
def fill (record : LogRecord V Row) (rows : Nat → Option Row) : Option Row :=
  record.payload.or (if record.op = .kUpdate then rows record.aux else none)

end LogRecord

/-- The rows after the calls of the records, of which the current version has `row`.  A row
that is not there yet can be there under an older version, and one that is gone may come
back there; but neither under a version that has, or had, none. -/
structure Rowed (r : Nat) (saved : Slice V Row) (records : List (LogRecord V Row))
    (had : Nat → Prop) (row : Option Row) (rows : Nat → Option Row) : Prop where
  current : (replayed saved records).Alive r →
    rows ((replayed saved records).current r) = row
  known : ∀ i, (rows i).isSome = true → had i
  last : (replayed saved records).Alive r → had ((replayed saved records).current r) →
    row.isSome = true
  live : ∀ i, (rows i).isSome = true → saved.tombstoned i = false
  stored : ∀ i, had i → ((replayed saved records).vectors i).isSome = true
  told : ∀ record ∈ records, record.Told (replayed saved records) had

/-- The checkpoint, the log and the rows have the document of the id. -/
def Committed (r : Nat) (saved : Slice V Row) (records : List (LogRecord V Row))
    (rows : Nat → Option Row) (doc : Doc V Row) : Prop :=
  ∃ had row, Rowed r saved records had row rows ∧
    doc = (replayed saved records).docWith r row

/-- The same, but of the call that logged the last record nothing may be in the rows. -/
def Recoverable (r : Nat) (saved : Slice V Row) (records : List (LogRecord V Row))
    (rows : Nat → Option Row) (doc : Doc V Row) : Prop :=
  Committed r saved records rows doc ∨
    ∃ older record before, records = older ++ [record] ∧
      Committed r saved older rows before ∧ record.Fits r (replayed saved older) ∧
      doc = record.onDoc before

section Rows

variable {saved : Slice V Row} {records older done rest : List (LogRecord V Row)}
  {record : LogRecord V Row} {rows : Nat → Option Row} {doc before : Doc V Row}
  {s : Slice V Row}

theorem committed_nil {s : Slice V Row} (hidle : s.Idle r) :
    Committed r s.bare [] s.rows (s.doc r) := by
  refine ⟨fun i => (s.rows i).isSome = true, s.rows (s.current r),
    ⟨fun _ => rfl, fun _ hi => hi, fun _ hhad => hhad, fun i hi => ?_, fun i hi => ?_,
      List.forall_mem_nil _⟩, rfl⟩
  · obtain ⟨rfl, halive⟩ := hidle.rows i hi
    exact halive.1
  · obtain ⟨rfl, halive⟩ := hidle.rows i hi
    exact halive.2

/-- The vectors the records lead to are those of the checkpoint and those of the records. -/
theorem replayed_vectors (hi : ((replayed saved records).vectors i).isSome = true) :
    (saved.vectors i).isSome = true ∨
      ∃ record ∈ records, record.Inserts ∧ record.internalId = i := by
  induction records generalizing saved with
  | nil => exact .inl hi
  | cons record records ih =>
      rcases ih hi with hold | ⟨later, hlater, hrest⟩
      · have hone : ∀ {t : Slice V Row} {n : Nat} {vector : V},
            t.vectors = saved.vectors → ((t.store n vector).vectors i).isSome = true →
            (saved.vectors i).isSome = true ∨ n = i := by
          intro t n vector hsame hstored
          rcases eq_or_ne n i with heq | hne
          · exact .inr heq
          · change (Function.update t.vectors n (some vector) i).isSome = true at hstored
            rw [Function.update_of_ne hne.symm, hsame] at hstored
            exact .inl hstored
        change ((record.onSlice saved).vectors i).isSome = true at hold
        unfold LogRecord.onSlice at hold
        split at hold
        · rename_i vector hop _
          refine (hone ?_ hold).imp_right fun hn =>
            ⟨record, List.mem_cons_self, .inl hop, hn⟩
          cases isDirectId record.internalId <;> rfl
        · rename_i vector hop _
          refine (hone rfl hold).imp_right fun hn =>
            ⟨record, List.mem_cons_self, .inr hop, hn⟩
        · exact .inl hold
        · exact .inl hold
      · exact .inr ⟨later, List.mem_cons_of_mem _ hlater, hrest⟩

theorem Recoverable.live (hrecoverable : Recoverable r saved records rows doc)
    (hi : (rows i).isSome = true) : saved.tombstoned i = false := by
  rcases hrecoverable with ⟨had, row, hrowed, -⟩ | ⟨older, last, before, -, hcommitted, -⟩
  · exact hrowed.live i hi
  · obtain ⟨had, row, hrowed, -⟩ := hcommitted
    exact hrowed.live i hi

theorem Recoverable.stored (hrecoverable : Recoverable r saved records rows doc)
    (hi : (rows i).isSome = true) : ((replayed saved records).vectors i).isSome = true := by
  rcases hrecoverable with ⟨had, row, hrowed, -⟩ | ⟨older, last, before, rfl, hcommitted, hfits, -⟩
  · exact hrowed.stored i (hrowed.known i hi)
  · obtain ⟨had, row, hrowed, -⟩ := hcommitted
    rw [replayed_append]
    exact (hfits.grows i).2 (hrowed.stored i (hrowed.known i hi))

theorem Recoverable.of_nil (hrecoverable : Recoverable r saved [] rows doc) :
    Committed r saved [] rows doc := by
  rcases hrecoverable with hcommitted | ⟨older, last, -, hnil, -⟩
  · exact hcommitted
  · exact absurd hnil.symm (by simp)

theorem LogRecord.Told.grows {goal : Slice V Row} {had had' : Nat → Prop}
    (htold : record.Told goal had) {later : LogRecord V Row} (hlater : later.Fits r goal)
    (hhad : ∀ i, had i → had' i) (hsame : ∀ i, goal.tombstoned i = true → had' i → had i) :
    record.Told (later.onSlice goal) had' := by
  refine ⟨fun hop hpayload => hhad _ (htold.payload hop hpayload), fun hop haux => ?_,
    fun hop => (hlater.grows _).1 (htold.replaced hop),
    fun hop => (hlater.grows _).1 (htold.deleted hop)⟩
  exact hhad _ (htold.moved hop (hsame _ (htold.replaced hop) haux))

theorem Committed.tell (hcommitted : Committed r saved records rows doc)
    (hrecord : record ∈ records) : ∃ had row, Rowed r saved records had row rows ∧
      doc = (replayed saved records).docWith r row ∧
      record.Told (replayed saved records) had := by
  obtain ⟨had, row, hrowed, hdoc⟩ := hcommitted
  exact ⟨had, row, hrowed, hdoc, hrowed.told record hrecord⟩

/-- The row of a dead version goes. -/
theorem Committed.drop (hcommitted : Committed r saved records rows doc)
    (hdead : (replayed saved records).tombstoned i = true) :
    Committed r saved records (Function.update rows i none) doc := by
  obtain ⟨had, row, hrowed, hdoc⟩ := hcommitted
  have hsub : ∀ j, (Function.update rows i none j).isSome = true → (rows j).isSome = true := by
    intro j hj
    rcases eq_or_ne j i with rfl | hne
    · rw [Function.update_self] at hj
      cases hj
    · rwa [Function.update_of_ne hne] at hj
  refine ⟨had, row, ⟨fun halive => ?_, fun j hj => hrowed.known j (hsub j hj), hrowed.last,
    fun j hj => hrowed.live j (hsub j hj), hrowed.stored, hrowed.told⟩, hdoc⟩
  have hne : (replayed saved records).current r ≠ i := by
    rintro rfl
    rw [halive.1] at hdead
    cases hdead
  rw [Function.update_of_ne hne]
  exact hrowed.current halive

/-- A payload call writes the row of the current version. -/
theorem Committed.put (hcommitted : Committed r saved records rows doc)
    (hlegal : Legal r saved records) (halive : (replayed saved records).Alive r) (value : Row) :
    Committed r saved records
      (Function.update rows ((replayed saved records).current r) (some value))
      (doc.map (Prod.map id fun _ => some value)) := by
  obtain ⟨had, row, hrowed, rfl⟩ := hcommitted
  obtain ⟨vector, hvector⟩ := Option.isSome_iff_exists.mp halive.2
  refine ⟨fun j => had j ∨ j = (replayed saved records).current r, some value,
    ⟨fun _ => Function.update_self _ _ _, fun j hj => ?_, fun _ _ => rfl, fun j hj => ?_,
      fun j hj => ?_, fun record hrecord => ?_⟩, ?_⟩
  · rcases eq_or_ne j ((replayed saved records).current r) with rfl | hne
    · exact .inr rfl
    · rw [Function.update_of_ne hne] at hj
      exact .inl (hrowed.known j hj)
  · rcases eq_or_ne j ((replayed saved records).current r) with rfl | hne
    · cases hdead : saved.tombstoned ((replayed saved records).current r) with
      | false => rfl
      | true =>
          have hlater := (hlegal.grows _).1 hdead
          rw [halive.1] at hlater
          cases hlater
    · rw [Function.update_of_ne hne] at hj
      exact hrowed.live j hj
  · rcases hj with hj | rfl
    · exact hrowed.stored j hj
    · exact halive.2
  · have htold := hrowed.told record hrecord
    refine ⟨fun hop hpayload => .inl (htold.payload hop hpayload), fun hop haux => .inl ?_,
      htold.replaced, htold.deleted⟩
    rcases haux with haux | haux
    · exact htold.moved hop haux
    · have hdead := htold.replaced hop
      rw [haux, halive.1] at hdead
      cases hdead
  · rw [halive.docWith hvector, halive.docWith hvector]
    rfl

/-- The replay fills in a row that a later version had, and never one of today's. -/
theorem Committed.refill (hcommitted : Committed r saved records rows doc)
    (hrecord : record ∈ records) (hinserts : record.Inserts)
    (hnone : rows record.internalId = none)
    (hlive : saved.tombstoned record.internalId = false) :
    Committed r saved records (Function.update rows record.internalId (record.fill rows))
      doc := by
  obtain ⟨had, row, hrowed, hdoc, htold⟩ := hcommitted.tell hrecord
  have hfill : (record.fill rows).isSome = true → had record.internalId := by
    intro hsome
    unfold LogRecord.fill at hsome
    cases hpayload : record.payload with
    | some value => exact htold.payload hinserts (by rw [hpayload]; rfl)
    | none =>
        rw [hpayload, Option.none_or] at hsome
        split at hsome
        · rename_i hop
          exact htold.moved hop (hrowed.known _ hsome)
        · cases hsome
  refine ⟨had, row, ⟨fun halive => ?_, fun j hj => ?_, hrowed.last, fun j hj => ?_,
    hrowed.stored, hrowed.told⟩, hdoc⟩
  · have hcurrent := hrowed.current halive
    by_cases heq : (replayed saved records).current r = record.internalId
    · rw [heq, Function.update_self]
      rw [heq, hnone] at hcurrent
      cases hsome : record.fill rows with
      | none => exact hcurrent
      | some value =>
          have hlast := hrowed.last halive (heq ▸ hfill (by rw [hsome]; rfl))
          rw [← hcurrent] at hlast
          cases hlast
    · rw [Function.update_of_ne heq]
      exact hcurrent
  · rcases eq_or_ne j record.internalId with rfl | hne
    · rw [Function.update_self] at hj
      exact hfill hj
    · rw [Function.update_of_ne hne] at hj
      exact hrowed.known j hj
  · rcases eq_or_ne j record.internalId with rfl | hne
    · exact hlive
    · rw [Function.update_of_ne hne] at hj
      exact hrowed.live j hj

theorem LogRecord.Fits.inserts_or (hfits : record.Fits r s) :
    record.Inserts ∨ record.op = .kDelete := by
  cases hfits with
  | insert | reinsert => exact .inl (.inl rfl)
  | update => exact .inl (.inr rfl)
  | delete => exact .inr rfl

theorem LogRecord.Fits.vector (hfits : record.Fits r s) (hinserts : record.Inserts) :
    ∃ vector, record.vector = some vector := by
  cases hfits with
  | insert vector | reinsert _ vector | update _ vector => exact ⟨vector, rfl⟩
  | delete => rcases hinserts with ⟨⟨⟩⟩ | ⟨⟨⟩⟩

/-- What an insert or an update makes of the versions. -/
structure LogRecord.Inserted (r : Nat) (s : Slice V Row) (record : LogRecord V Row) :
    Prop where
  vector : s.vectors record.internalId = none
  live : s.tombstoned record.internalId = false
  alive : (record.onSlice s).Alive r
  current : (record.onSlice s).current r = record.internalId
  before : ∀ row, (s.docWith r row).bind Prod.snd =
    if record.op = .kUpdate then row else none
  after : ∀ row, record.onDoc (s.docWith r row) = (record.onSlice s).docWith r
    (record.payload.or (if record.op = .kUpdate then row else none))
  old : record.op = .kUpdate → s.Alive r ∧ record.aux = s.current r ∧
    (record.onSlice s).tombstoned record.aux = true

theorem LogRecord.Fits.inserted (hfits : record.Fits r s) (hinserts : record.Inserts) :
    record.Inserted r s := by
  cases hfits with
  | insert vector payload hr hmap hlive hnone =>
      have hcurrent : s.current r = r := Slice.current_of_unmapped hmap
      have hvector : (s.store r vector).vectors r = some vector := Function.update_self _ _ _
      have hdead : ¬s.Alive r := by
        rintro ⟨-, hsome⟩
        rw [hcurrent, hnone] at hsome
        cases hsome
      have hvector' : (s.store r vector).vectors ((s.store r vector).current r) =
          some vector := (congrArg (s.store r vector).vectors hcurrent).trans hvector
      have halive : (s.store r vector).Alive r := by
        refine ⟨?_, by rw [hvector']; rfl⟩
        change s.tombstoned (s.current r) = false
        rw [hcurrent]
        exact hlive
      have hslice := LogRecord.onSlice_insert (s := s) hr vector payload
      refine ⟨hnone, hlive, hslice ▸ halive, hslice ▸ hcurrent, fun row => ?_, fun row => ?_,
        by rintro ⟨⟩⟩
      · rw [Slice.docWith_of_dead hdead]
        rfl
      · rw [Slice.docWith_of_dead hdead, hslice, halive.docWith hvector']
        rfl
  | reinsert n vector payload hmap htomb hnew =>
      have hvector : ((s.record r n).store n vector).vectors n = some vector :=
        Function.update_self _ _ _
      have hdead := Slice.Tidy.dead_of_unmapped hmap htomb
      have halive : ((s.record r n).store n vector).Alive r :=
        ⟨hnew.live, (congrArg Option.isSome hvector).trans rfl⟩
      have hslice := LogRecord.onSlice_reinsert (s := s) (r := r) hnew.update vector payload
      refine ⟨hnew.vector, hnew.live, hslice ▸ halive, hslice ▸ rfl, fun row => ?_,
        fun row => ?_, by rintro ⟨⟩⟩
      · rw [Slice.docWith_of_dead hdead]
        rfl
      · rw [Slice.docWith_of_dead hdead, hslice, halive.docWith hvector]
        rfl
  | update n vector payload halive hnew =>
      have hnc := hnew.ne_of_vector halive.2
      have hvector : Function.update s.vectors n (some vector) n = some vector :=
        Function.update_self _ _ _
      have halive' : (((s.store n vector).record r n).tombstone (s.current r)).Alive r :=
        ⟨(Function.update_of_ne hnc.symm _ _).trans hnew.live,
          (congrArg Option.isSome hvector).trans rfl⟩
      refine ⟨hnew.vector, hnew.live, halive', rfl, fun row => ?_, fun row => ?_,
        fun _ => ⟨halive, rfl, Function.update_self _ _ _⟩⟩
      · rw [halive.row_docWith]
        rfl
      · refine Eq.trans ?_ (halive'.docWith hvector _).symm
        change some (vector, payload.or ((s.docWith r row).bind Prod.snd)) = _
        rw [halive.row_docWith]
        rfl
  | delete => rcases hinserts with ⟨⟨⟩⟩ | ⟨⟨⟩⟩

theorem replayed_snoc (saved : Slice V Row) (older : List (LogRecord V Row))
    (record : LogRecord V Row) :
    replayed saved (older ++ [record]) = record.onSlice (replayed saved older) := by
  rw [replayed_append]
  rfl

/-- The call that logged an insert or an update puts the row. -/
theorem Committed.place (hcommitted : Committed r saved older rows before)
    (hlegal : Legal r saved older) (hfits : record.Fits r (replayed saved older))
    (hinserts : record.Inserts) :
    Committed r saved (older ++ [record])
      (Function.update rows record.internalId (record.payload.or (before.bind Prod.snd)))
      (record.onDoc before) := by
  obtain ⟨had, row, hrowed, rfl⟩ := hcommitted
  have hgoal := replayed_snoc saved older record
  have hnew := hfits.inserted hinserts
  have hunknown : ¬had record.internalId := by
    intro hhad
    have hstored := hrowed.stored _ hhad
    rw [hnew.vector] at hstored
    cases hstored
  rw [hnew.before row]
  refine ⟨fun j => had j ∨ j = record.internalId ∧
      (record.payload.or (if record.op = .kUpdate then row else none)).isSome = true,
    record.payload.or (if record.op = .kUpdate then row else none),
    ⟨fun _ => ?_, fun j hj => ?_, fun _ hj => ?_, fun j hj => ?_, fun j hj => ?_, ?_⟩, ?_⟩
  · rw [hgoal, hnew.current, Function.update_self]
  · rcases eq_or_ne j record.internalId with rfl | hne
    · rw [Function.update_self] at hj
      exact .inr ⟨rfl, hj⟩
    · rw [Function.update_of_ne hne] at hj
      exact .inl (hrowed.known j hj)
  · rw [hgoal, hnew.current] at hj
    rcases hj with hj | ⟨-, hj⟩
    · exact absurd hj hunknown
    · exact hj
  · rcases eq_or_ne j record.internalId with rfl | hne
    · cases hdead : saved.tombstoned record.internalId with
      | false => rfl
      | true =>
          have hlater := (hlegal.grows _).1 hdead
          rw [hnew.live] at hlater
          cases hlater
    · rw [Function.update_of_ne hne] at hj
      exact hrowed.live j hj
  · rw [hgoal]
    rcases hj with hj | ⟨rfl, -⟩
    · exact (hfits.grows j).2 (hrowed.stored j hj)
    · rw [← hnew.current]
      exact hnew.alive.2
  · rw [hgoal]
    intro other hother
    rcases List.mem_append.mp hother with hold | hlast
    · refine (hrowed.told other hold).grows hfits (fun j hj => .inl hj) fun j hdead hj => ?_
      rcases hj with hj | ⟨rfl, -⟩
      · exact hj
      · rw [hnew.live] at hdead
        cases hdead
    · obtain rfl := List.mem_singleton.mp hlast
      refine ⟨fun _ hpayload => .inr ⟨rfl, ?_⟩, fun hop haux => .inr ⟨rfl, ?_⟩,
        fun hop => (hnew.old hop).2.2, fun hop => ?_⟩
      · rw [Option.isSome_or, hpayload]
        rfl
      · obtain ⟨halive, hcurrent, -⟩ := hnew.old hop
        have hhad : had other.aux := by
          rcases haux with haux | ⟨haux, -⟩
          · exact haux
          · have hlive := halive.2
            rw [← hcurrent, haux, hnew.vector] at hlive
            cases hlive
        rw [if_pos hop, Option.isSome_or, hrowed.last halive (hcurrent ▸ hhad), Bool.or_true]
      · rcases hinserts with hins | hins
        · rw [hins] at hop
          cases hop
        · rw [hins] at hop
          cases hop
  · rw [hgoal]
    exact hnew.after row

/-- A delete leaves nothing alive. -/
theorem LogRecord.Fits.deleted (hfits : record.Fits r s) (htidy : s.Tidy r)
    (hop : record.op = .kDelete) :
    ¬(record.onSlice s).Alive r ∧ (record.onSlice s).tombstoned record.internalId = true := by
  cases hfits with
  | insert | reinsert | update => cases hop
  | delete =>
      refine ⟨?_, Function.update_self _ _ _⟩
      rintro ⟨hlive, -⟩
      exact absurd (htidy.tombstoned_direct.symm.trans hlive) (by simp)

/-- The call that logged a delete has nothing to put. -/
theorem Committed.delete (hcommitted : Committed r saved older rows before)
    (hlegal : Legal r saved older) (htidy : saved.Tidy r)
    (hfits : record.Fits r (replayed saved older)) (hop : record.op = .kDelete) :
    Committed r saved (older ++ [record]) rows none := by
  obtain ⟨had, row, hrowed, rfl⟩ := hcommitted
  have hgoal := replayed_snoc saved older record
  have hgrows := hfits.grows
  have htold := hrowed.told
  obtain ⟨hdead, hinternal⟩ := hfits.deleted (hlegal.tidy htidy) hop
  refine ⟨had, row, ⟨fun halive => ?_, hrowed.known, fun halive => ?_, hrowed.live,
    fun j hj => ?_, ?_⟩, ?_⟩
  · rw [hgoal] at halive
    exact absurd halive hdead
  · rw [hgoal] at halive
    exact absurd halive hdead
  · rw [hgoal]
    exact (hgrows j).2 (hrowed.stored j hj)
  · rw [hgoal]
    intro other hother
    rcases List.mem_append.mp hother with hold | hlast
    · exact (htold other hold).grows hfits (fun _ hj => hj) fun _ _ hj => hj
    · obtain rfl := List.mem_singleton.mp hlast
      refine ⟨fun hins => ?_, fun hins => ?_, fun hins => ?_, fun _ => hinternal⟩
      · rcases hins with hins | hins
        · rw [hins] at hop
          cases hop
        · rw [hins] at hop
          cases hop
      · rw [hins] at hop
        cases hop
      · rw [hins] at hop
        cases hop
  · rw [hgoal, Slice.docWith_of_dead hdead]

/-! A record in the middle of the replay -/

/-- What is missing is nothing, or something of the last call, which the record may be. -/
inductive Missing (r : Nat) (saved : Slice V Row) (done : List (LogRecord V Row))
    (record : LogRecord V Row) (rest : List (LogRecord V Row)) (rows : Nat → Option Row)
    (doc : Doc V Row) : Prop
  | nothing (hcommitted : Committed r saved (done ++ record :: rest) rows doc)
  | later (older : List (LogRecord V Row)) (last : LogRecord V Row) (before : Doc V Row)
      (hrecords : done ++ record :: rest = older ++ [last]) (hrecord : record ∈ older)
      (hrest : rest ≠ []) (hcommitted : Committed r saved older rows before)
      (hfits : last.Fits r (replayed saved older)) (hdoc : doc = last.onDoc before)
  | this (before : Doc V Row) (hrest : rest = []) (hcommitted : Committed r saved done rows before)
      (hdoc : doc = record.onDoc before)

theorem Recoverable.missing
    (hrecoverable : Recoverable r saved (done ++ record :: rest) rows doc) :
    Missing r saved done record rest rows doc := by
  rcases hrecoverable with hcommitted | ⟨older, last, before, hrecords, hcommitted, hfits, hdoc⟩
  · exact .nothing hcommitted
  · rcases List.eq_nil_or_concat rest with rfl | ⟨front, final, rfl⟩
    · obtain ⟨rfl, hlast⟩ := List.append_inj' hrecords rfl
      cases hlast
      exact .this before rfl hcommitted hdoc
    · rw [List.concat_eq_append] at hrecords ⊢
      have hsplit : (done ++ record :: front) ++ [final] = older ++ [last] := by
        rw [← hrecords, List.append_assoc, List.cons_append]
      obtain ⟨hfront, -⟩ := List.append_inj' hsplit rfl
      refine .later older last before hrecords ?_ (by simp) hcommitted hfits hdoc
      rw [← hfront]
      exact List.mem_append_right _ List.mem_cons_self

theorem Missing.recoverable (hmissing : Missing r saved done record rest rows doc)
    (hfits : record.Fits r (replayed saved done)) :
    Recoverable r saved (done ++ record :: rest) rows doc := by
  cases hmissing with
  | nothing hcommitted => exact .inl hcommitted
  | later older last before hrecords hrecord hrest hcommitted hfits hdoc =>
      exact .inr ⟨older, last, before, hrecords, hcommitted, hfits, hdoc⟩
  | this before hrest hcommitted hdoc =>
      rw [hrest]
      exact .inr ⟨done, record, before, rfl, hcommitted, hfits, hdoc⟩

/-- Nothing of the record is missing. -/
def Redone (r : Nat) (saved : Slice V Row) (done : List (LogRecord V Row))
    (record : LogRecord V Row) (rest : List (LogRecord V Row)) (rows : Nat → Option Row)
    (doc : Doc V Row) : Prop :=
  Recoverable r saved (done ++ record :: rest) rows doc ∧
    (rest = [] → Committed r saved (done ++ record :: rest) rows doc)

theorem Committed.row_internal (hcommitted : Committed r saved done rows before)
    (hnone : (replayed saved done).vectors i = none) : rows i = none := by
  obtain ⟨had, row, hrowed, -⟩ := hcommitted
  cases hrow : rows i with
  | none => rfl
  | some value =>
      have hstored := hrowed.stored i (hrowed.known i (by rw [hrow]; rfl))
      rw [hnone] at hstored
      cases hstored

/-- The replay of the last call puts what the call would have put. -/
theorem Committed.fill_eq (hcommitted : Committed r saved done rows before)
    (hnew : record.Inserted r (replayed saved done)) :
    record.fill rows = record.payload.or (before.bind Prod.snd) := by
  obtain ⟨had, row, hrowed, rfl⟩ := hcommitted
  rw [hnew.before row]
  unfold LogRecord.fill
  split
  · rename_i hop
    obtain ⟨halive, hcurrent, -⟩ := hnew.old hop
    rw [hcurrent, hrowed.current halive]
  · rfl

theorem Missing.fill (hmissing : Missing r saved done record rest rows doc)
    (hlegal : Legal r saved (done ++ record :: rest)) (hinserts : record.Inserts)
    (hnone : rows record.internalId = none) :
    Redone r saved done record rest
      (Function.update rows record.internalId (record.fill rows)) doc := by
  obtain ⟨hdone, hfits, hrest⟩ := legal_append.mp hlegal
  have hnew := hfits.inserted hinserts
  have hlive : saved.tombstoned record.internalId = false := by
    cases hdead : saved.tombstoned record.internalId with
    | false => rfl
    | true =>
        have hlater := (hdone.grows _).1 hdead
        rw [hnew.live] at hlater
        cases hlater
  cases hmissing with
  | nothing hcommitted =>
      have hfilled := hcommitted.refill (List.mem_append_right _ List.mem_cons_self) hinserts
        hnone hlive
      exact ⟨.inl hfilled, fun _ => hfilled⟩
  | later older last before hrecords hrecord hmore hcommitted hlast hdoc =>
      exact ⟨.inr ⟨older, last, before, hrecords,
        hcommitted.refill hrecord hinserts hnone hlive, hlast, hdoc⟩,
        fun hnil => absurd hnil hmore⟩
  | this before hnil hcommitted hdoc =>
      have hplaced := hcommitted.place hdone hfits hinserts
      rw [← hcommitted.fill_eq hnew, ← hdoc] at hplaced
      rw [hnil]
      exact ⟨.inl hplaced, fun _ => hplaced⟩

/-- A row that is there stays. -/
theorem Missing.keep (hmissing : Missing r saved done record rest rows doc)
    (hlegal : Legal r saved (done ++ record :: rest)) (hinserts : record.Inserts)
    (hsome : (rows record.internalId).isSome = true) :
    Redone r saved done record rest rows doc := by
  obtain ⟨hdone, hfits, -⟩ := legal_append.mp hlegal
  refine ⟨hmissing.recoverable hfits, fun hnil => ?_⟩
  cases hmissing with
  | nothing hcommitted => exact hcommitted
  | later older last before hrecords hrecord hmore => exact absurd hnil hmore
  | this before _ hcommitted hdoc =>
      rw [hcommitted.row_internal (hfits.inserted hinserts).vector] at hsome
      cases hsome

/-- The row of the version that the record replaced goes. -/
theorem Redone.move (hredone : Redone r saved done record rest rows doc)
    (hop : record.op = .kUpdate) :
    Redone r saved done record rest (Function.update rows record.aux none) doc := by
  have hmem : record ∈ done ++ record :: rest := List.mem_append_right _ List.mem_cons_self
  have hdrop : ∀ {records : List (LogRecord V Row)} {doc : Doc V Row}, record ∈ records →
      Committed r saved records rows doc →
      Committed r saved records (Function.update rows record.aux none) doc := by
    intro records doc hrecord hcommitted
    obtain ⟨had, row, -, -, htold⟩ := hcommitted.tell hrecord
    exact hcommitted.drop (htold.replaced hop)
  obtain ⟨hrecoverable, hlast⟩ := hredone
  refine ⟨?_, fun hnil => hdrop hmem (hlast hnil)⟩
  cases hrecoverable.missing with
  | nothing hcommitted => exact .inl (hdrop hmem hcommitted)
  | later older last before hrecords hrecord hmore hcommitted hfits hdoc =>
      exact .inr ⟨older, last, before, hrecords, hdrop hrecord hcommitted, hfits, hdoc⟩
  | this before hnil => exact .inl (hdrop hmem (hlast hnil))

/-- The row of the version that the record deleted goes. -/
theorem Missing.remove (hmissing : Missing r saved done record rest rows doc)
    (hlegal : Legal r saved (done ++ record :: rest)) (htidy : saved.Tidy r)
    (hop : record.op = .kDelete) :
    Redone r saved done record rest (Function.update rows record.internalId none) doc := by
  have hdrop : ∀ {records : List (LogRecord V Row)} {doc : Doc V Row}, record ∈ records →
      Committed r saved records rows doc →
      Committed r saved records (Function.update rows record.internalId none) doc := by
    intro records doc hrecord hcommitted
    obtain ⟨had, row, -, -, htold⟩ := hcommitted.tell hrecord
    exact hcommitted.drop (htold.deleted hop)
  have hmem : record ∈ done ++ record :: rest := List.mem_append_right _ List.mem_cons_self
  obtain ⟨hdone, hfits, -⟩ := legal_append.mp hlegal
  cases hmissing with
  | nothing hcommitted => exact ⟨.inl (hdrop hmem hcommitted), fun _ => hdrop hmem hcommitted⟩
  | later older last before hrecords hrecord hmore hcommitted hlast hdoc =>
      exact ⟨.inr ⟨older, last, before, hrecords, hdrop hrecord hcommitted, hlast, hdoc⟩,
        fun hnil => absurd hnil hmore⟩
  | this before hnil hcommitted hdoc =>
      have hdeleted := hcommitted.delete hdone htidy hfits hop
      have hnone : doc = none := by
        rw [hdoc]
        unfold LogRecord.onDoc
        rw [hop]
      rw [hnil, hnone]
      rw [hnil] at hmem
      exact ⟨.inl (hdrop hmem hdeleted), fun _ => hdrop hmem hdeleted⟩

end Rows

end AsterVec.Dense

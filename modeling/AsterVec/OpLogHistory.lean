import AsterVec.OpLog

/-!
What every operation on the log keeps: an append adds its record or nothing, a
segment is removed from either end without a hole, and a scan delivers the
records from the lsn it was given.
-/

namespace AsterVec.OpLog

/-! Appending -/

/-- Appending to the newest segment leaves the sealed ones alone. -/
theorem writeAll_current {lo : Nat} {segs : List Segment} {recs : List OpRecord}
    (hsealed : Sealed lo segs recs) (own bytes : List UInt8) :
    writeAll (some (lo + recs.length)) bytes (segs ++ [⟨lo + recs.length, own⟩]) =
      segs ++ [⟨lo + recs.length, own ++ bytes⟩] := by
  rw [writeAll, List.map_append]
  congr 1
  · rw [List.map_congr_left, List.map_id]
    intro seg hseg
    have hlt := (hsealed.firstLsn_lt seg hseg).2
    exact if_neg (by simp only [Option.some.injEq]; omega)
  · simp

theorem putRecords_concat (recs : List OpRecord) (rec : OpRecord) :
    putRecords (recs ++ [rec]) = putRecords recs ++ putRecord rec := by
  simp [putRecords]

/-- Cutting a record off in the middle leaves a torn tail. -/
theorem getRecord_dropLast_take {rec : OpRecord} (hfits : rec.Fits) (written : Nat) :
    getRecord ((putRecord rec).dropLast.take written) = none := by
  have hpos := List.length_pos_iff.mpr (putRecord_ne_nil rec)
  apply getRecord_torn hfits
  · exact (List.take_prefix _ _).trans (List.dropLast_prefix _)
  · rw [List.length_take, List.length_dropLast]
    omega

/-- What an append leaves: a log that holds the record as well, or the same
records as before. -/
def Appended (rec : OpRecord) (lo : Nat) (recs : List OpRecord)
    (result : Except Status Nat × Log × List Segment) : Prop :=
  match result.1 with
  | .ok lsn => lsn = lo + recs.length ∧
      Live result.2.1 lo result.2.2 (recs ++ [{ rec with lsn := lsn }])
  | .error _ => Live result.2.1 lo result.2.2 recs

theorem appended_writeRecord {log : Log} {lo : Nat} {segs : List Segment}
    {recs : List OpRecord} {rec : OpRecord} (fault : Option Fault)
    (hnext : log.nextLsn = lo + recs.length) (hpos : 0 < log.segmentBytes)
    (hwritable : Writable log lo segs recs)
    (hfits : OpRecord.Fits { rec with lsn := log.nextLsn }) :
    Appended rec lo recs (writeRecord fault { rec with lsn := log.nextLsn } log segs) := by
  rcases hwritable with ⟨hsealed, hown, hfd, hoffset⟩
  rename_i segs before own
  unfold writeRecord
  split
  · rename_i written truncated
    split
    · exact ⟨hnext, hpos, .current hsealed (has_of_records hown),
        fun _ => .intro hsealed hown hfd hoffset⟩
    · rw [hfd, writeAll_current hsealed]
      refine ⟨hnext, hpos, .current hsealed ⟨rfl, hown, _, ?_, rfl⟩, ?_⟩
      · exact getRecord_dropLast_take hfits written
      · rintro ⟨⟩
  · rw [hfd, writeAll_current hsealed, ← putRecords_concat]
    have hnumbered : Numbered (lo + before.length)
        (own ++ [{ rec with lsn := log.nextLsn }]) := by
      apply Numbered.append.mpr
      rw [hnext, List.length_append, ← Nat.add_assoc]
      rw [hnext, List.length_append, ← Nat.add_assoc] at hfits
      exact ⟨hown, rfl, hfits, trivial⟩
    refine ⟨hnext, ?_, hpos, ?_, ?_⟩
    · rw [List.length_append, List.length_singleton, ← Nat.add_assoc, ← hnext]
    · rw [List.append_assoc]
      exact .current hsealed (has_of_records hnumbered)
    · intro _
      rw [List.append_assoc]
      apply Writable.intro hsealed hnumbered rfl
      rw [putRecords_concat, List.length_append, hoffset]

/-- Rotating keeps the records; where it succeeds, the log can take one more. -/
theorem live_rotate {log : Log} {lo : Nat} {segs : List Segment} {recs : List OpRecord}
    (fault : Option Fault) (hlive : Live log lo segs recs) (hok : log.broken = false) :
    (rotate fault log segs).2.1.nextLsn = log.nextLsn ∧
      (rotate fault log segs).2.1.segmentBytes = log.segmentBytes ∧
      Holds lo (rotate fault log segs).2.2 recs ∧
      ((rotate fault log segs).1 = .ok →
        Writable (rotate fault log segs).2.1 lo (rotate fault log segs).2.2 recs) := by
  obtain ⟨hnext, hpos, hholds, hwritable⟩ := hlive
  have hcurrent := hwritable hok
  unfold rotate
  split
  · rename_i hfull
    unfold openSegmentLocked
    split
    · exact ⟨rfl, rfl, hholds, by simp⟩
    · have hsealed : Sealed lo segs recs := by
        rcases hcurrent with ⟨hsealed, hown, hfd, hoffset⟩
        apply hsealed.snoc (has_of_records hown)
        rintro rfl
        rw [hoffset] at hfull
        exact absurd hfull (Nat.not_le.mpr hpos)
      have hopened : Writable { log with fd := some log.nextLsn, offset := 0 } lo
          (createSegment (lo + recs.length) segs) recs :=
        writable_createSegment hsealed (congrArg some hnext) rfl
      rw [← hnext] at hopened
      exact ⟨rfl, rfl, hopened.holds, fun _ => hopened⟩
  · exact ⟨rfl, rfl, hholds, fun _ => hcurrent⟩

/-- An append adds its record, or fails and adds nothing. -/
theorem appended_append {log : Log} {lo : Nat} {segs : List Segment}
    {recs : List OpRecord} {rec : OpRecord} (fault : Option Fault)
    (hlive : Live log lo segs recs)
    (hfits : rec.bodyLength ≤ kMaxBodyBytes →
      OpRecord.Fits { rec with lsn := log.nextLsn }) :
    Appended rec lo recs (append fault rec log segs) := by
  unfold append
  split
  · exact hlive
  · rename_i hsmall
    split
    · exact hlive
    · rename_i hok
      have hrotate := live_rotate fault hlive (Bool.not_eq_true _ ▸ hok)
      obtain ⟨hnext, hpos, hholds, hwritable⟩ := hrotate
      split
      · rename_i log' segs' heq
        rw [heq] at hnext hpos hholds hwritable
        apply appended_writeRecord fault (hnext.trans hlive.next)
          (hpos ▸ hlive.segment_pos) (hwritable rfl)
        rw [hnext]
        exact hfits (Nat.not_lt.mp hsmall)
      · rename_i failed log' segs' hne heq
        rw [heq] at hnext hpos hholds
        exact ⟨hnext.trans hlive.next, hpos ▸ hlive.segment_pos, hholds, by rintro ⟨⟩⟩

/-! Truncation -/

theorem Holds.of_nil {lo : Nat} {recs : List OpRecord} (hholds : Holds lo [] recs) :
    recs = [] := by
  generalize hall : ([] : List Segment) = all at hholds
  cases hholds with
  | closed hsealed =>
      cases hsealed with
      | nil => rfl
      | cons => cases hall
  | current => simp at hall

theorem Holds.of_single {lo : Nat} {seg : Segment} {recs : List OpRecord}
    (hholds : Holds lo [seg] recs) : seg.Has lo recs := by
  generalize hall : [seg] = all at hholds
  cases hholds with
  | closed hsealed =>
      cases hsealed with
      | nil => cases hall
      | cons hseg hown hlater =>
          cases hall
          rw [(Holds.closed hlater).of_nil, List.append_nil]
          exact hseg
  | current hsealed hseg =>
      cases hsealed with
      | nil =>
          cases hall
          exact hseg
      | cons => simp at hall

/-- The oldest of several segments holds a stretch of records that ends where the
next segment starts. -/
theorem Holds.tail {lo : Nat} {seg next : Segment} {segs : List Segment}
    {recs : List OpRecord} (hholds : Holds lo (seg :: next :: segs) recs) :
    ∃ own later, recs = own ++ later ∧ seg.Has lo own ∧
      next.firstLsn = lo + own.length ∧ Holds (lo + own.length) (next :: segs) later := by
  generalize hall : seg :: next :: segs = all at hholds
  rcases hholds with hsealed | ⟨hsealed, hlast⟩
  · rcases hsealed with _ | ⟨hseg, hown, hlater⟩
    · cases hall
    · cases hall
      rename_i own later
      refine ⟨own, later, rfl, hseg, ?_, .closed hlater⟩
      rcases hlater with _ | ⟨hnext, -, -⟩
      exact hnext.1
  · rcases hsealed with _ | ⟨hseg, hown, hlater⟩
    · cases hall
    · rename_i lastOwn last first own later segs'
      rw [List.cons_append] at hall
      obtain ⟨rfl, hrest⟩ := List.cons.inj hall
      rw [List.length_append, ← Nat.add_assoc] at hlast
      refine ⟨own, later ++ lastOwn, List.append_assoc _ _ _, hseg, ?_, ?_⟩
      · rcases hlater with _ | ⟨hnext, -, -⟩
        · rw [(List.cons.inj hrest).1]
          exact hlast.1
        · rw [(List.cons.inj hrest).1]
          exact hnext.1
      · rw [hrest]
        exact .current hlater hlast

/-- The newest segment stays when the oldest of several goes. -/
theorem Writable.tail {log : Log} {lo : Nat} {seg next : Segment} {segs : List Segment}
    {recs own later : List OpRecord}
    (hwritable : Writable log lo (seg :: next :: segs) recs)
    (hrecs : recs = own ++ later) (hnext : next.firstLsn = lo + own.length) :
    Writable log (lo + own.length) (next :: segs) later := by
  generalize hall : seg :: next :: segs = all at hwritable
  rcases hwritable with ⟨hsealed, hlast, hfd, hoffset⟩
  rcases hsealed with _ | ⟨hseg, hne, hlater⟩
  · cases hall
  · rename_i lastOwn first firstOwn before segs'
    rw [List.cons_append] at hall
    obtain ⟨rfl, hrest⟩ := List.cons.inj hall
    have hlength : lo + firstOwn.length = lo + own.length := by
      rw [← hnext]
      rcases hlater with _ | ⟨hsecond, -, -⟩
      · rw [(List.cons.inj hrest).1, List.append_nil]
      · rw [(List.cons.inj hrest).1]
        exact hsecond.1.symm
    rw [List.append_assoc] at hrecs
    obtain ⟨rfl, rfl⟩ := List.append_inj hrecs (by omega)
    rw [List.length_append, ← Nat.add_assoc] at hlast hfd hrest
    rw [hrest]
    exact .intro hlater hlast hfd hoffset

/-- The names of the segments of a log ascend. -/
theorem Holds.ascending {lo : Nat} {segs : List Segment} {recs : List OpRecord}
    (hholds : Holds lo segs recs) :
    segs.Pairwise fun earlier later => earlier.firstLsn < later.firstLsn := by
  have hsealed : ∀ {lo : Nat} {segs : List Segment} {recs : List OpRecord},
      Sealed lo segs recs →
      segs.Pairwise fun earlier later => earlier.firstLsn < later.firstLsn := by
    intro lo segs recs hsealed
    induction hsealed with
    | nil lo => exact List.Pairwise.nil
    | cons hseg hown hlater ih =>
        refine List.Pairwise.cons (fun seg hmem => ?_) ih
        have hlow := (hlater.firstLsn_lt seg hmem).1
        have hpos := List.length_pos_iff.mpr hown
        rw [hseg.1]
        omega
  rcases hholds with hclosed | ⟨hclosed, hseg⟩
  · exact hsealed hclosed
  · apply List.pairwise_append.mpr
    refine ⟨hsealed hclosed, List.pairwise_singleton _ _, fun earlier hearlier later hlater => ?_⟩
    rw [List.mem_singleton.mp hlater, hseg.1]
    exact (hclosed.firstLsn_lt earlier hearlier).2

theorem removeSegment_head {seg : Segment} {segs : List Segment}
    (hascending : (seg :: segs).Pairwise
      fun earlier later => earlier.firstLsn < later.firstLsn) :
    removeSegment seg.firstLsn (seg :: segs) = segs := by
  rw [removeSegment, List.filter_cons_of_neg (by simp)]
  apply List.filter_eq_self.mpr
  intro later hlater
  have hlt := List.rel_of_pairwise_cons hascending hlater
  simpa using hlt.ne'

/-- Removing the first segment truncation may remove keeps every record from the
cut on, and what truncation may still remove are the other ones. -/
theorem live_removeObsolete {log : Log} {lo lsn firstLsn : Nat} {segs : List Segment}
    {recs : List OpRecord} {more : List Nat} (hlive : Live log lo segs recs)
    (hobsolete : obsoleteSegments lsn segs = firstLsn :: more) :
    ∃ own later, recs = own ++ later ∧ lo + own.length ≤ lsn ∧
      Live log (lo + own.length) (removeSegment firstLsn segs) later ∧
      obsoleteSegments lsn (removeSegment firstLsn segs) = more := by
  match segs, hobsolete with
  | seg :: next :: segs, hobsolete =>
      rw [obsoleteSegments] at hobsolete
      split at hobsolete
      · cases hobsolete
      · rename_i hle
        obtain ⟨rfl, rfl⟩ := List.cons.inj hobsolete
        obtain ⟨own, later, hrecs, -, hnext, hholds⟩ := hlive.holds.tail
        rw [removeSegment_head hlive.holds.ascending]
        refine ⟨own, later, hrecs, by omega, ⟨?_, hlive.segment_pos, hholds, ?_⟩, rfl⟩
        · rw [hlive.next, hrecs, List.length_append, Nat.add_assoc]
        · exact fun hok => (hlive.writable hok).tail hrecs hnext

/-! Scanning -/

/-- What a scan from `fromLsn` has reached after the records before `lo`. -/
def ScanState.Reached (fromLsn lo : Nat) (recs : List OpRecord) (st : ScanState) : Prop :=
  st.delivered = recs.filter (fromLsn ≤ ·.lsn) ∧ st.expected = max fromLsn lo ∧
    st.gap = false

theorem putRecords_length_le (recs : List OpRecord) :
    recs.length ≤ (putRecords recs).length := by
  induction recs with
  | nil => exact Nat.le_refl _
  | cons rec recs ih =>
      have hpos := List.length_pos_iff.mpr (putRecord_ne_nil rec)
      rw [putRecords, List.flatMap_cons, List.length_append, ← putRecords, List.length_cons]
      omega

/-- One segment is read to its torn tail. -/
theorem reached_scanSegment {fromLsn lo : Nat} {before own : List OpRecord}
    {torn : List UInt8} (hown : Numbered lo own) (htorn : getRecord torn = none)
    {fuel : Nat} (hfuel : own.length < fuel) {st : ScanState}
    (hst : st.Reached fromLsn lo before) :
    (scanSegment fromLsn fuel (putRecords own ++ torn) st).Reached fromLsn
      (lo + own.length) (before ++ own) := by
  induction own generalizing lo fuel st before with
  | nil =>
      obtain ⟨fuel, rfl⟩ := Nat.exists_eq_succ_of_ne_zero (Nat.ne_of_gt hfuel)
      rw [scanSegment, show putRecords [] ++ torn = torn from rfl, htorn, List.append_nil]
      exact hst
  | cons rec own ih =>
      obtain ⟨fuel, rfl⟩ := Nat.exists_eq_succ_of_ne_zero (Nat.ne_of_gt (Nat.zero_lt_of_lt hfuel))
      obtain ⟨hlsn, hfits, hrest⟩ := hown
      obtain ⟨hdelivered, hexpected, hgap⟩ := hst
      have hfound : getRecord (putRecords (rec :: own) ++ torn) =
          some (rec, putRecords own ++ torn) := by
        rw [putRecords, List.flatMap_cons, List.append_assoc, getRecord_putRecord hfits]
        rfl
      have hcount : lo + (rec :: own).length = lo + 1 + own.length := by
        rw [List.length_cons]
        omega
      rw [scanSegment, hfound, hcount, ← List.singleton_append, ← List.append_assoc]
      have hfuel' : own.length < fuel := Nat.lt_of_succ_lt_succ hfuel
      simp only
      rcases Nat.lt_or_ge rec.lsn fromLsn with hbelow | habove
      · rw [if_pos hbelow]
        apply ih hrest hfuel'
        refine ⟨?_, by omega, hgap⟩
        rw [List.filter_append, List.filter_cons_of_neg (by simpa using hbelow), hdelivered,
          List.filter_nil, List.append_nil]
      · rw [if_neg (Nat.not_lt.mpr habove), if_neg (by omega)]
        apply ih hrest hfuel'
        refine ⟨?_, by simp only; omega, hgap⟩
        rw [List.filter_append, List.filter_cons_of_pos (by simpa using habove), hdelivered,
          List.filter_nil]

theorem reached_of_below {fromLsn lo : Nat} {before own : List OpRecord}
    (hown : Numbered lo own) (hle : lo + own.length ≤ fromLsn) {st : ScanState}
    (hst : st.Reached fromLsn lo before) :
    st.Reached fromLsn (lo + own.length) (before ++ own) := by
  induction own generalizing lo before with
  | nil =>
      rw [List.append_nil]
      exact hst
  | cons rec own ih =>
      obtain ⟨hlsn, -, hrest⟩ := hown
      obtain ⟨hdelivered, hexpected, hgap⟩ := hst
      rw [List.length_cons] at hle ⊢
      rw [← List.singleton_append, ← List.append_assoc,
        show lo + (own.length + 1) = lo + 1 + own.length by omega]
      apply ih hrest (by omega)
      refine ⟨?_, by omega, hgap⟩
      rw [List.filter_append, List.filter_cons_of_neg (by simp; omega), hdelivered,
        List.filter_nil, List.append_nil]

theorem reached_scanHas {fromLsn lo : Nat} {before own : List OpRecord} {seg : Segment}
    (hseg : seg.Has lo own) {st : ScanState} (hst : st.Reached fromLsn lo before) :
    (scanSegment fromLsn (seg.bytes.length + 1) seg.bytes st).Reached fromLsn
      (lo + own.length) (before ++ own) := by
  obtain ⟨-, hown, torn, htorn, hbytes⟩ := hseg
  have hle := putRecords_length_le own
  rw [hbytes]
  apply reached_scanSegment hown htorn _ hst
  rw [List.length_append]
  omega

/-- A scan that starts at or after the first record of a log reads through all
its segments. -/
theorem reached_scanSegments {fromLsn lo : Nat} {segs : List Segment}
    {before recs : List OpRecord} (hholds : Holds lo segs recs) {st : ScanState}
    (hst : st.Reached fromLsn lo before) :
    (scanSegments fromLsn segs st).Reached fromLsn (lo + recs.length) (before ++ recs) := by
  induction segs generalizing lo recs before st with
  | nil =>
      rw [hholds.of_nil, List.append_nil]
      exact hst
  | cons seg later ih =>
      rw [scanSegments]
      cases later with
      | nil =>
          have hscanned := reached_scanHas hholds.of_single hst
          simp only [endsBefore, List.head?_nil, Option.elim_none, Bool.false_eq_true,
            if_false, hscanned.2.2, scanSegments]
          exact hscanned
      | cons next segs =>
          obtain ⟨own, rest, rfl, hseg, hnext, hrest⟩ := hholds.tail
          rw [List.length_append, ← Nat.add_assoc, ← List.append_assoc]
          split
          · rename_i hends
            apply ih hrest
            apply reached_of_below hseg.2.1 _ hst
            rw [← hnext]
            simpa [endsBefore] using hends
          · have hscanned := reached_scanHas hseg hst
            simp only [hscanned.2.2, Bool.false_eq_true, if_false]
            exact ih hrest hscanned

/-- A scan from an lsn the log covers delivers every record from there on, in
order and without a gap. -/
theorem scan_of_holds {fromLsn lo : Nat} {segs : List Segment} {recs : List OpRecord}
    (hholds : Holds lo segs recs) (hlow : lo ≤ fromLsn) :
    (scan fromLsn segs).delivered = recs.filter (fromLsn ≤ ·.lsn) ∧
      (scan fromLsn segs).gap = false := by
  have hscanned : (scanSegments fromLsn segs ⟨[], fromLsn, 0, false⟩).Reached fromLsn
      (lo + recs.length) ([] ++ recs) :=
    reached_scanSegments hholds ⟨rfl, (Nat.max_eq_left hlow).symm, rfl⟩
  exact ⟨hscanned.1, hscanned.2.2⟩

end AsterVec.OpLog

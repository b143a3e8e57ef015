import AsterVec.OpLogHistory

/-!
Histories of sessions on one log directory: every session opens the log behind
the last accepted record, appends, and ends or is killed anywhere.
-/

namespace AsterVec.OpLog

/-- Remove segments one after the other. -/
def removeSegments (firstLsns : List Nat) (segs : List Segment) : List Segment :=
  firstLsns.foldl (fun segs firstLsn => removeSegment firstLsn segs) segs

/-- `OpLog::Open`: drop the segments from `nextLsn` on, then start a new one. -/
def openLog (fault : Option Fault) (nextLsn segmentBytes : Nat) (segs : List Segment) :
    Status × Log × List Segment :=
  if nextLsn = 0 then
    (.invalidArgument "lsn starts at 1", Log.make nextLsn segmentBytes, segs)
  else
    openSegmentLocked fault (Log.make nextLsn segmentBytes)
      (removeSegments (staleSegments nextLsn segs) segs)

/-- One past the last of the records. -/
def nextLsnAfter (accepted : List OpRecord) : Nat :=
  accepted.getLast?.elim 0 OpRecord.lsn + 1

/-- The log, when a session has it open, its directory, and the records accepted
so far.  A kill that cuts a record off while it is written is a write that fails
after some bytes, followed by the end of the session; a kill inside `Open` leaves
only some of the stale segments removed. -/
inductive Sessions : Option Log → List Segment → List OpRecord → Prop where
  | nil : Sessions none [] []
  | removed {segs : List Segment} {accepted : List OpRecord} {firstLsn : Nat}
      (hsessions : Sessions none segs accepted)
      (hstale : firstLsn ∈ staleSegments (nextLsnAfter accepted) segs) :
      Sessions none (removeSegment firstLsn segs) accepted
  | opened {segs segs' : List Segment} {accepted : List OpRecord} {log : Log}
      {fault : Option Fault} {segmentBytes : Nat}
      (hsessions : Sessions none segs accepted)
      (hopen : openLog fault (nextLsnAfter accepted) segmentBytes segs = (.ok, log, segs')) :
      Sessions (some log) segs' accepted
  | refusedOpen {segs segs' : List Segment} {accepted : List OpRecord} {log : Log}
      {status : Status} {fault : Option Fault} {segmentBytes : Nat}
      (hsessions : Sessions none segs accepted)
      (hopen : openLog fault (nextLsnAfter accepted) segmentBytes segs = (status, log, segs')) :
      Sessions none segs' accepted
  | appended {segs segs' : List Segment} {accepted : List OpRecord} {log log' : Log}
      {rec : OpRecord} {fault : Option Fault} {lsn : Nat}
      (hsessions : Sessions (some log) segs accepted)
      (hfits : rec.bodyLength ≤ kMaxBodyBytes → OpRecord.Fits { rec with lsn := log.nextLsn })
      (happend : append fault rec log segs = (.ok lsn, log', segs')) :
      Sessions (some log') segs' (accepted ++ [{ rec with lsn := lsn }])
  | refused {segs segs' : List Segment} {accepted : List OpRecord} {log log' : Log}
      {rec : OpRecord} {fault : Option Fault} {status : Status}
      (hsessions : Sessions (some log) segs accepted)
      (hfits : rec.bodyLength ≤ kMaxBodyBytes → OpRecord.Fits { rec with lsn := log.nextLsn })
      (happend : append fault rec log segs = (.error status, log', segs')) :
      Sessions (some log') segs' accepted
  | ended {segs : List Segment} {accepted : List OpRecord} {log : Log}
      (hsessions : Sessions (some log) segs accepted) : Sessions none segs accepted

theorem nextLsnAfter_of_numbered {lo : Nat} {recs : List OpRecord}
    (hnumbered : Numbered lo recs) (hrecs : recs ≠ []) :
    nextLsnAfter recs = lo + recs.length := by
  rw [← List.dropLast_append_getLast hrecs] at hnumbered
  have hlast := (Numbered.append.mp hnumbered).2.1
  rw [nextLsnAfter, List.getLast?_eq_some_getLast hrecs, Option.elim_some, hlast,
    List.length_dropLast]
  have hpos := List.length_pos_iff.mpr hrecs
  omega

theorem nextLsnAfter_eq {recs : List OpRecord} (hnumbered : Numbered 1 recs) :
    nextLsnAfter recs = 1 + recs.length := by
  rcases eq_or_ne recs [] with rfl | hrecs
  · rfl
  · exact nextLsnAfter_of_numbered hnumbered hrecs

/-- The lsns of numbered records count up from the first. -/
theorem Numbered.map_lsn {lo : Nat} {recs : List OpRecord} (hnumbered : Numbered lo recs) :
    recs.map OpRecord.lsn = List.range' lo recs.length := by
  induction recs generalizing lo with
  | nil => rfl
  | cons rec recs ih =>
      rw [List.map_cons, List.length_cons, List.range'_succ, hnumbered.1, ih hnumbered.2.2]

/-- The records from an lsn on. -/
theorem filter_numbered {lo : Nat} {recs : List OpRecord} (hnumbered : Numbered lo recs)
    (start : Nat) : recs.filter (start ≤ ·.lsn) = recs.drop (start - lo) := by
  induction recs generalizing lo with
  | nil => simp
  | cons rec recs ih =>
      obtain ⟨hlsn, -, hrest⟩ := hnumbered
      have htail := ih hrest
      rcases Nat.lt_or_ge lo start with hbelow | habove
      · have hsplit : start - lo = (start - (lo + 1)) + 1 := by omega
        rw [List.filter_cons_of_neg (by simp; omega), htail, hsplit, List.drop_succ_cons]
      · have hzero : start - lo = 0 := by omega
        have hzero' : start - (lo + 1) = 0 := by omega
        rw [List.filter_cons_of_pos (by simp; omega), htail, hzero, hzero', List.drop_zero,
          List.drop_zero]

theorem mem_staleSegments {nextLsn firstLsn : Nat} {segs : List Segment}
    (hstale : firstLsn ∈ staleSegments nextLsn segs) : nextLsn ≤ firstLsn := by
  simp only [staleSegments, List.mem_map, List.mem_filter, decide_eq_true_eq] at hstale
  obtain ⟨seg, ⟨-, hle⟩, rfl⟩ := hstale
  exact hle

theorem holds_removeSegments {lo : Nat} {segs : List Segment} {recs : List OpRecord}
    (hholds : Holds lo segs recs) {firstLsns : List Nat}
    (hstale : ∀ firstLsn ∈ firstLsns, lo + recs.length ≤ firstLsn) :
    Holds lo (removeSegments firstLsns segs) recs := by
  induction firstLsns generalizing segs with
  | nil => exact hholds
  | cons firstLsn firstLsns ih =>
      apply ih (hholds.removeSegment (hstale firstLsn (by simp)))
      exact fun other hother => hstale other (by simp [hother])

theorem mem_removeSegments {firstLsns : List Nat} {segs : List Segment} {seg : Segment} :
    seg ∈ removeSegments firstLsns segs ↔ seg ∈ segs ∧ seg.firstLsn ∉ firstLsns := by
  induction firstLsns generalizing segs with
  | nil => simp [removeSegments]
  | cons firstLsn firstLsns ih =>
      change seg ∈ removeSegments firstLsns (removeSegment firstLsn segs) ↔ _
      rw [ih]
      simp [removeSegment, and_assoc]

/-- Once its stale segments are gone, a directory is sealed. -/
theorem sealed_removeSegments {lo : Nat} {segs : List Segment} {recs : List OpRecord}
    (hholds : Holds lo segs recs) :
    Sealed lo (removeSegments (staleSegments (lo + recs.length) segs) segs) recs := by
  apply (holds_removeSegments hholds fun firstLsn => mem_staleSegments).sealed
  intro seg hseg
  obtain ⟨hmem, hkept⟩ := mem_removeSegments.mp hseg
  apply Nat.not_le.mp
  intro hle
  apply hkept
  simp only [staleSegments, List.mem_map, List.mem_filter, decide_eq_true_eq]
  exact ⟨seg, ⟨hmem, hle⟩, rfl⟩

theorem Log.make_segmentBytes_pos (nextLsn segmentBytes : Nat) :
    0 < (Log.make nextLsn segmentBytes).segmentBytes := by
  unfold Log.make
  simp only
  split
  · decide
  · omega

/-- Opening a log leaves its records where they are; the log it returns can take
the next one. -/
theorem live_openLog {lo : Nat} {segs : List Segment} {recs : List OpRecord}
    (hholds : Holds lo segs recs) (fault : Option Fault) (segmentBytes : Nat) :
    Holds lo (openLog fault (lo + recs.length) segmentBytes segs).2.2 recs ∧
      ((openLog fault (lo + recs.length) segmentBytes segs).1 = .ok →
        Live (openLog fault (lo + recs.length) segmentBytes segs).2.1 lo
          (openLog fault (lo + recs.length) segmentBytes segs).2.2 recs) := by
  have hsealed := sealed_removeSegments hholds
  unfold openLog
  split
  · exact ⟨hholds, by simp⟩
  · unfold openSegmentLocked
    split
    · exact ⟨.closed hsealed, by simp⟩
    · have hopened : Writable { Log.make (lo + recs.length) segmentBytes with
            fd := some (lo + recs.length), offset := 0 } lo
          (createSegment (lo + recs.length)
            (removeSegments (staleSegments (lo + recs.length) segs) segs)) recs :=
        writable_createSegment hsealed rfl rfl
      exact ⟨hopened.holds, fun _ =>
        ⟨rfl, Log.make_segmentBytes_pos (lo + recs.length) segmentBytes, hopened.holds,
          fun _ => hopened⟩⟩

/-- At every moment of a history the directory holds the accepted records. -/
theorem Sessions.holds {log : Option Log} {segs : List Segment}
    {accepted : List OpRecord} (hsessions : Sessions log segs accepted) :
    Holds 1 segs accepted ∧ ∀ opened, log = some opened → Live opened 1 segs accepted := by
  induction hsessions with
  | nil => exact ⟨.closed (.nil 1), by simp⟩
  | removed hsessions hstale ih =>
      rw [nextLsnAfter_eq ih.1.numbered] at hstale
      exact ⟨ih.1.removeSegment (mem_staleSegments hstale), by simp⟩
  | @opened segs segs' accepted log fault segmentBytes hsessions hopen ih =>
      rw [nextLsnAfter_eq ih.1.numbered] at hopen
      have hlive := (live_openLog ih.1 fault segmentBytes).2
      rw [hopen] at hlive
      refine ⟨(hlive rfl).holds, ?_⟩
      rintro opened ⟨⟩
      exact hlive rfl
  | @refusedOpen segs segs' accepted log status fault segmentBytes hsessions hopen ih =>
      rw [nextLsnAfter_eq ih.1.numbered] at hopen
      have hholds := (live_openLog ih.1 fault segmentBytes).1
      rw [hopen] at hholds
      exact ⟨hholds, by simp⟩
  | @appended segs segs' accepted log log' rec fault lsn hsessions hfits happend ih =>
      have hresult := appended_append fault (ih.2 log rfl) hfits
      rw [happend] at hresult
      refine ⟨hresult.2.holds, ?_⟩
      rintro opened ⟨⟩
      exact hresult.2
  | @refused segs segs' accepted log log' rec fault status hsessions hfits happend ih =>
      have hresult := appended_append fault (ih.2 log rfl) hfits
      rw [happend] at hresult
      refine ⟨hresult.holds, ?_⟩
      rintro opened ⟨⟩
      exact hresult
  | ended hsessions ih => exact ⟨ih.1, by simp⟩

/-- However its sessions went, a log delivers the accepted records from any lsn
on, as they were appended, numbered from 1 without a gap. -/
theorem Sessions.scan_delivers {log : Option Log} {segs : List Segment}
    {accepted : List OpRecord} (hsessions : Sessions log segs accepted) {fromLsn : Nat}
    (hfrom : 1 ≤ fromLsn) :
    (scan fromLsn segs).delivered = accepted.filter (fromLsn ≤ ·.lsn) ∧
      (scan fromLsn segs).gap = false ∧
      accepted.map OpRecord.lsn = List.range' 1 accepted.length := by
  have hholds := hsessions.holds.1
  obtain ⟨hdelivered, hgap⟩ := scan_of_holds hholds hfrom
  exact ⟨hdelivered, hgap, hholds.numbered.map_lsn⟩

/-- An insert of id 7 without a payload. -/
def insertSeven : OpRecord where
  lsn := 0
  op := .kInsert
  encoding := 1
  realId := 7
  internalId := 7
  aux := 0
  record := [1, 2]
  key := []
  payload := []

def firstSession : Log × List Segment := (openLog none 1 0 []).2

def afterInsert : Log × List Segment :=
  (append none insertSeven firstSession.1 firstSession.2).2

/-- The second append is killed after 20 bytes. -/
def killedAppend : Log × List Segment :=
  (append (some (.write 20 false)) insertSeven afterInsert.1 afterInsert.2).2

def secondSession : Log × List Segment := (openLog none 2 0 killedAppend.2).2

theorem insertSeven_fits {lsn : Nat} (hlsn : lsn < 2 ^ 64) :
    OpRecord.Fits { insertSeven with lsn := lsn } := by
  have hfits : insertSeven.Fits :=
    ⟨by decide, rfl, by decide, by decide, by decide, by decide, by decide, by decide⟩
  exact ⟨hlsn, hfits.op_eq, hfits.op_lt, hfits.encoding_lt, hfits.real_lt,
    hfits.internal_lt, hfits.aux_lt, hfits.body_le⟩

theorem secondSession_delivers :
    (scan 1 secondSession.2).delivered =
        [{ insertSeven with lsn := 1 }].filter (1 ≤ ·.lsn) ∧
      (scan 1 secondSession.2).gap = false ∧
      [{ insertSeven with lsn := 1 }].map OpRecord.lsn = List.range' 1 1 := by
  have hfirst : Sessions (some firstSession.1) firstSession.2 [] :=
    Sessions.opened .nil
      (show openLog none 1 0 [] = (.ok, firstSession.1, firstSession.2) from rfl)
  have hinserted : Sessions (some afterInsert.1) afterInsert.2
      ([] ++ [{ insertSeven with lsn := 1 }]) :=
    Sessions.appended hfirst (fun _ => insertSeven_fits (by decide))
      (show append none insertSeven firstSession.1 firstSession.2 = _ from rfl)
  have hkilled : Sessions (some killedAppend.1) killedAppend.2
      ([] ++ [{ insertSeven with lsn := 1 }]) :=
    Sessions.refused hinserted (fun _ => insertSeven_fits (by decide))
      (show append (some (.write 20 false)) insertSeven afterInsert.1 afterInsert.2 = _
        from rfl)
  have hreopened : Sessions (some secondSession.1) secondSession.2
      ([] ++ [{ insertSeven with lsn := 1 }]) :=
    Sessions.opened hkilled.ended (show openLog none 2 0 killedAppend.2 = _ from rfl)
  exact hreopened.scan_delivers (Nat.le_refl 1)

end AsterVec.OpLog
